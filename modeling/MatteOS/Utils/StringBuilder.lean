import MatteOS.Utils.Memory
import MatteOS.Utils.StringValue

/-!
# String builders

`Utils::StringBuilder`. A builder has a block of characters, or none after a move. What a new block
holds is what its memory held before (`raw`), and an access outside a block is not defined. Sizes are
natural numbers, as no block is as large as the address space.
-/

namespace MatteOS.Utils

structure StringBuilder where
  data : Option (List (BitVec 8))
  capacity : Nat
  size : Nat
deriving DecidableEq

namespace StringBuilder

/-- `DEFAULT_CAPACITY` -/
def DEFAULT_CAPACITY : Nat := 16

/-- `new char[n]`, which is `nullptr` for no characters. -/
def newChars (raw : Nat → BitVec 8) (n : Nat) : Option (List (BitVec 8)) :=
  if n = 0 then none else some ((List.range n).map raw)

/-- The first `n` characters behind a pointer. -/
def load (data : Option (List (BitVec 8))) (n : Nat) : Except Fault (List (BitVec 8)) :=
  if n ≤ (data.getD []).length then .ok ((data.getD []).take n) else .error .undefined

/-- Characters are put behind a pointer, from the index `i` on. -/
def store (data : Option (List (BitVec 8))) (i : Nat) (chars : List (BitVec 8)) :
    Except Fault (Option (List (BitVec 8))) :=
  if chars = [] then .ok data
  else if i + chars.length ≤ (data.getD []).length then
    .ok (data.map fun block => block.take i ++ chars ++ block.drop (i + chars.length))
  else .error .undefined

/-- A new block with the first `size` characters of another one. -/
def copyData (raw : Nat → BitVec 8) (capacity : Nat) (data : Option (List (BitVec 8)))
    (size : Nat) : Except Fault (Option (List (BitVec 8))) := do
  let n ← intRounds size
  let chars ← load data n
  store (newChars raw capacity) 0 chars

/-- `StringBuilder()` -/
def create (raw : Nat → BitVec 8) : StringBuilder where
  data := newChars raw DEFAULT_CAPACITY
  capacity := DEFAULT_CAPACITY
  size := 0

/-- `StringBuilder::grow` -/
def grow (b : StringBuilder) (raw : Nat → BitVec 8) (newCapacity : Nat) :
    Except Fault StringBuilder := do
  let newCapacity := newCapacity + DEFAULT_CAPACITY
  let data ← copyData raw newCapacity b.data b.size
  return { b with data := data, capacity := newCapacity }

/-- The growth before `length` characters are put behind the others. -/
def growFor (b : StringBuilder) (raw : Nat → BitVec 8) (length : Nat) : Except Fault StringBuilder :=
  if b.size + length ≥ b.capacity then b.grow raw (b.capacity + length) else .ok b

/-- `operator+=(const char*)`, of a C string without its NUL. -/
def appendCString (b : StringBuilder) (raw : Nat → BitVec 8) (str : List (BitVec 8)) :
    Except Fault StringBuilder := do
  let b ← b.growFor raw str.length
  let n ← intRounds str.length
  let data ← store b.data b.size (str.take n)
  return { b with data := data }

/-- `operator+=(const char)` -/
def appendChar (b : StringBuilder) (raw : Nat → BitVec 8) (c : BitVec 8) :
    Except Fault StringBuilder := do
  let b ← b.growFor raw 1
  let data ← store b.data b.size [c]
  return { b with data := data, size := b.size + 1 }

/-- `operator+=(const String&)` -/
def appendString (b : StringBuilder) (raw : Nat → BitVec 8) (str : StringValue) :
    Except Fault StringBuilder :=
  b.appendCString raw (str.buffer.take (StringValue.calculateSize str.buffer))

/-- `StringBuilder(const StringBuilder&)`, and `operator=` from another builder. -/
def copy (other : StringBuilder) (raw : Nat → BitVec 8) : Except Fault StringBuilder := do
  let data ← copyData raw other.capacity other.data other.size
  return { other with data := data }

/-- The builder that a move leaves. -/
def moved : StringBuilder := { data := none, capacity := 0, size := 0 }

/-- `StringBuilder::to_string`: the string up to the first NUL of the block. -/
def toString (b : StringBuilder) : Except Fault StringValue :=
  if terminated : 0 ∈ b.data.getD [] then .ok (.ofCString (b.data.getD []) terminated)
  else .error .undefined

end StringBuilder

/-! ## Programs -/

/-- The builders of a program, by variable. -/
abbrev Builders := Nat → Option StringBuilder

/-- A call of a program; `raw` is what the memory of a block holds that it allocates. -/
inductive BuilderCall where
  | create (x : Nat) (raw : Nat → BitVec 8)
  | appendCString (x : Nat) (str : List (BitVec 8)) (raw : Nat → BitVec 8)
  | appendChar (x : Nat) (c : BitVec 8) (raw : Nat → BitVec 8)
  | appendString (x : Nat) (str : StringValue) (raw : Nat → BitVec 8)
  | copyConstruct (x y : Nat) (raw : Nat → BitVec 8)
  | moveConstruct (x y : Nat)
  | copyAssign (x y : Nat) (raw : Nat → BitVec 8)
  | moveAssign (x y : Nat)
  | destroy (x : Nat)

namespace Builders

def get (w : Builders) (x : Nat) : Except Fault StringBuilder := orUndefined (w x)

def set (w : Builders) (x : Nat) (b : StringBuilder) : Builders := Function.update w x (some b)

/-- `x` has what `y` had. -/
def hand (w : Builders) (x y : Nat) (b : StringBuilder) : Builders := (w.set y .moved).set x b

def call (w : Builders) : BuilderCall → Except Fault Builders
  | .create x raw => .ok (w.set x (.create raw))
  | .appendCString x str raw => do
    let b ← w.get x
    let b ← b.appendCString raw str
    return w.set x b
  | .appendChar x c raw => do
    let b ← w.get x
    let b ← b.appendChar raw c
    return w.set x b
  | .appendString x str raw => do
    let b ← w.get x
    let b ← b.appendString raw str
    return w.set x b
  | .copyConstruct x y raw => do
    let other ← w.get y
    let b ← other.copy raw
    return w.set x b
  | .moveConstruct x y => do
    let other ← w.get y
    return w.hand x y other
  | .copyAssign x y raw => do
    let _ ← w.get x
    let other ← w.get y
    if x = y then return w
    else
      let b ← other.copy raw
      return w.set x b
  | .moveAssign x y => do
    let _ ← w.get x
    let other ← w.get y
    if x = y then return w
    else return w.hand x y other
  | .destroy x => do
    let _ ← w.get x
    return Function.update w x none

end Builders

end MatteOS.Utils
