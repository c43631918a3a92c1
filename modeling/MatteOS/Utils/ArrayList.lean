import Mathlib.Logic.Function.Basic
import MatteOS.Lib.Loop
import MatteOS.Utils.Assertions

/-!
# Array lists

`Utils::ArrayList`, for any element type (`ElementType`). A list has a block of `m_size` slots, of
which the first `m_ptr` hold its elements. A slot is raw until an object is constructed in it, and
keeps what the destructor leaves of the object. Counts are natural numbers, of which only the
predecessor of zero wraps around: no block is as large as the address space. Allocations succeed.
-/

namespace MatteOS.Utils

/-- An element type, by what its operations do to its objects. `value` is the element that an object
is; what a destructor leaves need not be one. -/
structure ElementType (Object Value : Type) where
  value : Object → Option Value
  /-- `T(const T&)` -/
  copy : Object → Object
  /-- `T(T&&)`: the new object, and the other one afterwards. -/
  move : Object → Object × Object
  /-- `operator=(T&&)`: both objects afterwards, where the first can be assigned to. -/
  assign : Object → Object → Option (Object × Object)
  /-- `~T()`: what is left in the slot, where the object can be destroyed. -/
  destroy : Object → Option Object
  copy_value : ∀ {o v}, value o = some v → value (copy o) = some v
  move_value : ∀ {o v}, value o = some v → value (move o).1 = some v ∧ (value (move o).2).isSome
  assign_value : ∀ {o o' u v}, value o = some u → value o' = some v →
    ∃ d s, assign o o' = some (d, s) ∧ value d = some v
  assign_source : ∀ {o o' v d s}, value o' = some v → assign o o' = some (d, s) → (value s).isSome
  destroy_value : ∀ {o v}, value o = some v → (destroy o).isSome

/-! ## Memory -/

/-- A block of slots. -/
structure Block (Object : Type) where
  size : Nat
  slots : Nat → Option Object

namespace Block

variable {Object : Type}

def raw (size : Nat) : Block Object := ⟨size, fun _ => none⟩

def read (b : Block Object) (i : Nat) : Except Fault Object :=
  if i < b.size then orUndefined (b.slots i) else .error .undefined

/-- Placement construction, or the change of an object in its place. -/
def write (b : Block Object) (i : Nat) (o : Object) : Except Fault (Block Object) :=
  if i < b.size then .ok { b with slots := Function.update b.slots i (some o) }
  else .error .undefined

end Block

/-- The blocks that are allocated, by address. -/
structure ObjectHeap (Object : Type) where
  blocks : Nat → Option (Block Object)
  next : Nat

namespace ObjectHeap

variable {Object : Type}

def block (h : ObjectHeap Object) (p : Nat) : Except Fault (Block Object) := orUndefined (h.blocks p)

def setBlock (h : ObjectHeap Object) (p : Nat) (b : Block Object) : ObjectHeap Object :=
  { h with blocks := Function.update h.blocks p (some b) }

def kmalloc (h : ObjectHeap Object) (size : Nat) : Nat × ObjectHeap Object :=
  (h.next, { blocks := Function.update h.blocks h.next (some (.raw size)), next := h.next + 1 })

def kfree (h : ObjectHeap Object) (p : Nat) : Except Fault (ObjectHeap Object) := do
  let _ ← h.block p
  return { h with blocks := Function.update h.blocks p none }

end ObjectHeap

/-- A `const T&`: to an object outside the lists, or into a block. -/
inductive Reference (Object : Type) where
  | object (o : Object)
  | slot (array index : Nat)

def Reference.read {Object : Type} (h : ObjectHeap Object) : Reference Object → Except Fault Object
  | .object o => .ok o
  | .slot array index => do
    let b ← h.block array
    b.read index

/-! ## Lists -/

structure ArrayList where
  array : Nat
  size : Nat
  ptr : Nat
deriving DecidableEq

namespace ArrayList

/-- `DEFAULT_SIZE` -/
def DEFAULT_SIZE : Nat := 8

/-- `n - 1` as a `size_t` -/
def predecessor (n : Nat) : Nat := if n = 0 then 2 ^ 64 - 1 else n - 1

variable {Object Value : Type} (E : ElementType Object Value)

/-- `m_array[i].~T()` -/
def destroyAt (i : Nat) (b : Block Object) : Except Fault (Block Object) := do
  let o ← b.read i
  let rest ← orUndefined (E.destroy o)
  b.write i rest

/-- `new(&m_array[i]) T(other.m_array[i])` -/
def copyAt (other : Block Object) (i : Nat) (b : Block Object) : Except Fault (Block Object) := do
  let o ← other.read i
  b.write i (E.copy o)

/-- `m_array[i] = move(m_array[i + 1])` -/
def shiftAt (i : Nat) (b : Block Object) : Except Fault (Block Object) := do
  let o ← b.read i
  let o' ← b.read (i + 1)
  let (o, o') ← orUndefined (E.assign o o')
  let b ← b.write i o
  b.write (i + 1) o'

/-- `new(&tmpArray[i]) T(move(m_array[i])); m_array[i].~T()` on the new and the old block. -/
def moveAt (i : Nat) (blocks : Block Object × Block Object) :
    Except Fault (Block Object × Block Object) := do
  let (tmpArray, b) := blocks
  let o ← b.read i
  let (o', o) := E.move o
  let tmpArray ← tmpArray.write i o'
  let b ← b.write i o
  let b ← destroyAt E i b
  return (tmpArray, b)

/-- `ArrayList()` -/
def create (h : ObjectHeap Object) : ArrayList × ObjectHeap Object :=
  let (array, h) := h.kmalloc DEFAULT_SIZE
  ({ array, size := DEFAULT_SIZE, ptr := 0 }, h)

/-- A block with copies of the elements of the other list; the bytes behind them are zero. The count
that `memset` is given there is an `int`, which is left out: it holds every size of a list that the
heap can hold. -/
def copyElements (other : ArrayList) (h : ObjectHeap Object) :
    Except Fault (ArrayList × ObjectHeap Object) := do
  let (array, h) := h.kmalloc other.size
  let otherBlock ← h.block other.array
  let b ← h.block array
  let b ← Loop.forRange (copyAt E otherBlock) other.ptr 0 b
  return ({ array, size := other.size, ptr := other.ptr }, h.setBlock array b)

/-- `ArrayList(const ArrayList&)` -/
def copyConstruct (other : ArrayList) (h : ObjectHeap Object) :
    Except Fault (ArrayList × ObjectHeap Object) :=
  copyElements E other h

/-- Destroying the elements and freeing their block. -/
def release (l : ArrayList) (h : ObjectHeap Object) : Except Fault (ObjectHeap Object) := do
  let b ← h.block l.array
  let b ← Loop.forRange (destroyAt E) l.ptr 0 b
  (h.setBlock l.array b).kfree l.array

/-- `ArrayList::reset` -/
def reset (l : ArrayList) (h : ObjectHeap Object) : Except Fault (ArrayList × ObjectHeap Object) := do
  let h ← release E l h
  return create h

/-- `ArrayList::grow` -/
def grow (l : ArrayList) (h : ObjectHeap Object) : Except Fault (ArrayList × ObjectHeap Object) := do
  let newSize := l.size * 2
  let (tmp, h) := h.kmalloc newSize
  let tmpArray ← h.block tmp
  let b ← h.block l.array
  let (tmpArray, b) ← Loop.forRange (moveAt E) l.ptr 0 (tmpArray, b)
  let h ← ((h.setBlock tmp tmpArray).setBlock l.array b).kfree l.array
  return ({ l with array := tmp, size := newSize }, h)

/-- The two `ArrayList::add`, which construct the new element by `construct`. -/
def addBy (construct : Object → Object) (l : ArrayList) (value : Reference Object)
    (h : ObjectHeap Object) : Except Fault (Nat × ArrayList × ObjectHeap Object) := do
  let (l, h) ← if l.ptr ≥ l.size then grow E l h else .ok (l, h)
  let o ← value.read h
  let b ← h.block l.array
  let b ← b.write l.ptr (construct o)
  return (l.ptr, { l with ptr := l.ptr + 1 }, h.setBlock l.array b)

/-- `ArrayList::add(const T&)` -/
def add (l : ArrayList) (value : Reference Object) (h : ObjectHeap Object) :
    Except Fault (Nat × ArrayList × ObjectHeap Object) :=
  addBy E E.copy l value h

/-- `ArrayList::add(T&&)`, of an object outside the lists. -/
def addMoved (l : ArrayList) (value : Object) (h : ObjectHeap Object) :
    Except Fault (Nat × ArrayList × ObjectHeap Object) :=
  addBy E (fun o => (E.move o).1) l (.object value) h

/-- `ArrayList::get`, and the read of what it refers to. -/
def get (l : ArrayList) (index : Nat) (h : ObjectHeap Object) : Except Fault Object := do
  if index < l.size then
    let b ← h.block l.array
    b.read index
  else .error (.assertion "Array: Index out of bounds!")

/-- `ArrayList::operator[]` -/
def index (l : ArrayList) (i : Nat) (h : ObjectHeap Object) : Except Fault Object := l.get i h

/-- `ArrayList::remove` -/
def remove (l : ArrayList) (index : Nat) (h : ObjectHeap Object) :
    Except Fault (ArrayList × ObjectHeap Object) := do
  if index < l.size then
    let b ← h.block l.array
    let b ← destroyAt E index b
    let last := predecessor l.ptr
    let b ← Loop.forRange (shiftAt E) (last - index) index b
    let b ← destroyAt E last b
    return ({ l with ptr := last }, h.setBlock l.array b)
  else .error (.assertion "Array: Index out of bounds!")

/-- `operator=(const ArrayList&)` where the lists are different ones. -/
def copyAssign (l other : ArrayList) (h : ObjectHeap Object) :
    Except Fault (ArrayList × ObjectHeap Object) := do
  let h ← release E l h
  copyElements E other h

/-- `ArrayList::size`, which is not `m_size`. -/
def length (l : ArrayList) : Nat := l.ptr

/-- `ArrayList::is_empty` -/
def isEmpty (l : ArrayList) : Bool := l.ptr = 0

/-- The values from `begin()` to `end()`. -/
def elements (l : ArrayList) (h : ObjectHeap Object) : Option (List Value) := do
  let b ← h.blocks l.array
  (List.range l.ptr).mapM fun i => (b.slots i).bind E.value

end ArrayList

/-! ## Programs with lists -/

/-- The lists of a program, by variable, and the heap their blocks are in. -/
structure ListWorld (Object : Type) where
  lists : Nat → Option ArrayList
  heap : ObjectHeap Object

/-- A call of a program. `addElement` adds the element of a list, to the same list or another. -/
inductive ListCall (Object : Type) where
  | create (x : Nat)
  | add (x : Nat) (value : Object)
  | addMoved (x : Nat) (value : Object)
  | addElement (x y index : Nat)
  | get (x index : Nat)
  | remove (x index : Nat)
  | reset (x : Nat)
  | copyConstruct (x y : Nat)
  | copyAssign (x y : Nat)
deriving DecidableEq

inductive ListAnswer (Value : Type) where
  | done
  | index (n : Nat)
  | element (value : Option Value)
deriving DecidableEq

namespace ListWorld

variable {Object Value : Type} (E : ElementType Object Value)

def empty : ListWorld Object where
  lists := fun _ => none
  heap := { blocks := fun _ => none, next := 1 }

def list (w : ListWorld Object) (x : Nat) : Except Fault ArrayList := orUndefined (w.lists x)

def set (w : ListWorld Object) (x : Nat) (l : ArrayList) (h : ObjectHeap Object) :
    ListWorld Object where
  lists := Function.update w.lists x (some l)
  heap := h

def call (w : ListWorld Object) :
    ListCall Object → Except Fault (ListAnswer Value × ListWorld Object)
  | .create x =>
    let (l, h) := ArrayList.create w.heap
    .ok (.done, w.set x l h)
  | .add x value => do
    let l ← w.list x
    let (n, l, h) ← l.add E (.object value) w.heap
    return (.index n, w.set x l h)
  | .addMoved x value => do
    let l ← w.list x
    let (n, l, h) ← l.addMoved E value w.heap
    return (.index n, w.set x l h)
  | .addElement x y index => do
    let l ← w.list x
    let other ← w.list y
    let (n, l, h) ← l.add E (.slot other.array index) w.heap
    return (.index n, w.set x l h)
  | .get x index => do
    let l ← w.list x
    let o ← l.get index w.heap
    return (.element (E.value o), w)
  | .remove x index => do
    let l ← w.list x
    let (l, h) ← l.remove E index w.heap
    return (.done, w.set x l h)
  | .reset x => do
    let l ← w.list x
    let (l, h) ← l.reset E w.heap
    return (.done, w.set x l h)
  | .copyConstruct x y => do
    let other ← w.list y
    let (l, h) ← other.copyConstruct E w.heap
    return (.done, w.set x l h)
  | .copyAssign x y => do
    let l ← w.list x
    let other ← w.list y
    if x = y then return (.done, w)
    else
      let (l, h) ← l.copyAssign E other w.heap
      return (.done, w.set x l h)

end ListWorld

end MatteOS.Utils
