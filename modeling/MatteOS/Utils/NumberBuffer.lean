import MatteOS.Utils.Formatter
import MatteOS.Utils.StringValue

/-!
# Numbers in buffers

`itoa` as it works on the buffer of its caller, and its callers, each with a buffer of its own size.
A fresh buffer holds any bytes, and an access outside of it is not defined.
-/

namespace MatteOS.Utils

/-- `char buffer[size]` -/
structure Buffer (size : Nat) where
  bytes : List (BitVec 8)
  length_bytes : bytes.length = size

namespace Buffer

variable {size : Nat}

/-- The buffer after a write inside of it. -/
def set (buf : Buffer size) (i : Nat) (c : BitVec 8) : Buffer size where
  bytes := buf.bytes.set i c
  length_bytes := (List.length_set).trans buf.length_bytes

@[simp] theorem bytes_set (buf : Buffer size) (i : Nat) (c : BitVec 8) :
    (buf.set i c).bytes = buf.bytes.set i c := rfl

/-- `buf[i]` -/
def load (buf : Buffer size) (i : Nat) : Except Fault (BitVec 8) := orUndefined buf.bytes[i]?

/-- `buf[i] = c` -/
def store (buf : Buffer size) (i : Nat) (c : BitVec 8) : Except Fault (Buffer size) :=
  if i < size then .ok (buf.set i c) else .error .undefined

/-- What a reader of the C string in the buffer gets. -/
def cstring (buf : Buffer size) : List (BitVec 8) := buf.bytes.takeWhile (· ≠ 0)

/-- The first loop of `itoa`, from the index `i` on, with the index behind the digits. -/
def putDigits (base : BitVec 64) (buf : Buffer size) (i : Nat) (n : BitVec 64) :
    Except Fault (Buffer size × Nat) :=
  if base = 0 then .error .undefined
  else if _ : i < size then
    let tmp := n % base
    let buf := buf.set i (digitChar tmp.toNat)
    let n := n / base
    if n ≠ 0 then putDigits base buf (i + 1) n else .ok (buf, i + 1)
  else .error .undefined
termination_by size - i

/-- The second loop of `itoa`. -/
def turnAround (buf : Buffer size) (j i : Nat) : Except Fault (Buffer size) :=
  if _ : j < i then do
    let tmp ← buf.load j
    let last ← buf.load i
    let buf ← buf.store j last
    let buf ← buf.store i tmp
    turnAround buf (j + 1) (i - 1)
  else .ok buf
termination_by i - j

/-- `itoa` -/
def itoa (buf : Buffer size) (n : BitVec 64) (base : BitVec 32) : Except Fault (Buffer size) := do
  let (buf, i) ← putDigits (base.signExtend 64) buf 0 n
  let buf ← buf.store i 0
  turnAround buf 0 (i - 1)

end Buffer

/-! ## The callers -/

/-- The characters of a string literal. -/
def literal (text : String) : List (BitVec 8) := text.toList.map fun c => BitVec.ofNat 8 c.toNat

/-- `to_string(s64)` -/
def toStringS64 (buffer : Buffer 64) (value : BitVec 64) : Except Fault (List (BitVec 8)) := do
  let buffer ← buffer.itoa value 10
  return buffer.cstring

/-- `to_string(size_t)` -/
def toStringSize (buffer : Buffer 64) (value : BitVec 64) : Except Fault (List (BitVec 8)) := do
  let buffer ← buffer.itoa value 10
  return buffer.cstring

/-- `to_string(size_t, String&)` -/
def toStringFlags (buffer : Buffer 64) (value : BitVec 64) (flags : List (BitVec 8)) :
    Except Fault (List (BitVec 8)) := do
  let buffer ← buffer.itoa value (BitVec.ofNat 32 (Formatter.base flags))
  return buffer.cstring

/-- `DebugConsole::print_number`, with what it prints. -/
def printNumber (buffer : Buffer 64) (number : BitVec 64) (base : BitVec 32) :
    Except Fault (List (BitVec 8)) := do
  let buffer ← buffer.itoa number base
  return buffer.cstring

/-- `String::from_int`, which hands over an `int` as an `unsigned long`. -/
def fromInt (buffer : Buffer 20) (value : BitVec 32) : Except Fault (List (BitVec 8)) := do
  let buffer ← buffer.itoa (value.signExtend 64) 10
  return buffer.cstring

/-- `String::from_u64` -/
def fromU64 (buffer : Buffer 22) (value : BitVec 64) : Except Fault (List (BitVec 8)) := do
  let buffer ← buffer.itoa value 10
  return buffer.cstring

end MatteOS.Utils
