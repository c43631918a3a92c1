import MatteOS.Utils.Memory

/-!
# The log buffer

`Utils::CircularStringBuffer`. Its block has as many bytes as the constructor gets from `kmalloc`,
and a write outside the block is not defined.
-/

namespace MatteOS.Utils

structure CircularStringBuffer where
  buffer : List (BitVec 8)
  size : Nat
  head : Nat

namespace CircularStringBuffer

/-- Bytes are put into the block at `start`. -/
def store (b : CircularStringBuffer) (start : Nat) (bytes : List (BitVec 8)) :
    Except Fault CircularStringBuffer :=
  if start + bytes.length ≤ b.buffer.length then
    .ok { b with buffer := b.buffer.take start ++ bytes ++ b.buffer.drop (start + bytes.length) }
  else .error .undefined

/-- `memset(m_buffer, 0, m_size)` -/
def zero (b : CircularStringBuffer) : Except Fault CircularStringBuffer := do
  let n ← intRounds b.size
  b.store 0 (List.replicate n 0)

/-- `CircularStringBuffer(capacity)`; `raw` is the block of `capacity` bytes. -/
def create (raw : Bytes64) : Except Fault CircularStringBuffer := do
  runtimeAssert (raw.val.length > 0) "CircularStringBuffer: capacity must be > 0"
  zero { buffer := raw.val, size := raw.val.length, head := 0 }

/-- `CircularStringBuffer::clear` -/
def clear (b : CircularStringBuffer) : Except Fault CircularStringBuffer := do
  let b ← b.zero
  return { b with head := 0 }

/-- `CircularStringBuffer::flush` -/
def flush (b : CircularStringBuffer) : Except Fault CircularStringBuffer :=
  if b.head = 0 then .ok b
  else do
    let b ← b.store b.head [0]
    b.clear

/-- The flush before a write that would come to the end of the block. -/
def flushFor (b : CircularStringBuffer) (len : Nat) : Except Fault CircularStringBuffer :=
  if (b.head + len) % 2 ^ 64 ≥ b.size then b.flush else .ok b

/-- Bytes are put at the head, which moves on by `len`. -/
def put (b : CircularStringBuffer) (bytes : List (BitVec 8)) (len : Nat) :
    Except Fault CircularStringBuffer := do
  let b' ← b.store b.head bytes
  return { b' with head := (b.head + len) % 2 ^ 64 }

/-- `CircularStringBuffer::write(const char*, size_t)` -/
def write (b : CircularStringBuffer) (data : Bytes64) : Except Fault CircularStringBuffer := do
  let b ← b.flushFor data.val.length
  let n ← intRounds data.val.length
  b.put (data.val.take n) data.val.length

/-- `CircularStringBuffer::write(char)` -/
def writeChar (b : CircularStringBuffer) (c : BitVec 8) : Except Fault CircularStringBuffer := do
  let b ← b.flushFor 1
  b.put [c] 1

/-- `CircularStringBuffer::to_string`. What the constructor of the string does not copy, or what is
behind the block, is not defined. -/
def toString (b : CircularStringBuffer) : Except Fault (List (BitVec 8)) := do
  let n ← intRounds b.head
  if n = b.head ∧ b.head ≤ b.buffer.length then return b.buffer.take b.head
  else .error .undefined

end CircularStringBuffer

/-! ## Runs -/

inductive BufferCall where
  | write (data : Bytes64)
  | writeChar (c : BitVec 8)
  | flush
  | clear
deriving DecidableEq

def CircularStringBuffer.call (b : CircularStringBuffer) :
    BufferCall → Except Fault CircularStringBuffer
  | .write data => b.write data
  | .writeChar c => b.writeChar c
  | .flush => b.flush
  | .clear => b.clear

end MatteOS.Utils
