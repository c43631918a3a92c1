import MatteOS.Memory.PageAllocator

/-!
# The kernel heap

`KernelMemoryAllocator`: the constructor, `kmalloc`, `kzmalloc`, `kfree`, `coalesce` and
`get_statistics`. A chunk begins with an `AllocHeader`, one word with the size of the
whole chunk in its 63 low bits and the taken flag above. Addresses and `u64` sums wrap.
-/

namespace MatteOS.Memory

open ByteMemory

structure AllocHeader where
  size : BitVec 63
  taken : BitVec 1
deriving DecidableEq

namespace AllocHeader

def toU64 (h : AllocHeader) : BitVec 64 := h.taken ++ h.size

def ofU64 (value : BitVec 64) : AllocHeader where
  size := value.extractLsb' 0 63
  taken := value.extractLsb' 63 1

def isTaken (h : AllocHeader) : Bool := h.taken == 1

def isFree (h : AllocHeader) : Bool := !h.isTaken

def getSize (h : AllocHeader) : Nat := h.size.toNat

/-- The header at `ptr`. -/
def load (m : Memory) (ptr : Nat) : AllocHeader := ofU64 (load64 m ptr)

def store (m : Memory) (ptr : Nat) (h : AllocHeader) : Memory := store64 m ptr h.toU64

def setTaken (m : Memory) (ptr : Nat) : Memory := store m ptr { load m ptr with taken := 1 }

def setFree (m : Memory) (ptr : Nat) : Memory := store m ptr { load m ptr with taken := 0 }

def setSize (m : Memory) (ptr size : Nat) : Memory :=
  store m ptr { load m ptr with size := .ofNat 63 size }

end AllocHeader

structure KernelMemoryAllocator where
  head : Nat
  totalSize : Nat
deriving DecidableEq

namespace KernelMemoryAllocator

def ALLOCATION_SIZE : Nat := 64

/-- `sizeof(AllocHeader)` -/
def HEADER_SIZE : Nat := 8

/-- The constructor; `manager` is the address of the memory manager. -/
def construct (m : Memory) (manager : Nat) : KernelMemoryAllocator × Memory :=
  let (head, m) := MemoryManager.zalloc m manager ALLOCATION_SIZE
  let totalSize := ALLOCATION_SIZE * PAGE_SIZE
  ({ head, totalSize }, AllocHeader.setSize (AllocHeader.setFree m head) head totalSize)

/-- One round of the loop of `kmalloc`; the result is the pointer and the new memory. -/
def kmallocBody (m : Memory) (tail size : Nat) (ptr : Nat) : Loop.Next Nat (Nat × Memory) :=
  if ptr < tail then
    let h := AllocHeader.load m ptr
    if h.isFree && decide (size ≤ h.getSize) then
      let chunkSize := h.getSize
      let remaining := chunkSize - size
      let m := AllocHeader.setTaken m ptr
      let m :=
        if HEADER_SIZE < remaining then
          let next := (ptr + size) % 2 ^ 64
          let m := AllocHeader.setFree m next
          let m := AllocHeader.setSize m next remaining
          AllocHeader.setSize m ptr size
        else AllocHeader.setSize m ptr chunkSize
      .done ((ptr + 8) % 2 ^ 64, m)
    else .again ((ptr + h.getSize) % 2 ^ 64)
  else .done (0, m)

/-- `KernelMemoryAllocator::kmalloc`. -/
def kmalloc (fuel : Nat) (k : KernelMemoryAllocator) (m : Memory) (sz : BitVec 64) :
    Option (Nat × Memory) :=
  if sz = 0 then some (0, m)
  else
    let size := alignValue sz 3 + .ofNat 64 HEADER_SIZE
    -- the cast binds before the sum, so `m_total_size` counts headers
    let tail := (k.head + HEADER_SIZE * k.totalSize) % 2 ^ 64
    Loop.run (kmallocBody m tail size.toNat) fuel k.head

/-- The bytes that the loop of `kzmalloc` clears, one in each round: `*(((u8*) mem) + 1) = 0`. -/
def clearedBytes (mem size : Nat) : List Nat :=
  (List.range size).map fun _ => (mem + 1) % 2 ^ 64

/-- `KernelMemoryAllocator::kzmalloc`. -/
def kzmalloc (fuel : Nat) (k : KernelMemoryAllocator) (m : Memory) (sz : BitVec 64) :
    Option (Nat × Memory) :=
  let size := alignValue sz 3
  (k.kmalloc fuel m size).map fun (mem, m) =>
    (mem, (clearedBytes mem size.toNat).foldl (fun m a => store8 m a 0) m)

def coalesceBody (tail : Nat) : Nat × Memory → Loop.Next (Nat × Memory) Memory
  | (ptr, m) =>
    if ptr < tail then
      let h := AllocHeader.load m ptr
      let next := (ptr + h.getSize) % 2 ^ 64
      if tail ≤ next ∨ h.getSize = 0 then .done m
      else
        let m :=
          if h.isFree && (AllocHeader.load m next).isFree then
            AllocHeader.setSize m ptr ((h.getSize + (AllocHeader.load m next).getSize) % 2 ^ 64)
          else m
        .again ((ptr + (AllocHeader.load m ptr).getSize) % 2 ^ 64, m)
    else .done m

/-- `KernelMemoryAllocator::coalesce`. -/
def coalesce (fuel : Nat) (k : KernelMemoryAllocator) (m : Memory) : Option Memory :=
  Loop.run (coalesceBody ((k.head + k.totalSize) % 2 ^ 64)) fuel (k.head, m)

/-- `KernelMemoryAllocator::kfree`. -/
def kfree (fuel : Nat) (k : KernelMemoryAllocator) (m : Memory) (ptr : Nat) : Option Memory :=
  if ptr = 0 then some m
  else coalesce fuel k (AllocHeader.setFree m ((ptr + (2 ^ 64 - 8)) % 2 ^ 64))

structure Statistics where
  totalSize : Nat
  freeSize : Nat
  usedSize : Nat
deriving DecidableEq

def statisticsBody (m : Memory) (tail : Nat) :
    Nat × Nat × Nat → Loop.Next (Nat × Nat × Nat) (Nat × Nat)
  | (ptr, free, taken) =>
    if ptr < tail then
      let h := AllocHeader.load m ptr
      let next := (ptr + h.getSize) % 2 ^ 64
      if h.isTaken then .again (next, free, (taken + h.getSize) % 2 ^ 64)
      else .again (next, (free + h.getSize) % 2 ^ 64, taken)
    else .done (free, taken)

/-- `KernelMemoryAllocator::get_statistics`. -/
def getStatistics (fuel : Nat) (k : KernelMemoryAllocator) (m : Memory) : Option Statistics :=
  (Loop.run (statisticsBody m ((k.head + k.totalSize) % 2 ^ 64)) fuel (k.head, 0, 0)).map
    fun (free, taken) => { totalSize := k.totalSize, freeSize := free, usedSize := taken }

/-- One round of the loop of `is_in_freed_memory`. -/
def freedBody (m : Memory) (tail potentialPtr : Nat) (ptr : Nat) : Loop.Next Nat Bool :=
  if ptr < tail then
    let h := AllocHeader.load m ptr
    let next := (ptr + h.getSize) % 2 ^ 64
    if ptr ≤ potentialPtr ∧ potentialPtr < next ∧ h.isFree then .done true else .again next
  else .done false

/-- `KernelMemoryAllocator::is_in_freed_memory`. -/
def isInFreedMemory (fuel : Nat) (k : KernelMemoryAllocator) (m : Memory) (potentialPtr : Nat) :
    Option Bool :=
  Loop.run (freedBody m ((k.head + k.totalSize) % 2 ^ 64) potentialPtr) fuel k.head

end KernelMemoryAllocator

/-! ## Runs -/

/-- The machine under the callers of the kernel heap: the memory, and the live pointers with the
sizes they were asked for. -/
structure KernelHeap where
  memory : Memory
  live : List (Nat × BitVec 64)

inductive HeapAction where
  | kmalloc (sz : BitVec 64)
  | kfree (ptr : Nat)
  | write (address : Nat) (value : BitVec 8)

def HeapAction.run (k : KernelMemoryAllocator) (fuel : Nat) (s : KernelHeap) :
    HeapAction → Option KernelHeap
  | .kmalloc sz => (k.kmalloc fuel s.memory sz).map fun (ptr, m) =>
      { memory := m, live := if ptr = 0 then s.live else (ptr, sz) :: s.live }
  | .kfree ptr => (k.kfree fuel s.memory ptr).map fun m =>
      { memory := m, live := s.live.eraseP (·.1 == ptr) }
  | .write address value => some { s with memory := store8 s.memory address value }

end MatteOS.Memory
