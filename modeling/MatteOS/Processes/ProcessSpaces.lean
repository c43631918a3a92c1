import MatteOS.Memory.HeapMapping
import MatteOS.Processes.AddressSpace

/-!
# Processes on one page heap

`ProcessManager::create_dummy_process` takes the pages of each process from the page allocator. What
happens on the memory of the processes is a run of events: the kernel creates processes, asks the
allocator for other blocks and writes to them or to its own variables, and user code stores a byte
at an address of its process.

`s_memory_manager`, the pointer through which every call reaches the allocator, is a variable of the
image, which user code may write. The runs here are those in which nobody overwrites it.
-/

namespace MatteOS.Processes

open ByteMemory Memory EntryBits Traps

/-- The pages of a process: those `create_dummy_process` has names for, and all blocks it took. -/
structure ProcessSpace where
  root : Nat
  trapFrame : Nat
  stackBottom : Nat
  blocks : List (Nat × Nat)
deriving DecidableEq

/-- The page heap and the processes on it, by pid. -/
structure ProcessSpaces where
  heap : PageHeap
  spaces : List ProcessSpace

inductive SpaceEvent where
  /-- the kernel calls the allocator for itself, or writes to a block -/
  | page (a : PageAction)
  /-- the kernel writes to a variable -/
  | setVariable (address : Nat) (value : BitVec 8)
  | create (programCounter : BitVec 64)
  /-- user code of a process stores a byte -/
  | store (process : Nat) (address : BitVec 64) (value : BitVec 8)

namespace ProcessSpaces

/-- What `ProcessManager::create_dummy_process` does with pages, with the allocator at `self`. Its
objects, which are no pages, come with `createWithObjects`. -/
def createDummyProcess (self : Nat) (symbols : LinkerSymbols) (programCounter : BitVec 64)
    (s : PageHeap) : Option (ProcessSpace × PageHeap) := do
  let old := s.live.length
  let (root, s) ← s.zalloc self 1
  let s ← s.runCalls self root (imageCalls symbols)
  let satp := buildSatp SATP_SV39 1 (.ofNat 64 root)
  let (trapFrame, s) ← s.zalloc self 1
  let s := { s with memory := initializeThread s.memory trapFrame programCounter satp }
  let s ← s.runCall self root (frameCall trapFrame)
  let (stackBottom, s) ← s.zalloc self STACK_PAGES
  let s ← s.runCall self root (stackCall stackBottom)
  let blocks := s.live.take (s.live.length - old)
  some ({ root, trapFrame, stackBottom, blocks }, s)

section

variable (symbols : LinkerSymbols) (managerPointer : Nat)

/-- `MemoryManager::the` -/
def the (s : ProcessSpaces) : Nat := (load64 s.heap.memory managerPointer).toNat

def withMemory (s : ProcessSpaces) (m : Memory) : ProcessSpaces :=
  { s with heap := { s.heap with memory := m } }

def run (fuel : Nat) (s : ProcessSpaces) : SpaceEvent → Option ProcessSpaces
  | .page a => (a.run (s.the managerPointer) fuel s.heap).map fun heap => { s with heap }
  | .setVariable address value => some (s.withMemory (store8 s.heap.memory address value))
  | .create programCounter =>
    (createDummyProcess (s.the managerPointer) symbols programCounter s.heap).map fun made =>
      { heap := made.2, spaces := s.spaces ++ [made.1] }
  | .store process address value => do
    let p ← s.spaces[process]?
    let x ← (translate s.heap.memory p.root (.ofU64 address)).toOption
    some (s.withMemory (store8 s.heap.memory x.getValue.toNat value))

/-- The memory of `MemoryManager::init`, before there is a process. -/
def boot (m : Memory) : ProcessSpaces :=
  let (self, m) := MemoryManager.init symbols.heapStart symbols.heapSize m
  { heap := { memory := store64 m managerPointer (.ofNat 64 self), live := [] }, spaces := [] }

end

end ProcessSpaces

end MatteOS.Processes
