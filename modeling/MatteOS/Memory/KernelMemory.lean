import MatteOS.Memory.KernelMemoryAllocator

/-!
# The two allocators on one memory

The page allocator serves the kernel heap its arena, and after that both serve callers from one
memory: page tables, stacks and queues are blocks of pages, objects are pointers of the heap.
-/

namespace MatteOS.Memory

open ByteMemory

/-- The memory with the blocks of pages and the pointers of the heap that were returned and not
given back. The arena of the heap is one of the blocks. -/
structure KernelMemory where
  memory : Memory
  blocks : List (Nat × Nat)
  pointers : List (Nat × BitVec 64)

/-- A call with the pointer that it returns, or a write to what is at a pointer. -/
inductive KernelMemoryEvent where
  | alloc (pages ptr : Nat)
  | zalloc (pages ptr : Nat)
  | dealloc (ptr : Nat)
  | kmalloc (sz : BitVec 64) (ptr : Nat)
  | kfree (ptr : Nat)
  | write (ptr index : Nat) (value : BitVec 8)
deriving DecidableEq

namespace KernelMemory

def pages (s : KernelMemory) : PageHeap := ⟨s.memory, s.blocks⟩

def heap (s : KernelMemory) : KernelHeap := ⟨s.memory, s.pointers⟩

def ofPages (s : KernelMemory) (p : PageHeap) : KernelMemory :=
  { s with memory := p.memory, blocks := p.live }

def ofHeap (s : KernelMemory) (h : KernelHeap) : KernelMemory :=
  { s with memory := h.memory, pointers := h.live }

/-- A call where it returns the pointer of the event. -/
def run (self : Nat) (k : KernelMemoryAllocator) (fuel : Nat) (s : KernelMemory) :
    KernelMemoryEvent → Option KernelMemory
  | .alloc pages ptr =>
    if (MemoryManager.alloc s.memory self pages).1 = ptr then
      ((PageAction.alloc pages).run self fuel s.pages).map s.ofPages
    else none
  | .zalloc pages ptr =>
    if (MemoryManager.zalloc s.memory self pages).1 = ptr then
      ((PageAction.zalloc pages).run self fuel s.pages).map s.ofPages
    else none
  | .dealloc ptr => ((PageAction.dealloc ptr).run self fuel s.pages).map s.ofPages
  | .kmalloc sz ptr =>
    if (k.kmalloc fuel s.memory sz).map Prod.fst = some ptr then
      ((HeapAction.kmalloc sz).run k fuel s.heap).map s.ofHeap
    else none
  | .kfree ptr => ((HeapAction.kfree ptr).run k fuel s.heap).map s.ofHeap
  | .write ptr index value => some { s with memory := store8 s.memory (ptr + index) value }

/-- The boot, as far as the allocators go: `init` and the constructor of the heap. What `init_memory`
takes between the two, for its page table and for the heap object, is left out; later calls are
actions. The results are the address of the manager, the heap and the memory that both start from. -/
def boot (heapStart heapSize : BitVec 64) (m : Memory) :
    Nat × KernelMemoryAllocator × KernelMemory :=
  let (self, m) := MemoryManager.init heapStart heapSize m
  let (k, m) := KernelMemoryAllocator.construct m self
  (self, k, { memory := m, blocks := [(k.head, KernelMemoryAllocator.ALLOCATION_SIZE)], pointers := [] })

/-- What is in use, by address and length: the blocks, but for the arena, and the bytes the heap
was asked for. -/
def InUse (k : KernelMemoryAllocator) (s : KernelMemory) (r : Nat × Nat) : Prop :=
  (∃ pages, (r.1, pages) ∈ s.blocks ∧ r.1 ≠ k.head ∧ r.2 = PAGE_SIZE * pages) ∨
    ∃ sz, (r.1, sz) ∈ s.pointers ∧ r.2 = sz.toNat

end KernelMemory

end MatteOS.Memory
