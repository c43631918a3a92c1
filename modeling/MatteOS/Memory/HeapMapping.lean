import MatteOS.Memory.Mapping
import MatteOS.Memory.PageAllocator

/-!
# Mapping with pages of the heap

`MemoryManager::map` and the functions over it, where `zalloc` is that of the manager itself: each
new table becomes a live block. No caller of `zalloc` asks whether it got its pages, so a run that
would go on without them ends (`none`).
-/

namespace MatteOS.Memory

open ByteMemory

instance (s : PageHeap) (self pages : Nat) : Decidable (HasRoom s self pages) :=
  decidable_of_iff
    (∃ i < (MemoryManager.load s.memory self).numberOfPages + 1,
      i + pages ≤ (MemoryManager.load s.memory self).numberOfPages ∧
        ∀ j < pages, Page.isFree s.memory
          ((MemoryManager.load s.memory self).firstPage + (i + j)))
    (by
      constructor
      · intro room
        obtain ⟨i, -, fits, free⟩ := room
        refine ⟨i, fits, fun j low high => ?_⟩
        rw [← Nat.add_sub_of_le low]
        exact free (j - i) (by omega)
      · intro room
        obtain ⟨i, fits, free⟩ := room
        exact ⟨i, by omega, fits, fun j small => free (i + j) (by omega) (by omega)⟩)

namespace PageHeap

/-- `MemoryManager::zalloc`, where there are consecutive free pages. -/
def zalloc (self : Nat) (s : PageHeap) (pages : Nat) : Option (Nat × PageHeap) :=
  if HasRoom s self pages then
    let allocated := MemoryManager.zalloc s.memory self pages
    some (allocated.1, s.returned pages allocated)
  else none

/-- The pages become live blocks. -/
def pageSupply (self : Nat) : PageSupply Option PageHeap where
  memory := PageHeap.memory
  withMemory s m := { s with memory := m }
  zalloc s := s.zalloc self 1

def mapStep (self : Nat) (vaddr : VirtualAddress) (vs : Nat × PageHeap) (i : Nat) :
    Option (Nat × PageHeap) :=
  (pageSupply self).mapStep vaddr vs i

def map (self root : Nat) (vaddr : VirtualAddress) (paddr : PhysicalAddress) (bits : BitVec 64)
    (level : Nat) (s : PageHeap) : Option PageHeap :=
  (pageSupply self).map root vaddr paddr bits level s

def mapRangeLoop (self root : Nat) (bits : BitVec 64) (n : Nat)
    (virtualMemoryAddress physicalMemoryAddress : BitVec 64) (s : PageHeap) : Option PageHeap :=
  (pageSupply self).mapRangeLoop root bits n virtualMemoryAddress physicalMemoryAddress s

def mapRange (self root : Nat) (virtualStart virtualEnd physicalStart bits : BitVec 64)
    (s : PageHeap) : Option PageHeap :=
  (pageSupply self).mapRange root virtualStart virtualEnd physicalStart bits s

def identityMapRange (self root : Nat) (start stop bits : BitVec 64) (s : PageHeap) :
    Option PageHeap :=
  (pageSupply self).identityMapRange root start stop bits s

def runCall (self root : Nat) (s : PageHeap) (c : Call) : Option PageHeap :=
  (pageSupply self).run root s c

def runCalls (self root : Nat) (calls : List Call) (s : PageHeap) : Option PageHeap :=
  calls.foldlM (runCall self root) s

end PageHeap

end MatteOS.Memory
