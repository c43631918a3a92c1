import MatteOS.Memory.AddressSpaces
import MatteOS.Memory.KernelMemoryAllocator

/-!
# The kernel's first page table

`map` and the ranges with the page allocator under them, and `init_memory`, which maps the system
defaults in a page of `alloc(1)`.
-/

namespace MatteOS.Memory

open ByteMemory

namespace MemoryManager

variable (self : Nat)

/-- The pages come from the allocator itself. -/
def pageSupply : PageSupply Id ByteMemory.Memory where
  memory m := m
  withMemory _ m := m
  zalloc m := zalloc m self 1

def mapStep (vaddr : VirtualAddress) (vm : Nat × ByteMemory.Memory) (i : Nat) :
    Nat × ByteMemory.Memory :=
  ((pageSupply self).mapStep vaddr vm i).run

def map (root : Nat) (vaddr : VirtualAddress) (paddr : PhysicalAddress) (bits : BitVec 64)
    (level : Nat) (m : ByteMemory.Memory) : ByteMemory.Memory :=
  ((pageSupply self).map root vaddr paddr bits level m).run

def mapRangeLoop (root : Nat) (bits : BitVec 64) (n : Nat)
    (virtualMemoryAddress physicalMemoryAddress : BitVec 64) (m : ByteMemory.Memory) :
    ByteMemory.Memory :=
  ((pageSupply self).mapRangeLoop root bits n virtualMemoryAddress physicalMemoryAddress m).run

def mapRange (root : Nat) (virtualStart virtualEnd physicalStart bits : BitVec 64)
    (m : ByteMemory.Memory) : ByteMemory.Memory :=
  ((pageSupply self).mapRange root virtualStart virtualEnd physicalStart bits m).run

def run (root : Nat) (m : ByteMemory.Memory) (c : Call) : ByteMemory.Memory :=
  ((pageSupply self).run root m c).run

/-- `MemoryManager::map_system_defaults` -/
def mapSystemDefaults (symbols : LinkerSymbols) (root : Nat) (m : ByteMemory.Memory) :
    ByteMemory.Memory :=
  (systemDefaults symbols).foldl (run self root) m

end MemoryManager

/-- `KernelMemoryAllocator::init`, which constructs the allocator in `page`. -/
def KernelMemoryAllocator.init (m : Memory) (manager page : Nat) : Memory :=
  let (k, m) := construct m manager
  let m := store64 m page (.ofNat 64 k.head)
  let m := store64 m (page + 8) (.ofNat 64 k.totalSize)
  store64 m (page + 16) 0

/-- `init_memory`. The result is the root page table. -/
def initMemory (symbols : LinkerSymbols) (m : Memory) : Nat × Memory :=
  let managed := MemoryManager.init symbols.heapStart symbols.heapSize m
  let manager := managed.1
  let allocated := MemoryManager.alloc managed.2 manager 1
  let pageTable := allocated.1
  let m := MemoryManager.mapSystemDefaults manager symbols pageTable allocated.2
  let zallocated := MemoryManager.zalloc m manager 1
  (pageTable, KernelMemoryAllocator.init zallocated.2 manager zallocated.1)

end MatteOS.Memory
