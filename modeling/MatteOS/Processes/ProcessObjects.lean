import MatteOS.Memory.KernelMemoryAllocator
import MatteOS.Processes.ProcessSpaces

/-!
# The objects of a process

`ProcessManager::create_dummy_process` asks two allocators: the pages of a process come from the page
allocator, and its objects from the kernel heap, whose arena is a block of pages that never grows.
-/

namespace MatteOS

open ByteMemory Memory

/-- `new` and `kmalloc` for objects of these sizes, one after another. No caller asks whether it got
its pointer, so a run that would go on without one ends (`none`). -/
def Memory.KernelMemoryAllocator.newObjects (fuel : Nat) (k : KernelMemoryAllocator)
    (m : ByteMemory.Memory) (sizes : List (BitVec 64)) : Option ByteMemory.Memory :=
  sizes.foldlM (fun m size => (k.kmalloc fuel m size).bind fun r => if r.1 = 0 then none else some r.2) m

/-- `ProcessManager::create_dummy_process` with the objects that it asks for: the `Thread`, the
`Process` with the table of its descriptors and the list of its threads, and the entries of
`m_process_list` and `m_run_queue`. Their sizes are the compiler's. The heap stays in its arena, so
that it makes no difference that they come after the pages here. What is stored in the objects is
left out, and so is the array that `m_process_list` gives back when it grows. -/
def Processes.ProcessSpaces.createWithObjects (symbols : LinkerSymbols) (managerPointer : Nat)
    (k : KernelMemoryAllocator) (fuel : Nat) (s : ProcessSpaces)
    (creation : BitVec 64 × List (BitVec 64)) : Option ProcessSpaces := do
  let s ← s.run symbols managerPointer fuel (.create creation.1)
  let m ← k.newObjects fuel s.heap.memory creation.2
  some (s.withMemory m)

end MatteOS
