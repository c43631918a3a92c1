import MatteOS.Memory.AddressSpaces
import MatteOS.Traps.Boot

/-!
# The address space of a process

The page table that `ProcessManager::create_dummy_process` makes, together with the trap frame and
the stack that it maps.
-/

namespace MatteOS.Processes

open ByteMemory Memory EntryBits Traps

def STACK_PAGES : Nat := 2

def THREAD_FRAME_ADDRESS : BitVec 64 := 0x1000

/-- The calls before the trap frame is there. -/
def imageCalls (symbols : LinkerSymbols) : List Call :=
  [.identityMapRange symbols.textStart symbols.textEnd USER_READ_EXECUTE,
    .identityMapRange symbols.textSpecialStart symbols.textSpecialEnd USER_READ_EXECUTE,
    .identityMapRange symbols.contextSwitchingStart symbols.contextSwitchingEnd READ_EXECUTE,
    .identityMapRange symbols.dataStart symbols.dataEnd USER_READ_WRITE,
    .identityMapRange symbols.bssStart symbols.bssEnd USER_READ_WRITE,
    .identityMapRange symbols.rodataStart symbols.rodataEnd USER_READ]

def frameCall (trapFrame : Nat) : Call :=
  .map THREAD_FRAME_ADDRESS (.ofNat 64 trapFrame) (READ_WRITE ||| ACCESS ||| DIRTY)

def stackCall (stackBottom : Nat) : Call :=
  .mapRange (STACK_ADDRESS - .ofNat 64 (PAGE_SIZE * STACK_PAGES)) STACK_ADDRESS
    (.ofNat 64 stackBottom) USER_READ_WRITE

/-- The memory after `ProcessManager::create_dummy_process`. The pages of the tables come from
`pages`; the other calls of `zalloc` return `root`, `trapFrame` and `stackBottom`. -/
def createDummyProcess (pages : Nat → Nat) (symbols : LinkerSymbols) (root trapFrame stackBottom : Nat)
    (programCounter : BitVec 64) (m : Memory) : Vm :=
  let s := runCalls pages root (imageCalls symbols) { memory := clear m root PAGE_SIZE, zallocs := 0 }
  let satp := buildSatp SATP_SV39 1 (.ofNat 64 root)
  let s := { s with
    memory := initializeThread (clear s.memory trapFrame PAGE_SIZE) trapFrame programCounter satp }
  let s := (frameCall trapFrame).run pages root s
  let s := { s with memory := clear s.memory stackBottom (PAGE_SIZE * STACK_PAGES) }
  (stackCall stackBottom).run pages root s

end MatteOS.Processes
