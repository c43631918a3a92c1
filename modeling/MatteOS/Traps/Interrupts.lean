import MatteOS.Processes.Syscalls

/-!
# Interrupts

`handle_interrupt` and the handlers it calls: each gives the trap frame to return to.
`none` stands for a handler that never returns.
-/

namespace MatteOS.Traps

open ByteMemory Processes

/-- The interrupt that the PLIC claims: none, one of the console with the character it received, or
that of another device. -/
inductive ExternalInterrupt where
  | none
  | console (received : Option (BitVec 8))
  | other

/-- What is outside the kernel during one trap. -/
structure Surroundings where
  answer : Answer
  external : ExternalInterrupt

/-- `is_kernel_trap` -/
def isKernelTrap (tf : Nat) (m : Memory) : Bool := (load64 m (TrapFrame.sstatus tf)).getLsbD 8

/-- The values of `Interrupts`. -/
inductive Interrupts where
  | softwareInterrupt
  | timerInterrupt
  | externalInterrupt
  | counterOverflowInterrupt
  | systemCall
  | instructionPageFault
  | loadPageFault
  | storePageFault
  | illegalInstruction
deriving DecidableEq

def Interrupts.ofScause (scause : BitVec 64) : Option Interrupts :=
  if scause = 0x8000000000000001 then some .softwareInterrupt
  else if scause = 0x8000000000000005 then some .timerInterrupt
  else if scause = 0x8000000000000009 then some .externalInterrupt
  else if scause = 0x800000000000000d then some .counterOverflowInterrupt
  else if scause = 8 then some .systemCall
  else if scause = 12 then some .instructionPageFault
  else if scause = 13 then some .loadPageFault
  else if scause = 15 then some .storePageFault
  else if scause = 2 then some .illegalInstruction
  else none

variable (fuel kernelTf tf : Nat) (k : Kernel)

/-- `Scheduler::the().schedule()->get_trap_frame()` -/
def scheduleFrame : Option (Nat × Kernel) := do
  let (thread, k) ← Scheduler.schedule fuel kernelTf k
  let thread ← thread
  return ((k.processManager.threads thread).trapFrame, k)

/-- `handle_timer_interrupt` -/
def handleTimerInterrupt : Option (Nat × Kernel) := scheduleFrame fuel kernelTf k

/-- `ConsoleDevice::handle_interrupt`, with the threads it unblocks. -/
def handleConsoleInterrupt (received : Option (BitVec 8)) : Kernel :=
  let (requests, console) := k.console.handleInterrupt received
  { k with
    console
    processManager := requests.foldl (fun pm request => pm.unblock request.pid request.tid)
      k.processManager }

/-- `handle_external_interrupt` -/
def handleExternalInterrupt (external : ExternalInterrupt) : Nat × Kernel :=
  match external with
  | .console received => (tf, handleConsoleInterrupt k received)
  | .none | .other => (tf, k)

/-- `handle_system_call` -/
def handleSystemCall (answer : Answer) : Option (Nat × Kernel) := do
  let process := k.getCurrentProcess kernelTf
  let currentThread ← k.getCurrentThread kernelTf
  let syscallId :=
    load64 k.memory (TrapFrame.regs (k.processManager.threads currentThread).trapFrame 17)
  let (errorOrOk, k) ← handleSyscall kernelTf process syscallId answer k
  match errorOrOk with
  | .error .blocked => scheduleFrame fuel kernelTf k
  | _ =>
    let sepc := load64 k.memory (TrapFrame.sepc tf)
    return (tf, { k with memory := store64 k.memory (TrapFrame.sepc tf) (sepc + 4) })

/-- `handle_interrupt` -/
def handleInterrupt (s : Surroundings) : Option (Nat × Kernel) :=
  let cause := Interrupts.ofScause (load64 k.memory (TrapFrame.scause tf))
  if isKernelTrap tf k.memory then
    match cause with
    -- `kernel_panic` stops the hart
    | some .instructionPageFault | some .loadPageFault | some .storePageFault
    | some .illegalInstruction => none
    | some .externalInterrupt => some (handleExternalInterrupt tf k s.external)
    | _ => some (tf, k)
  else
    match cause with
    | some .timerInterrupt => handleTimerInterrupt fuel kernelTf k
    | some .externalInterrupt => some (handleExternalInterrupt tf k s.external)
    | some .systemCall => handleSystemCall fuel kernelTf tf k s.answer
    -- `handle_software_interrupt` and `unknown_interrupt`
    | _ => some (tf, k)

end MatteOS.Traps
