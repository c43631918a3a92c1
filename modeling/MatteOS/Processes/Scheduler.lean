import MatteOS.Devices.ConsoleDevice
import MatteOS.Lib.Loop
import MatteOS.Processes.ProcessManager
import MatteOS.Traps.TrapFrame

/-!
# The scheduler

`Scheduler::schedule` turns the run queue until a running thread is in front. It gives
`none` where it never returns: the fuel is spent, or an assertion stops the hart.
-/

namespace MatteOS.Processes

open ByteMemory Traps

/-- The kernel's objects, and the physical memory the trap frames are in. -/
structure Kernel where
  memory : Memory
  processManager : ProcessManager
  console : Devices.ConsoleDevice

namespace Scheduler

/-- `Scheduler::prepare_for_switch`; `kernelTf` is the current kernel trap frame. -/
def prepareForSwitch (kernelTf : Nat) (targetThread : Thread) (m : Memory) : Memory :=
  let userTf := targetThread.trapFrame
  let m := store64 m (TrapFrame.kernelSp userTf) (load64 m (TrapFrame.regs kernelTf 2))
  let m := store64 m (TrapFrame.kernelTrapFramePtr userTf) (.ofNat 64 kernelTf)
  let m := store64 m (KernelTrapFrame.currentProcessId kernelTf) targetThread.pid
  store64 m (KernelTrapFrame.currentThreadId kernelTf) targetThread.tid

/-- One round of the search of `schedule`. -/
def search (pm : ProcessManager) : Loop.Next ProcessManager (Option (Nat × ProcessManager)) :=
  match pm.runQueue.rotateLeft pm.queueElements with
  | none => .done none
  | some (queueElements, runQueue) =>
    let pm := { pm with queueElements, runQueue }
    match pm.runQueue.peekFirst pm.queueElements with
    | none => .done none
    | some first => if pm.Running first then .done (some (first, pm)) else .again pm

/-- `Scheduler::schedule`. The result is a thread, or null when the lock is taken. -/
def schedule (fuel : Nat) (kernelTf : Nat) (k : Kernel) : Option (Option Nat × Kernel) :=
  match k.processManager.tryLock with
  | (false, pm) => some (none, { k with processManager := pm })
  | (true, pm) => do
    let (first, pm) ← (← Loop.run search fuel pm)
    return (some first, { k with
      memory := prepareForSwitch kernelTf (pm.threads first) k.memory
      processManager := pm.unlock })

end Scheduler

end MatteOS.Processes
