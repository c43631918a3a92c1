import MatteOS.Traps.Interrupts

/-!
# From trap to trap

The hart as the kernel sees it: a thread runs in user mode until it traps, its context is
saved in its trap frame, `handle_interrupt` runs, and the context in the frame it returns
is resumed.
-/

namespace MatteOS.Traps

open ByteMemory Processes

/-- What a trap saves of a thread. -/
structure Context where
  x : Nat → BitVec 64
  f : Nat → BitVec 64
  sepc : BitVec 64
  sstatus : BitVec 64

/-- The context and the cause of a trap in the frame at `tf`. -/
def saveRegisters (tf : Nat) (c : Context) (scause stval : BitVec 64) (m : Memory) : Memory :=
  let m := storeAll (TrapFrame.regs tf) c.x (List.range 32) m
  let m := storeAll (TrapFrame.fregs tf) c.f (List.range 32) m
  let m := store64 m (TrapFrame.sepc tf) c.sepc
  let m := store64 m (TrapFrame.sstatus tf) c.sstatus
  let m := store64 m (TrapFrame.scause tf) scause
  store64 m (TrapFrame.stval tf) stval

/-- What the trap vector writes to the frame at `tf`; `satp` is the address space that trapped. -/
def saveContext (tf : Nat) (c : Context) (scause stval satp : BitVec 64) (m : Memory) : Memory :=
  store64 (saveRegisters tf c scause stval m) (TrapFrame.kernelSatp tf) satp

/-- The context in the frame at `tf`. -/
def loadContext (m : Memory) (tf : Nat) : Context where
  x i := load64 m (TrapFrame.regs tf i)
  f i := load64 m (TrapFrame.fregs tf i)
  sepc := load64 m (TrapFrame.sepc tf)
  sstatus := load64 m (TrapFrame.sstatus tf)

/-- A hart: the kernel's memory and objects, the frame of the thread that runs in user mode, if
any does yet, and the address space in use. -/
structure Hart where
  kernel : Kernel
  current : Option Nat
  satp : BitVec 64

/-- Return to the thread of the frame at `tf`, which keeps `kernelSatp`. -/
def resume (k : Kernel) (tf : Nat) (kernelSatp : BitVec 64) : Hart where
  kernel := { k with memory := store64 k.memory (TrapFrame.kernelSatp tf) kernelSatp }
  current := some tf
  satp := load64 k.memory (TrapFrame.kernelSatp tf)

/-- A trap from user mode: what the thread has left in its registers and in memory, and the
cause. -/
structure UserTrap where
  context : Context
  memory : Memory
  scause : BitVec 64
  stval : BitVec 64
  surroundings : Surroundings

inductive Event where
  /-- `Scheduler::start_scheduling` -/
  | start
  | trap (t : UserTrap)

/-- The kernel that handles the trap `t` of the thread of the frame at `tf`. -/
def UserTrap.saved (t : UserTrap) (h : Hart) (tf : Nat) : Kernel :=
  { h.kernel with memory := saveContext tf t.context t.scause t.stval h.satp t.memory }

/-- The event can occur: scheduling starts once, and user code writes no byte of `kernelMemory`.
A trap from user mode clears `SPP`. -/
def Event.Occurs (kernelMemory : Nat → Prop) (h : Hart) : Event → Prop
  | .start => h.current = none
  | .trap t =>
    h.current ≠ none ∧ t.context.sstatus.getLsbD 8 = false ∧ t.context.x 0 = 0 ∧
      ∀ a, kernelMemory a → t.memory a = h.kernel.memory a

/-- One event on the hart whose kernel trap frame is `kernelTf`. -/
inductive Step (kernelTf : Nat) (kernelMemory : Nat → Prop) : Hart → Event → Hart → Prop where
  | start {h : Hart} {fuel tf : Nat} {k : Kernel} (occurs : Event.start.Occurs kernelMemory h)
      (scheduled : scheduleFrame fuel kernelTf h.kernel = some (tf, k)) :
      Step kernelTf kernelMemory h .start (resume k tf h.satp)
  | trap {h : Hart} {t : UserTrap} {fuel tf next : Nat} {k : Kernel}
      (occurs : (Event.trap t).Occurs kernelMemory h) (user : h.current = some tf)
      (handled : handleInterrupt fuel kernelTf tf (t.saved h tf) t.surroundings = some (next, k)) :
      Step kernelTf kernelMemory h (.trap t)
        (resume k next (load64 t.memory (TrapFrame.kernelSatp tf)))

end MatteOS.Traps
