import MatteOS.Traps.Verify.Threads

/-!
# What handling a trap can lead to

The cases of `handle_interrupt` for a trap from user mode (`handleInterrupt_cases`), and
the calls of `schedule` it makes (`scheduleCall`).
-/

namespace MatteOS.Traps

open ByteMemory Processes RoundRobin

/-- The kernel in which `handle_interrupt` calls `schedule`, if it does. -/
def scheduleCall (kernelTf tf : Nat) (k : Kernel) (s : Surroundings) : Option Kernel :=
  if isKernelTrap tf k.memory then none
  else
    match Interrupts.ofScause (load64 k.memory (TrapFrame.scause tf)) with
    | some .timerInterrupt => some k
    | some .systemCall => do
      let currentThread ← k.getCurrentThread kernelTf
      let syscallId :=
        load64 k.memory (TrapFrame.regs (k.processManager.threads currentThread).trapFrame 17)
      match ← handleSyscall kernelTf (k.getCurrentProcess kernelTf) syscallId s.answer k with
      | (.error .blocked, k) => some k
      | _ => none
    | _ => none

/-- The trap ends where that call ends. -/
theorem handleInterrupt_of_scheduleCall {kernelTf tf : Nat} {k k₁ : Kernel} {s : Surroundings}
    (call : scheduleCall kernelTf tf k s = some k₁) (fuel : Nat) :
    handleInterrupt fuel kernelTf tf k s = scheduleFrame fuel kernelTf k₁ := by
  unfold scheduleCall at call
  split at call
  · cases call
  rename_i user
  rw [handleInterrupt, if_neg user]
  split at call
  · rename_i cause
    cases call
    simp only [cause, handleTimerInterrupt]
  · rename_i cause
    simp only [cause, handleSystemCall]
    simp only [Option.bind_eq_bind, Option.bind_eq_some_iff] at call
    obtain ⟨currentThread, current, ⟨result, k₂⟩, handled, call⟩ := call
    simp only [current, Option.bind_eq_bind, Option.bind_some, handled]
    split at call
    · cases call
      rename_i eq
      cases eq
      rfl
    · cases call
  · cases call

/-- The id of the system call that the thread of the frame at `tf` makes. -/
def syscallId (k : Kernel) (tf : Nat) : BitVec 64 := load64 k.memory (TrapFrame.regs tf 17)

/-- The trap that is saved in the frame at `tf` has the cause `cause`. -/
def HasCause (k : Kernel) (tf : Nat) (cause : Interrupts) : Prop :=
  Interrupts.ofScause (load64 k.memory (TrapFrame.scause tf)) = some cause

/-- What `handle_syscall` gives for the thread of the frame at `tf`. -/
def syscallResult (kernelTf tf : Nat) (answer : Answer) (k : Kernel) :
    Option (Except SysError Unit × Kernel) :=
  handleSyscall kernelTf (k.getCurrentProcess kernelTf) (syscallId k tf) answer k

/-- A return of `schedule` from `k₁` to the thread of `u`. -/
structure Switched (l : Layout) (k₁ : Kernel) (u : Task) (k' : Kernel) : Prop where
  mem : u ∈ l.tasks
  running : k₁.processManager.Running u.thread
  rotated : k₁.processManager.Rotated k'.processManager
  objects : l.Objects k'.processManager
  memory : k'.memory =
    Scheduler.prepareForSwitch l.kernelTf (k₁.processManager.threads u.thread) k₁.memory
  console : k'.console = k₁.console

/-- What the kernel does to handle a trap of the thread of `t`, and the frame it returns. -/
inductive Handles (l : Layout) (t : Task) (k : Kernel) (s : Surroundings) : Nat → Kernel → Prop where
  | ignored (noCall : ¬ HasCause k t.trapFrame .systemCall) : Handles l t k s t.trapFrame k
  | external (noCall : ¬ HasCause k t.trapFrame .systemCall) :
      Handles l t k s t.trapFrame (handleExternalInterrupt t.trapFrame k s.external).2
  | unknownCall (call : HasCause k t.trapFrame .systemCall)
      (unknown : 10 ≤ (syscallId k t.trapFrame).toNat)
      (result : syscallResult l.kernelTf t.trapFrame s.answer k = some (.ok (), k)) :
      Handles l t k s t.trapFrame { k with
        memory := store64 k.memory (TrapFrame.sepc t.trapFrame)
          (load64 k.memory (TrapFrame.sepc t.trapFrame) + 4) }
  | completed {k₁ : Kernel} {value : BitVec 64} (call : HasCause k t.trapFrame .systemCall)
      (known : (syscallId k t.trapFrame).toNat < 10)
      (completed : Completed t.process (syscallId k t.trapFrame).toNat (syscallArg k t.trapFrame)
        s.answer k k₁)
      (result : syscallResult l.kernelTf t.trapFrame s.answer k = some (.ok (), { k₁ with
        memory := store64 k₁.memory (TrapFrame.regs t.trapFrame 10) value })) :
      Handles l t k s t.trapFrame { k₁ with
        memory := store64 (store64 k₁.memory (TrapFrame.regs t.trapFrame 10) value)
          (TrapFrame.sepc t.trapFrame)
          (load64 (store64 k₁.memory (TrapFrame.regs t.trapFrame 10) value)
            (TrapFrame.sepc t.trapFrame) + 4) }
  | preempted {u : Task} {k' : Kernel} (timer : HasCause k t.trapFrame .timerInterrupt)
      (switched : Switched l k u k') : Handles l t k s u.trapFrame k'
  | blocked {k₁ k' : Kernel} {u : Task} (call : HasCause k t.trapFrame .systemCall)
      (blocked : Blocked l.kernelTf t.process (syscallId k t.trapFrame).toNat
        (syscallArg k t.trapFrame) k k₁)
      (switched : Switched l k₁ u k')
      (result : syscallResult l.kernelTf t.trapFrame s.answer k = some (.error .blocked, k₁)) :
      Handles l t k s u.trapFrame k'

section

variable {l : Layout} {t : Task} {k k' : Kernel} {fuel next : Nat} {s : Surroundings}

theorem handleExternalInterrupt_fst (tf : Nat) (k : Kernel) (external : ExternalInterrupt) :
    (handleExternalInterrupt tf k external).1 = tf := by
  cases external <;> rfl

/-- `schedule` returns to a thread of the layout. -/
theorem switched_of_scheduleFrame (objects : l.Objects k.processManager)
    (scheduled : scheduleFrame fuel l.kernelTf k = some (next, k')) :
    ∃ u, Switched l k u k' ∧ next = u.trapFrame := by
  simp only [scheduleFrame, Option.bind_eq_bind, Option.bind_eq_some_iff] at scheduled
  obtain ⟨⟨r, k₁⟩, returns, thread, rfl, scheduled⟩ := scheduled
  cases scheduled
  obtain ⟨n, queued⟩ := objects.queued
  obtain ⟨m, t, eq, turn⟩ := Scheduler.schedule_spec objects.unlocked queued returns
  cases eq
  obtain ⟨u, hu, rfl⟩ := List.mem_map.1 (List.mem_of_getElem? turn.arrived)
  have objects' := objects.rotated turn.rotated turn.queued
  exact ⟨u, ⟨hu, turn.running, turn.rotated, objects', turn.memory, turn.console⟩,
    (objects'.thread u hu).1⟩

/-- **The cases of `handle_interrupt`** for a trap of the thread of `t` from user mode. -/
theorem handleInterrupt_cases (objects : l.Objects k.processManager) (ht : t ∈ l.tasks)
    (current : l.Current k.memory t) (user : isKernelTrap t.trapFrame k.memory = false)
    (handled : handleInterrupt fuel l.kernelTf t.trapFrame k s = some (next, k')) :
    Handles l t k s next k' := by
  rw [handleInterrupt, user, if_neg (by simp)] at handled
  split at handled
  · rename_i cause
    obtain ⟨u, switched, rfl⟩ := switched_of_scheduleFrame objects handled
    exact .preempted cause switched
  · rename_i cause
    have result := Option.some.inj handled
    have frame : t.trapFrame = next := by
      rw [← handleExternalInterrupt_fst t.trapFrame k s.external, result]
    have kernel : (handleExternalInterrupt t.trapFrame k s.external).2 = k' := by rw [result]
    subst frame kernel
    exact .external (by simp [HasCause, cause])
  · rename_i cause
    have process := objects.getCurrentProcess_eq ht current
    have thread := objects.getCurrentThread_eq ht current
    have frame := (objects.thread t ht).1
    simp only [handleSystemCall, thread, process, Option.bind_eq_bind, Option.bind_some, frame,
      Option.bind_eq_some_iff] at handled
    obtain ⟨⟨result, k₁⟩, syscall, handled⟩ := handled
    have given : syscallResult l.kernelTf t.trapFrame s.answer k = some (result, k₁) := by
      rw [syscallResult, process]
      exact syscall
    have cases := handleSyscall_cases thread syscall
    rw [frame] at cases
    rcases cases with ⟨rfl, blocked⟩ | ⟨rfl, -, ⟨unknown, rfl⟩ | ⟨known, k₂, value, completed, rfl⟩⟩
    · obtain ⟨caller, current, pm⟩ := blocked.thread
      have objects₁ : l.Objects k₁.processManager := pm ▸ objects.block _ _
      obtain ⟨u, switched, rfl⟩ := switched_of_scheduleFrame objects₁ handled
      exact .blocked cause blocked switched given
    · cases handled
      exact .unknownCall cause unknown given
    · cases handled
      exact .completed cause known completed given
  · rename_i noTimer noExternal noCall
    cases handled
    exact .ignored noCall

end

end MatteOS.Traps
