import MatteOS.Traps.Verify.Scheduling

/-!
# Exited processes

`handle_exit` marks the process, but neither the thread's state nor the run queue: the
trap returns to the process that has just exited. As long as no process exits, none is
marked (`alive_run`), and the next event breaks this exactly when it is an exit
(`exitedNeverRuns_step_iff`).
-/

namespace MatteOS.Traps

open ByteMemory Processes

/-- The event is the system call `exit`. -/
def Exits (h : Hart) : Event → Prop
  | .start => False
  | .trap t => ∃ tf, h.current = some tf ∧ HasCause (t.saved h tf) tf .systemCall ∧
    (syscallId (t.saved h tf) tf).toNat = 5

namespace Layout

variable (l : Layout)

/-- No process is marked as exited. -/
def Alive (h : Hart) : Prop :=
  ∀ t ∈ l.tasks, (h.kernel.processManager.processes t.process).state ≠ .dead

/-- The thread in user mode does not belong to an exited process. -/
def ExitedNeverRuns (h : Hart) : Prop :=
  ∀ t ∈ l.tasks, h.current = some t.trapFrame →
    (h.kernel.processManager.processes t.process).state ≠ .dead

/-- A clean event that is no exit, and what it leads to. -/
def LivingStep (h : Hart) (e : Event) (h' : Hart) : Prop := l.CleanStep h e h' ∧ ¬ Exits h e

end Layout

section

variable {l : Layout} {t : Task} {h h' : Hart} {k k' : Kernel} {next : Nat} {s : Surroundings}

theorem Layout.Alive.exitedNeverRuns (alive : l.Alive h) : l.ExitedNeverRuns h :=
  fun t ht _ => alive t ht

theorem unblock_processes (pm : ProcessManager) (pid tid : BitVec 64) :
    (pm.unblock pid tid).processes = pm.processes := by
  rcases pm.unblock_eq pid tid with eq | ⟨_, _, eq⟩ <;> simp [eq]

theorem foldl_unblock_processes (pm : ProcessManager) (requests : List Devices.RequestContext) :
    (requests.foldl (fun pm r => pm.unblock r.pid r.tid) pm).processes = pm.processes := by
  induction requests generalizing pm with
  | nil => rfl
  | cons r requests ih => rw [List.foldl_cons, ih, unblock_processes]

theorem Switched.processes {k₁ : Kernel} {u : Task} (switched : Switched l k₁ u k') :
    k'.processManager.processes = k₁.processManager.processes := by
  obtain ⟨_, _, eq⟩ := switched.rotated
  rw [eq]

/-- Only an exit changes the state of a process. -/
theorem Handles.sameStates (handles : Handles l t k s next k') (objects : l.Objects k.processManager)
    (ht : t ∈ l.tasks) (current : l.Current k.memory t)
    (noExit : HasCause k t.trapFrame .systemCall → (syscallId k t.trapFrame).toNat ≠ 5) :
    k.processManager.SameStates k'.processManager := by
  intro p
  cases handles with
  | ignored | unknownCall => rfl
  | external =>
    match s.external with
    | .none | .other => rfl
    | .console received =>
      simp only [handleExternalInterrupt, handleConsoleInterrupt, foldl_unblock_processes]
  | completed call known completed => exact completed.states (noExit call) p
  | preempted timer switched => rw [switched.processes]
  | blocked call blocked switched =>
    rw [switched.processes, blocked_processManager objects ht current blocked,
      ProcessManager.setThreadState_processes]

/-- An exit returns to the process that it marks. -/
theorem Handles.dead (handles : Handles l t k s next k')
    (call : HasCause k t.trapFrame .systemCall) (exit : (syscallId k t.trapFrame).toNat = 5) :
    next = t.trapFrame ∧ (k'.processManager.processes t.process).state = .dead := by
  cases handles with
  | ignored noCall | external noCall => exact absurd call noCall
  | unknownCall _ unknown => omega
  | completed _ _ completed => exact ⟨rfl, completed.dead exit⟩
  | preempted timer =>
    rw [HasCause, call] at timer
    cases timer
  | blocked _ blocked => exact absurd (blocked.read.symm.trans exit) (by decide)

/-- The next event breaks the property exactly when it is an exit. -/
theorem exitedNeverRuns_step_iff {e : Event} (inv : l.Inv h) (alive : l.Alive h)
    (step : l.CleanStep h e h') : (¬ Exits h e → l.Alive h') ∧
      (l.ExitedNeverRuns h' ↔ ¬ Exits h e) := by
  obtain ⟨step, clean⟩ := step
  cases step with
  | @start _ _ k occurs scheduled =>
    obtain ⟨u, switched, rfl⟩ := switched_of_scheduleFrame inv.objects scheduled
    have alive' : l.Alive (resume k u.trapFrame h.satp) := fun t ht => by
      simp only [resume, switched.processes]
      exact alive t ht
    exact ⟨fun _ => alive', fun _ => not_false, fun _ => alive'.exitedNeverRuns⟩
  | @trap trap fuel tf next k occurs user handled =>
    obtain ⟨t, ht, rfl, running, current, fromUser⟩ := saved_facts inv occurs user
    have objects : l.Objects (trap.saved h t.trapFrame).processManager := inv.objects
    have handles := handleInterrupt_cases objects ht current fromUser handled
    have kept : ¬ Exits h (.trap trap) → l.Alive (resume k next
        (load64 trap.memory (TrapFrame.kernelSatp t.trapFrame))) := by
      intro noExit u hu
      have same := handles.sameStates objects ht current
        (fun call five => noExit ⟨t.trapFrame, user, call, five⟩) u.process
      simp only [resume, same]
      exact alive u hu
    refine ⟨kept, fun never exits => ?_, fun noExit => (kept noExit).exitedNeverRuns⟩
    obtain ⟨tf, user', call, five⟩ := exits
    obtain rfl : t.trapFrame = tf := Option.some.inj (user.symm.trans user')
    obtain ⟨rfl, dead⟩ := handles.dead call five
    exact never t ht rfl dead

/-- The system call that exits. -/
def exitCall (h : Hart) : UserTrap :=
  systemCall h 5 0 0 0 { opened := none, content := .error [], listed := false }

/-- A process can exit, and its thread is resumed. -/
theorem exists_exit (inv : l.Inv h) (ht : t ∈ l.tasks) (user : h.current = some t.trapFrame) :
    ∃ h', l.CleanStep h (.trap (exitCall h)) h' ∧ h'.current = some t.trapFrame ∧
      (h'.kernel.processManager.processes t.process).state = .dead := by
  have occurs : (Event.trap (exitCall h)).Occurs l.kernelMemory h :=
    systemCall_occurs (by simp [user])
  obtain ⟨t', ht', eq, running, current, fromUser⟩ := saved_facts inv occurs user
  obtain rfl := Layout.task_eq_of_trapFrame ht' ht eq
  have objects : l.Objects ((exitCall h).saved h t'.trapFrame).processManager := inv.objects
  have handled := handleInterrupt_exit objects ht' current fromUser (systemCall_hasCause _)
    (systemCall_syscallId _) (exitCall h).surroundings 0
  refine ⟨_, ⟨.trap occurs user handled, ?_⟩, rfl, ?_⟩
  · intro tf user' call read
    rw [exitCall, systemCall_syscallId] at read
    cases read
  · simp [resume, Kernel.modifyProcess, ProcessManager.modifyProcess]

/-- Without an exit, no process is marked. -/
theorem alive_run (inv : l.Inv h) (alive : l.Alive h) {es : List Event}
    (run : Transition.Run l.LivingStep h es h') : l.Inv h' ∧ l.Alive h' :=
  run.invariant (I := fun h => l.Inv h ∧ l.Alive h)
    (fun _ _ _ ⟨inv, alive⟩ ⟨step, noExit⟩ =>
      ⟨inv_step inv step, (exitedNeverRuns_step_iff inv alive step).1 noExit⟩) ⟨inv, alive⟩

/-- In every run in which no process exits, the thread in user mode belongs to no exited process,
and the next event keeps it so exactly when it is no exit. -/
theorem exited_never_runs_iff (initial : l.Initial h) (alive : l.Alive h) {es : List Event}
    (run : Transition.Run l.LivingStep h es h') : l.ExitedNeverRuns h' ∧
      ∀ e h'', l.CleanStep h' e h'' → (l.ExitedNeverRuns h'' ↔ ¬ Exits h' e) := by
  obtain ⟨inv, alive⟩ := alive_run initial.inv alive run
  exact ⟨alive.exitedNeverRuns, fun e h'' step => (exitedNeverRuns_step_iff inv alive step).2⟩

end

/-- A process that exits goes on running. -/
theorem exited_runs : ∃ es h, Transition.Run lone.CleanStep loneHart es h ∧
    ¬ lone.ExitedNeverRuns h := by
  obtain ⟨h₁, started, u, hu, user, -⟩ := exists_start lone_initial.inv rfl (by simp [loneHart])
  have inv := inv_step lone_initial.inv started
  obtain ⟨h₂, exited, user₂, dead⟩ := exists_exit inv hu user
  exact ⟨_, h₂, .cons started (.cons exited (.nil _)), fun never => never u hu user₂ dead⟩

/-- Opening a file is no exit. -/
theorem not_exits_openFile {h : Hart} (file : File) (path : BitVec 64) :
    ¬ Exits h (.trap (openFile h file path)) := by
  rintro ⟨tf, -, -, five⟩
  rw [openFile, systemCall_syscallId] at five
  exact absurd five (by decide)

/-- Scheduling starts, and the process opens the console: it runs on, and it is not exited. When
it then exits, it runs on as well. -/
theorem exited_never_runs_iff_lone : ∃ h₁ h₂ h₃,
    Transition.Run lone.LivingStep loneHart [.start, .trap (openFile h₁ .console 0x5000)] h₂ ∧
    h₂.current = some loneTask.trapFrame ∧ lone.ExitedNeverRuns h₂ ∧
    lone.CleanStep h₂ (.trap (exitCall h₂)) h₃ ∧ Exits h₂ (.trap (exitCall h₂)) ∧
    ¬ lone.ExitedNeverRuns h₃ := by
  obtain ⟨h₁, h₂, started, opened, -, user, -⟩ := lone_open .console
  have run : Transition.Run lone.LivingStep loneHart [.start, .trap (openFile h₁ .console 0x5000)]
      h₂ := .cons ⟨started, not_false⟩ (.cons ⟨opened, not_exits_openFile _ _⟩ (.nil _))
  obtain ⟨never, next⟩ :=
    exited_never_runs_iff lone_initial (by simp [Layout.Alive, lone, loneHart]) run
  have inv := inv_step (inv_step lone_initial.inv started) opened
  obtain ⟨h₃, exited, -⟩ := exists_exit inv loneTask_mem user
  have exits : Exits h₂ (.trap (exitCall h₂)) := ⟨_, user, systemCall_hasCause _, by
    rw [exitCall, systemCall_syscallId]
    rfl⟩
  exact ⟨h₁, h₂, h₃, run, user, never, exited, exits, fun never' => (next _ _ exited).1 never' exits⟩

end MatteOS.Traps
