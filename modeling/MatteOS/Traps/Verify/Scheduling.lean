import MatteOS.Lib.Transition
import MatteOS.Traps.Boot
import MatteOS.Traps.Verify.SystemCalls

/-!
# When `schedule` ends

Between traps the thread in user mode is running, and the kernel trap frame names it
(`Layout.Inv`). So a timer interrupt always finds a running thread, and a system call that
blocks finds one exactly when a thread other than the caller is running.
-/

namespace MatteOS.Traps

open ByteMemory Processes

namespace Layout

variable (l : Layout)

/-- What the kernel can rely on between traps. -/
structure Inv (h : Hart) : Prop where
  objects : l.Objects h.kernel.processManager
  fresh : h.current = none → ∀ t ∈ l.tasks, h.kernel.processManager.Running t.thread
  user : ∀ tf, h.current = some tf → ∃ t ∈ l.tasks, t.trapFrame = tf ∧
    h.kernel.processManager.Running t.thread ∧ l.Current h.kernel.memory t

/-- The bytes that a read delivers miss the kernel's memory. -/
def CleanRead (k : Kernel) (tf : Nat) (answer : Answer) : Prop :=
  HasCause k tf .systemCall → (syscallId k tf).toNat = 3 →
    ∀ process ∈ k.getCurrentProcess l.kernelTf, ∀ a bytes,
      Process.readStore process k ((syscallArg k tf 0).setWidth 32) (syscallArg k tf 1)
        (syscallArg k tf 2) answer = some (a, bytes) →
      ∀ i < bytes.length, ¬ l.kernelMemory (a + i)

/-- The event is no read into the kernel's memory. -/
def Clean (h : Hart) : Event → Prop
  | .start => True
  | .trap t => ∀ tf, h.current = some tf → l.CleanRead (t.saved h tf) tf t.surroundings.answer

/-- A clean event and what it leads to. -/
def CleanStep (h : Hart) (e : Event) (h' : Hart) : Prop :=
  Step l.kernelTf l.kernelMemory h e h' ∧ l.Clean h e

end Layout

section

variable {l : Layout} {t u : Task} {h h' : Hart} {k k' k₁ : Kernel} {tf next : Nat}
  {s : Surroundings}

/-! ## Steps of the kernel -/

/-- A completed call keeps the kernel's memory, if it is no read into it. -/
theorem agreeOn_completed (objects : l.Objects k.processManager) (ht : t ∈ l.tasks)
    (current : l.Current k.memory t) (call : HasCause k t.trapFrame .systemCall)
    {answer : Answer} (clean : l.CleanRead k t.trapFrame answer)
    (completed : Completed t.process (syscallId k t.trapFrame).toNat (syscallArg k t.trapFrame)
      answer k k₁) : AgreeOn l.kernelMemory k.memory k₁.memory := by
  intro x owned
  rw [completed.memory, readMemory]
  split
  · rename_i read
    cases store : Process.readStore t.process k ((syscallArg k t.trapFrame 0).setWidth 32)
      (syscallArg k t.trapFrame 1) (syscallArg k t.trapFrame 2) answer with
    | none => rfl
    | some stored =>
      obtain ⟨a, bytes⟩ := stored
      have miss := clean call read t.process (objects.getCurrentProcess_eq ht current) a bytes store
      exact storeBytes_apply_of_outside _ fun i hi eq => miss i hi (eq ▸ owned)
  · rfl

/-- The caller of a blocking read is put to sleep. -/
theorem blocked_processManager (objects : l.Objects k.processManager) (ht : t ∈ l.tasks)
    (current : l.Current k.memory t) {syscallId : Nat} {arg : Nat → BitVec 64}
    (blocked : Blocked l.kernelTf t.process syscallId arg k k₁) :
    k₁.processManager = k.processManager.setThreadState t.thread .blocked := by
  obtain ⟨caller, found, eq⟩ := blocked.thread
  rw [objects.getCurrentThread_eq ht current] at found
  obtain rfl := Option.some.inj found
  rw [eq, (objects.process t ht).1, (objects.thread t ht).2.1, ProcessManager.block,
    objects.getThread_eq ht]

theorem running_unblock {pm : ProcessManager} {thread : Nat} (running : pm.Running thread)
    (pid tid : BitVec 64) : (pm.unblock pid tid).Running thread := by
  rcases pm.unblock_eq pid tid with eq | ⟨other, -, eq⟩
  · rwa [eq]
  · rw [eq, ProcessManager.Running, ProcessManager.setThreadState_threads]
    by_cases same : thread = other
    · simp [same]
    · rw [if_neg same]
      exact running

theorem running_foldl_unblock {pm : ProcessManager} {thread : Nat} (running : pm.Running thread)
    (requests : List Devices.RequestContext) :
    (requests.foldl (fun pm r => pm.unblock r.pid r.tid) pm).Running thread := by
  induction requests generalizing pm with
  | nil => exact running
  | cons r requests ih => exact ih (running_unblock running r.pid r.tid)

/-- What is neither in its own fields of a frame nor in the kernel trap frame is left by
`prepare_for_switch`. -/
theorem agreeOn_prepareForSwitch {p : Nat → Prop} {thread : Thread}
    (frame : thread.trapFrame = u.trapFrame)
    (fields : ∀ x, p x → x < u.trapFrame + 552 ∨ u.trapFrame + 568 ≤ x)
    (kernel : ∀ x, p x → x < l.kernelTf ∨ l.kernelTf + KernelTrapFrame.SIZE ≤ x) (m : Memory) :
    AgreeOn p m (Scheduler.prepareForSwitch l.kernelTf thread m) := by
  intro x mem
  have outside := fields x mem
  have outside' := kernel x mem
  simp only [KernelTrapFrame.SIZE] at outside'
  simp only [Scheduler.prepareForSwitch, frame]
  rw [store64_apply_of_outside _ _ (by simp only [KernelTrapFrame.currentThreadId]; omega),
    store64_apply_of_outside _ _ (by simp only [KernelTrapFrame.currentProcessId]; omega),
    store64_apply_of_outside _ _ (by simp only [TrapFrame.kernelTrapFramePtr]; omega),
    store64_apply_of_outside _ _ (by simp only [TrapFrame.kernelSp]; omega)]

/-- The thread that `schedule` returns has the frame of its task. -/
theorem Switched.frame (switched : Switched l k₁ u k') :
    (k₁.processManager.threads u.thread).trapFrame = u.trapFrame := by
  rw [← switched.rotated.threads]
  exact (switched.objects.thread u switched.mem).1

theorem Switched.agreeOn {p : Nat → Prop} (switched : Switched l k₁ u k')
    (fields : ∀ x, p x → x < u.trapFrame + 552 ∨ u.trapFrame + 568 ≤ x)
    (kernel : ∀ x, p x → x < l.kernelTf ∨ l.kernelTf + KernelTrapFrame.SIZE ≤ x) :
    AgreeOn p k₁.memory k'.memory := by
  rw [switched.memory]
  exact agreeOn_prepareForSwitch switched.frame fields kernel _

/-- Return to a thread that `schedule` found. -/
theorem Switched.inv (switched : Switched l k₁ u k') (kernelSatp : BitVec 64) :
    l.Inv (resume k' u.trapFrame kernelSatp) where
  objects := switched.objects
  fresh := by simp [resume]
  user := by
    rintro tf ⟨⟩
    refine ⟨u, switched.mem, rfl, (switched.rotated.running_iff _).2 switched.running, ?_⟩
    have current := Layout.current_prepareForSwitch switched.objects switched.mem k₁.memory
    rw [switched.rotated.threads, ← switched.memory] at current
    exact current.congr (Layout.agreeOn_store switched.mem (by simp [TrapFrame.kernelSatp])
      (by simp [TrapFrame.kernelSatp, TrapFrame.SIZE]) _)

/-- Return to the thread that trapped. -/
theorem inv_resume (objects : l.Objects k.processManager) (ht : t ∈ l.tasks)
    (running : k.processManager.Running t.thread) (current : l.Current k.memory t)
    (kernelSatp : BitVec 64) : l.Inv (resume k t.trapFrame kernelSatp) where
  objects := objects
  fresh := by simp [resume]
  user := by
    rintro tf ⟨⟩
    exact ⟨t, ht, rfl, running, current.congr (Layout.agreeOn_store ht
      (by simp [TrapFrame.kernelSatp]) (by simp [TrapFrame.kernelSatp, TrapFrame.SIZE]) _)⟩

/-- Every way of handling a trap keeps the invariant. -/
theorem Handles.inv (handles : Handles l t k s next k') (objects : l.Objects k.processManager)
    (ht : t ∈ l.tasks) (running : k.processManager.Running t.thread)
    (current : l.Current k.memory t) (clean : l.CleanRead k t.trapFrame s.answer)
    (kernelSatp : BitVec 64) : l.Inv (resume k' next kernelSatp) := by
  have a0 : t.trapFrame ≤ TrapFrame.regs t.trapFrame 10 ∧
      TrapFrame.regs t.trapFrame 10 + 8 ≤ t.trapFrame + TrapFrame.SIZE := by
    simp [TrapFrame.regs, TrapFrame.SIZE]
  have sepc : t.trapFrame ≤ TrapFrame.sepc t.trapFrame ∧
      TrapFrame.sepc t.trapFrame + 8 ≤ t.trapFrame + TrapFrame.SIZE := by
    simp [TrapFrame.sepc, TrapFrame.SIZE]
  cases handles with
  | ignored => exact inv_resume objects ht running current kernelSatp
  | external =>
    cases s.external with
    | none => exact inv_resume objects ht running current kernelSatp
    | other => exact inv_resume objects ht running current kernelSatp
    | console received =>
      exact inv_resume (k := handleConsoleInterrupt k received) (objects.foldl_unblock _) ht
        (running_foldl_unblock running _) current kernelSatp
  | unknownCall =>
    apply inv_resume
    · exact objects
    · exact ht
    · exact running
    · exact current.congr (Layout.agreeOn_store ht sepc.1 sepc.2 _)
  | @completed k₁ value call known completed =>
    have kept := (agreeOn_completed objects ht current call clean completed).mono l.kernelFrameOwned
    have written : AgreeOn (bytesAt l.kernelTf KernelTrapFrame.SIZE) k.memory
        (store64 (store64 k₁.memory (TrapFrame.regs t.trapFrame 10) value)
          (TrapFrame.sepc t.trapFrame)
          (load64 (store64 k₁.memory (TrapFrame.regs t.trapFrame 10) value)
            (TrapFrame.sepc t.trapFrame) + 4)) :=
      kept.trans ((Layout.agreeOn_store ht a0.1 a0.2 _).trans
        (Layout.agreeOn_store ht sepc.1 sepc.2 _))
    apply inv_resume
    · exact objects.sameThreads completed.threads
    · exact ht
    · rw [ProcessManager.Running, completed.threads.thread_eq]
      exact running
    · exact current.congr written
  | preempted timer switched => exact switched.inv kernelSatp
  | blocked call blocked switched => exact switched.inv kernelSatp

/-- The trap that is saved comes from user mode, and names its thread. -/
theorem saved_facts {trap : UserTrap} (inv : l.Inv h) (occurs : (Event.trap trap).Occurs l.kernelMemory h)
    (user : h.current = some tf) : ∃ t ∈ l.tasks, t.trapFrame = tf ∧
      h.kernel.processManager.Running t.thread ∧ l.Current (trap.saved h tf).memory t ∧
      isKernelTrap tf (trap.saved h tf).memory = false := by
  obtain ⟨t, ht, rfl, running, current⟩ := inv.user tf user
  obtain ⟨-, previous, -, unwritten⟩ := occurs
  refine ⟨t, ht, rfl, running, ?_, ?_⟩
  · have kept : AgreeOn (bytesAt l.kernelTf KernelTrapFrame.SIZE) h.kernel.memory trap.memory :=
      fun x hx => unwritten x (l.kernelFrameOwned x hx)
    exact (current.congr kept).congr (Layout.agreeOn_saveContext ht _ _ _ _)
  · rw [isKernelTrap, UserTrap.saved, load64_saveContext_sstatus, previous]

/-- The invariant of every clean run. -/
theorem inv_step {e : Event} (inv : l.Inv h) (step : l.CleanStep h e h') : l.Inv h' := by
  obtain ⟨step, clean⟩ := step
  cases step with
  | start occurs scheduled =>
    obtain ⟨u, switched, rfl⟩ := switched_of_scheduleFrame inv.objects scheduled
    exact switched.inv _
  | @trap trap fuel tf next k occurs user handled =>
    obtain ⟨t, ht, rfl, running, current, fromUser⟩ := saved_facts inv occurs user
    have handles := handleInterrupt_cases (k := trap.saved h t.trapFrame) inv.objects ht current
      fromUser handled
    exact handles.inv inv.objects ht running current (clean _ user) _

theorem inv_run {es : List Event} (inv : l.Inv h) (run : Transition.Run l.CleanStep h es h') :
    l.Inv h' :=
  run.invariant (fun _ _ _ inv step => inv_step inv step) inv

end

/-! ## Ends of the search -/

/-- A queued thread is running, and the search of `schedule` ends. -/
structure Ends (kernelTf : Nat) (k : Kernel) : Prop where
  running : ∃ queued, k.processManager.Queued queued ∧
    ∃ thread ∈ queued, k.processManager.Running thread
  returns : ∃ fuel result, Scheduler.schedule fuel kernelTf k = some result

/-- The thread of the frame at `tf` reads from the console, which has no line. -/
structure BlockingRead (kernelTf : Nat) (k : Kernel) (tf : Nat) : Prop where
  call : HasCause k tf .systemCall
  read : (syscallId k tf).toNat = 3
  blocks : ∃ process ∈ k.getCurrentProcess kernelTf,
    Process.Blocks process k ((syscallArg k tf 0).setWidth 32) (syscallArg k tf 1)

namespace Layout

variable (l : Layout)

/-- Whenever the event enters `schedule`, a thread in the run queue is running and the search
ends. -/
def ScheduleEnds (h : Hart) : Event → Prop
  | .start => Ends l.kernelTf h.kernel
  | .trap t => ∀ tf k, h.current = some tf →
    scheduleCall l.kernelTf tf (t.saved h tf) t.surroundings = some k → Ends l.kernelTf k

/-- There is a process to start with, and a read that blocks leaves a running thread in the
queue. -/
def OtherRunning (h : Hart) : Event → Prop
  | .start => h.kernel.processManager.processList ≠ []
  | .trap t => ∀ tf, h.current = some tf → BlockingRead l.kernelTf (t.saved h tf) tf →
    ∃ queued, h.kernel.processManager.Queued queued ∧ ∃ thread ∈ queued,
      h.kernel.processManager.Running thread ∧
      some thread ≠ (t.saved h tf).getCurrentThread l.kernelTf

end Layout

section

variable {l : Layout} {t u : Task} {h h' : Hart} {k k' k₁ : Kernel} {tf next : Nat}
  {s : Surroundings}

theorem running_block_iff {pm : ProcessManager} {caller thread : Nat} :
    (pm.setThreadState caller .blocked).Running thread ↔ thread ≠ caller ∧ pm.Running thread := by
  rw [ProcessManager.Running, ProcessManager.setThreadState_threads]
  by_cases same : thread = caller <;> simp [same, ProcessManager.Running]

theorem ends_of_running {kernelTf : Nat} (unlocked : k.processManager.processListLock = 0)
    {queued : List Nat} (inQueue : k.processManager.Queued queued) {thread : Nat}
    (mem : thread ∈ queued) (running : k.processManager.Running thread) : Ends kernelTf k where
  running := ⟨queued, inQueue, thread, mem, running⟩
  returns := by
    have turned : k.processManager.Queued (queued.rotate 0) := by simpa using inQueue
    obtain ⟨m, t, k', -, returns⟩ := Scheduler.schedule_returns kernelTf unlocked turned mem running
    exact ⟨queued.length, _, returns _ (Nat.le_refl _)⟩

/-- The search ends exactly when a thread of the layout is running. -/
theorem ends_iff (objects : l.Objects k.processManager) :
    Ends l.kernelTf k ↔ ∃ t ∈ l.tasks, k.processManager.Running t.thread := by
  obtain ⟨n, queued⟩ := objects.queued
  constructor
  · rintro ⟨-, fuel, ⟨r, k'⟩, returns⟩
    obtain ⟨m, thread, rfl, scheduled⟩ := Scheduler.schedule_spec objects.unlocked queued returns
    obtain ⟨t, ht, rfl⟩ := List.mem_map.1 (List.mem_of_getElem? scheduled.arrived)
    exact ⟨t, ht, scheduled.running⟩
  · rintro ⟨t, ht, running⟩
    exact ends_of_running objects.unlocked queued
      (List.mem_rotate.2 (List.mem_map_of_mem ht)) running

/-- `schedule` is entered on a timer interrupt, and after a blocking read. -/
theorem scheduleCall_cases (objects : l.Objects k.processManager) (ht : t ∈ l.tasks)
    (current : l.Current k.memory t) (call : scheduleCall l.kernelTf t.trapFrame k s = some k₁) :
    HasCause k t.trapFrame .timerInterrupt ∧ k₁ = k ∨ HasCause k t.trapFrame .systemCall ∧
      Blocked l.kernelTf t.process (syscallId k t.trapFrame).toNat (syscallArg k t.trapFrame) k k₁ := by
  have process := objects.getCurrentProcess_eq ht current
  have thread := objects.getCurrentThread_eq ht current
  have frame := (objects.thread t ht).1
  unfold scheduleCall at call
  split at call
  · cases call
  split at call
  · rename_i cause
    cases call
    exact .inl ⟨cause, rfl⟩
  · rename_i cause
    simp only [thread, process, frame, Option.bind_eq_bind, Option.bind_some,
      Option.bind_eq_some_iff] at call
    obtain ⟨⟨result, k₂⟩, handled, call⟩ := call
    have cases := handleSyscall_cases thread handled
    rw [frame] at cases
    rcases cases with ⟨rfl, blocked⟩ | ⟨rfl, -⟩
    · cases call
      exact .inr ⟨cause, blocked⟩
    · cases call
  · cases call

/-- A blocking read does enter it. -/
theorem scheduleCall_of_blockingRead (objects : l.Objects k.processManager) (ht : t ∈ l.tasks)
    (current : l.Current k.memory t) (user : isKernelTrap t.trapFrame k.memory = false)
    (read : BlockingRead l.kernelTf k t.trapFrame) (s : Surroundings) :
    ∃ k₁, scheduleCall l.kernelTf t.trapFrame k s = some k₁ := by
  have process := objects.getCurrentProcess_eq ht current
  have thread := objects.getCurrentThread_eq ht current
  have frame := (objects.thread t ht).1
  obtain ⟨call, read, p, found, blocks⟩ := read
  rw [process] at found
  obtain rfl := Option.some.inj found
  rw [← frame] at blocks
  obtain ⟨k₁, handled⟩ := handleSyscall_of_blocks s.answer thread
    (by rw [frame]; exact read : (syscallId k (k.processManager.threads t.thread).trapFrame).toNat = 3)
    blocks
  refine ⟨k₁, ?_⟩
  rw [scheduleCall, user, if_neg (by simp), call]
  simp only [thread, process, Option.bind_eq_bind, Option.bind_some]
  exact handled ▸ rfl

/-- The thread that a call of a trap enters `schedule` for, and the others. -/
theorem scheduleEnds_trap_iff {trap : UserTrap} (inv : l.Inv h)
    (occurs : (Event.trap trap).Occurs l.kernelMemory h) :
    l.ScheduleEnds h (.trap trap) ↔ l.OtherRunning h (.trap trap) := by
  obtain ⟨tf, user⟩ := Option.ne_none_iff_exists'.1 occurs.1
  obtain ⟨t, ht, rfl, running, current, fromUser⟩ := saved_facts inv occurs user
  have objects : l.Objects (trap.saved h t.trapFrame).processManager := inv.objects
  obtain ⟨n, queued⟩ := objects.queued
  have caller := objects.getCurrentThread_eq ht current
  constructor
  · rintro ends tf user' read
    obtain rfl : t.trapFrame = tf := Option.some.inj (user.symm.trans user')
    obtain ⟨k₁, call⟩ := scheduleCall_of_blockingRead objects ht current fromUser read
      trap.surroundings
    have end₁ := ends _ k₁ user call
    rcases scheduleCall_cases objects ht current call with ⟨timer, -⟩ | ⟨-, blocked⟩
    · rw [HasCause, read.call] at timer
      cases timer
    have pm₁ := blocked_processManager objects ht current blocked
    have objects₁ : l.Objects k₁.processManager := pm₁ ▸ objects.setThreadState t.thread .blocked
    obtain ⟨u, hu, running'⟩ := (ends_iff objects₁).1 end₁
    rw [pm₁, running_block_iff] at running'
    refine ⟨_, queued, u.thread, List.mem_rotate.2 (List.mem_map_of_mem hu), running'.2, ?_⟩
    rw [caller]
    simpa using running'.1
  · rintro others tf k₁ user' call
    obtain rfl : t.trapFrame = tf := Option.some.inj (user.symm.trans user')
    rcases scheduleCall_cases objects ht current call with ⟨-, rfl⟩ | ⟨cause, blocked⟩
    · exact (ends_iff objects).2 ⟨t, ht, running⟩
    · have read : BlockingRead l.kernelTf (trap.saved h t.trapFrame) t.trapFrame :=
        { call := cause, read := blocked.read
          blocks := ⟨t.process, objects.getCurrentProcess_eq ht current, blocked.blocks⟩ }
      obtain ⟨queue, inQueue, thread, mem, running', ne⟩ := others _ user read
      have pm₁ := blocked_processManager objects ht current blocked
      refine @ends_of_running _ _ ?_ queue ?_ _ mem ?_
      · rw [pm₁]
        exact objects.unlocked
      · rw [pm₁]
        exact inQueue.setThreadState t.thread .blocked
      · rw [pm₁, running_block_iff]
        refine ⟨?_, running'⟩
        rw [caller] at ne
        simpa using ne

/-- Scheduling starts when there is a process. -/
theorem scheduleEnds_start_iff (inv : l.Inv h) (first : h.current = none) :
    l.ScheduleEnds h .start ↔ l.OtherRunning h .start := by
  rw [Layout.ScheduleEnds, ends_iff inv.objects, Layout.OtherRunning, inv.objects.listed]
  constructor
  · rintro ⟨t, ht, -⟩
    simpa using List.ne_nil_of_mem ht
  · intro some
    obtain ⟨t, ht⟩ := List.exists_mem_of_ne_nil _ (by simpa using some : l.tasks ≠ [])
    exact ⟨t, ht, inv.fresh first t ht⟩

theorem scheduleEnds_iff (inv : l.Inv h) {e : Event} (occurs : e.Occurs l.kernelMemory h) :
    l.ScheduleEnds h e ↔ l.OtherRunning h e := by
  cases e with
  | start => exact scheduleEnds_start_iff inv occurs
  | trap t => exact scheduleEnds_trap_iff inv occurs

/-- What `create_dummy_process` leaves: all threads are running, and none runs yet. -/
structure Layout.Initial (l : Layout) (h : Hart) : Prop where
  objects : l.Objects h.kernel.processManager
  current : h.current = none
  running : ∀ t ∈ l.tasks, h.kernel.processManager.Running t.thread

theorem Layout.Initial.inv (initial : l.Initial h) : l.Inv h where
  objects := initial.objects
  fresh := fun _ => initial.running
  user := by simp [initial.current]

/-- In every run without a read into the kernel's memory, `schedule` ends at the next event exactly
when there is a process to start with, or a thread besides the one that a read puts to sleep. -/
theorem schedule_ends_iff (initial : l.Initial h) {es : List Event}
    (run : Transition.Run l.CleanStep h es h') {e : Event} (occurs : e.Occurs l.kernelMemory h') :
    l.ScheduleEnds h' e ↔ l.OtherRunning h' e :=
  scheduleEnds_iff (inv_run initial.inv run) occurs

/-- Scheduling starts with a thread of the layout, and touches only the frames. -/
theorem exists_start (inv : l.Inv h) (first : h.current = none)
    (nonempty : h.kernel.processManager.processList ≠ []) :
    ∃ h', l.CleanStep h .start h' ∧ ∃ u ∈ l.tasks, h'.current = some u.trapFrame ∧
      h.kernel.processManager.Rotated h'.kernel.processManager ∧
      h'.kernel.console = h.kernel.console ∧
      ∀ p : Nat → Prop,
        (∀ u ∈ l.tasks, ∀ x, p x → x < u.trapFrame ∨ u.trapFrame + TrapFrame.SIZE ≤ x) →
        (∀ x, p x → x < l.kernelTf ∨ l.kernelTf + KernelTrapFrame.SIZE ≤ x) →
        AgreeOn p h.kernel.memory h'.kernel.memory := by
  obtain ⟨fuel, ⟨r, k'⟩, returns⟩ := ((scheduleEnds_start_iff inv first).2 nonempty).returns
  obtain ⟨n, queued⟩ := inv.objects.queued
  obtain ⟨m, thread, rfl, scheduled⟩ := Scheduler.schedule_spec inv.objects.unlocked queued returns
  have frame : scheduleFrame fuel l.kernelTf h.kernel =
      some ((k'.processManager.threads thread).trapFrame, k') := by simp [scheduleFrame, returns]
  obtain ⟨u, switched, eq⟩ := switched_of_scheduleFrame inv.objects frame
  rw [eq] at frame
  refine ⟨_, ⟨.start first frame, trivial⟩, u, switched.mem, rfl, switched.rotated,
    switched.console, fun p apart kernel => ?_⟩
  have fields : ∀ x, p x → x < u.trapFrame ∨ u.trapFrame + TrapFrame.SIZE ≤ x := apart u switched.mem
  simp only [TrapFrame.SIZE] at fields
  have kept := switched.agreeOn (fun x mem => by have := fields x mem; omega) kernel
  exact kept.store64 _ fun x mem => by
    have := fields x mem
    simp only [TrapFrame.kernelSatp]
    omega

/-- The system call that opens a file under the name at `path`. -/
def openFile (h : Hart) (file : File) (path : BitVec 64) : UserTrap :=
  systemCall h 0 path 0 0 { opened := some file, content := .error [], listed := false }

/-- A process can open a file. -/
theorem exists_open (inv : l.Inv h) (ht : t ∈ l.tasks) (user : h.current = some t.trapFrame)
    {file : File} (path : BitVec 64) {fd : Nat} {table : FileSystem.FileDescriptorTable File}
    (free : (h.kernel.processManager.processes t.process).fdTable.openDescriptor file =
      (.ok fd, table))
    (mapped : ∀ m, (∀ x, x < t.trapFrame ∨ t.trapFrame + TrapFrame.SIZE ≤ x →
        m x = h.kernel.memory x) →
      ∃ address, Memory.translate m t.pageTable (.ofU64 path) = .ok address) :
    ∃ h', l.CleanStep h (.trap (openFile h file path)) h' ∧
      h'.current = some t.trapFrame ∧ h'.kernel.console = h.kernel.console ∧
      (h'.kernel.processManager.processes t.process).fdTable = table ∧
      h'.kernel.processManager.threads = h.kernel.processManager.threads ∧
      ∀ x, x < t.trapFrame ∨ t.trapFrame + TrapFrame.SIZE ≤ x →
        h'.kernel.memory x = h.kernel.memory x := by
  have occurs : (Event.trap (openFile h file path)).Occurs l.kernelMemory h :=
    systemCall_occurs (by simp [user])
  obtain ⟨t', ht', eq, running, current, fromUser⟩ := saved_facts inv occurs user
  obtain rfl := Layout.task_eq_of_trapFrame ht' ht eq
  have objects : l.Objects ((openFile h file path).saved h t'.trapFrame).processManager := inv.objects
  have saved : ∀ x, x < t'.trapFrame ∨ t'.trapFrame + TrapFrame.SIZE ≤ x →
      ((openFile h file path).saved h t'.trapFrame).memory x = h.kernel.memory x := fun x outside =>
    saveContext_apply_of_outside _ _ _ _ _ _ (by simp only [TrapFrame.SIZE] at outside; omega)
  have translated : (((openFile h file path).saved h t'.trapFrame).userspaceGet t'.process
      (syscallArg ((openFile h file path).saved h t'.trapFrame) t'.trapFrame 0)).isSome := by
    obtain ⟨address, found⟩ := mapped _ saved
    rw [openFile, systemCall_arg0, ← openFile, Kernel.userspaceGet,
      (objects.process t' ht').2.1, found]
    rfl
  have handled := handleInterrupt_open objects ht' current fromUser (systemCall_hasCause _)
    (systemCall_syscallId _) translated (s := (openFile h file path).surroundings) rfl free 0
  refine ⟨_, ⟨.trap occurs user handled, ?_⟩, rfl, rfl, ?_, rfl, fun x outside => ?_⟩
  · intro tf user' call read
    rw [openFile, systemCall_syscallId] at read
    cases read
  · simp [resume, Kernel.modifyProcess, ProcessManager.modifyProcess]
  · simp only [resume]
    rw [store64_apply_of_outside _ _ (by
      simp only [TrapFrame.kernelSatp, TrapFrame.SIZE] at outside ⊢; omega),
      returnValue_apply_of_outside _ _ _ outside]
    exact saved x outside

/-- A running thread besides the current one is enough. -/
theorem otherRunning_of_running (inv : l.Inv h) (ht : t ∈ l.tasks) (user : h.current = some t.trapFrame)
    {trap : UserTrap} (occurs : (Event.trap trap).Occurs l.kernelMemory h) (hu : u ∈ l.tasks)
    (ne : u.thread ≠ t.thread) (running : h.kernel.processManager.Running u.thread) :
    l.OtherRunning h (.trap trap) := by
  intro tf user' _
  obtain rfl : t.trapFrame = tf := Option.some.inj (user.symm.trans user')
  obtain ⟨t', ht', eq, -, current, -⟩ := saved_facts inv occurs user
  obtain rfl := Layout.task_eq_of_trapFrame ht' ht eq
  have objects : l.Objects (trap.saved h t'.trapFrame).processManager := inv.objects
  obtain ⟨n, queued⟩ := inv.objects.queued
  refine ⟨_, queued, u.thread, List.mem_rotate.2 (List.mem_map_of_mem hu), running, ?_⟩
  rw [objects.getCurrentThread_eq ht' current]
  simpa using ne

/-- The thread reads from file 0. -/
def readConsole (h : Hart) : UserTrap :=
  systemCall h 3 0 0x5000 8 { opened := none, content := .error [], listed := false }

/-- Where file 0 is the console and no line is typed, the read blocks. -/
theorem blockingRead_readConsole (inv : l.Inv h) (ht : t ∈ l.tasks)
    (user : h.current = some t.trapFrame)
    (file : (h.kernel.processManager.processes t.process).fdTable.descriptor 0 = some (some .console))
    (mapped : ∀ m, (∀ x, x < t.trapFrame ∨ t.trapFrame + TrapFrame.SIZE ≤ x →
        m x = h.kernel.memory x) →
      ∃ address, Memory.translate m t.pageTable (.ofU64 0x5000) = .ok address)
    (noLine : ∀ driver ∈ h.kernel.console.driver, driver.lines = []) :
    BlockingRead l.kernelTf ((readConsole h).saved h t.trapFrame) t.trapFrame := by
  have occurs : (Event.trap (readConsole h)).Occurs l.kernelMemory h :=
    systemCall_occurs (by simp [user])
  obtain ⟨t', ht', eq, -, current, -⟩ := saved_facts inv occurs user
  obtain rfl := Layout.task_eq_of_trapFrame ht' ht eq
  have objects : l.Objects ((readConsole h).saved h t'.trapFrame).processManager := inv.objects
  obtain ⟨address, translated⟩ := mapped ((readConsole h).saved h t'.trapFrame).memory fun x outside =>
    saveContext_apply_of_outside _ _ _ _ _ _ (by simp only [TrapFrame.SIZE] at outside; omega)
  have arg0 : syscallArg ((readConsole h).saved h t'.trapFrame) t'.trapFrame 0 = 0 := systemCall_arg0 _
  have arg1 : syscallArg ((readConsole h).saved h t'.trapFrame) t'.trapFrame 1 = 0x5000 :=
    systemCall_arg1 _
  have found : ((readConsole h).saved h t'.trapFrame).userspaceGet t'.process 0x5000 =
      some address.getValue.toNat := by
    rw [Kernel.userspaceGet, (objects.process t' ht').2.1]
    exact translated ▸ rfl
  refine ⟨systemCall_hasCause _, congrArg BitVec.toNat (systemCall_syscallId _), t'.process,
    objects.getCurrentProcess_eq ht' current, ?_⟩
  rw [arg0, arg1]
  exact ⟨file, by rw [found]; rfl, noLine⟩

/-- A read that blocks switches to another thread, if `schedule` ends. -/
theorem exists_blocked (inv : l.Inv h) (ht : t ∈ l.tasks) (user : h.current = some t.trapFrame)
    {trap : UserTrap} (occurs : (Event.trap trap).Occurs l.kernelMemory h)
    (read : BlockingRead l.kernelTf (trap.saved h t.trapFrame) t.trapFrame)
    (ends : l.ScheduleEnds h (.trap trap)) :
    ∃ h', l.CleanStep h (.trap trap) h' ∧
      ∃ u ∈ l.tasks, u.thread ≠ t.thread ∧ h'.current = some u.trapFrame := by
  obtain ⟨t', ht', eq, running, current, fromUser⟩ := saved_facts inv occurs user
  obtain rfl := Layout.task_eq_of_trapFrame ht' ht eq
  have objects : l.Objects (trap.saved h t'.trapFrame).processManager := inv.objects
  obtain ⟨k₁, call⟩ := scheduleCall_of_blockingRead objects ht' current fromUser read trap.surroundings
  obtain ⟨fuel, ⟨r, k'⟩, returns⟩ := (ends _ k₁ user call).returns
  rcases scheduleCall_cases objects ht' current call with ⟨timer, -⟩ | ⟨-, blocked⟩
  · rw [HasCause, read.call] at timer
    cases timer
  have pm₁ := blocked_processManager objects ht' current blocked
  have objects₁ : l.Objects k₁.processManager := pm₁ ▸ objects.setThreadState t'.thread .blocked
  obtain ⟨n, queued⟩ := objects₁.queued
  obtain ⟨m, thread, rfl, scheduled⟩ := Scheduler.schedule_spec objects₁.unlocked queued returns
  have frame : scheduleFrame fuel l.kernelTf k₁ =
      some ((k'.processManager.threads thread).trapFrame, k') := by simp [scheduleFrame, returns]
  obtain ⟨u, switched, eq⟩ := switched_of_scheduleFrame objects₁ frame
  rw [eq] at frame
  refine ⟨_, ⟨.trap occurs user ((handleInterrupt_of_scheduleCall call fuel).trans frame), ?_⟩, u,
    switched.mem, ?_, rfl⟩
  · rintro tf user' - - process found a bytes store
    obtain rfl : t'.trapFrame = tf := Option.some.inj (user.symm.trans user')
    rw [objects.getCurrentProcess_eq ht' current] at found
    obtain rfl := Option.some.inj found
    obtain ⟨p, found', blocks⟩ := read.blocks
    rw [objects.getCurrentProcess_eq ht' current] at found'
    obtain rfl := Option.some.inj found'
    rw [readStore_of_blocks _ blocks] at store
    cases store
  · have running := switched.running
    rw [pm₁, running_block_iff] at running
    exact running.1

end

/-! ## Processes with small tables -/

/-- The three page tables of a process, from `root` on: they send `0x1000` to its frame, for the
kernel only, and `0x5000` to itself. -/
structure SmallTables where
  root : Nat
  frame : Nat
  rootEntry : BitVec 64
  middleEntry : BitVec 64
  frameEntry : BitVec 64
  middle : (Memory.PageTableEntry.setValue rootEntry).isValid = true ∧
    (Memory.PageTableEntry.setValue rootEntry).isLeaf = false ∧
    (Memory.PageTableEntry.setValue rootEntry).getPpn.toNat = root + 0x1000
  leaf : (Memory.PageTableEntry.setValue middleEntry).isValid = true ∧
    (Memory.PageTableEntry.setValue middleEntry).isLeaf = false ∧
    (Memory.PageTableEntry.setValue middleEntry).getPpn.toNat = root + 0x2000
  page : (Memory.PageTableEntry.setValue frameEntry).isValid = true ∧
    (Memory.PageTableEntry.setValue frameEntry).getPpn.toNat = frame

namespace SmallTables

variable {w : SmallTables} {m m' : Memory}

def store (w : SmallTables) (m : Memory) : Memory :=
  let m := store64 m w.root w.rootEntry
  let m := store64 m (w.root + 0x1000) w.middleEntry
  let m := store64 m (w.root + 0x2008) w.frameEntry
  store64 m (w.root + 0x2028) 0x14d7

/-- The tables are in memory. -/
structure Loaded (w : SmallTables) (m : Memory) : Prop where
  root : load64 m w.root = w.rootEntry
  middle : load64 m (w.root + 0x1000) = w.middleEntry
  frame : load64 m (w.root + 0x2008) = w.frameEntry
  page : load64 m (w.root + 0x2028) = 0x14d7

theorem Loaded.congr (tables : w.Loaded m) (agree : AgreeOn (bytesAt w.root 0x3000) m m') :
    w.Loaded m' where
  root := by rw [agree.load64 (by omega) (by omega), tables.root]
  middle := by rw [agree.load64 (by omega) (by omega), tables.middle]
  frame := by rw [agree.load64 (by omega) (by omega), tables.frame]
  page := by rw [agree.load64 (by omega) (by omega), tables.page]

theorem store_loaded (w : SmallTables) (m : Memory) : w.Loaded (w.store m) where
  root := by
    rw [store, load64_store64_of_disjoint _ _ (by omega),
      load64_store64_of_disjoint _ _ (by omega), load64_store64_of_disjoint _ _ (by omega),
      load64_store64]
  middle := by
    rw [store, load64_store64_of_disjoint _ _ (by omega),
      load64_store64_of_disjoint _ _ (by omega), load64_store64]
  frame := by rw [store, load64_store64_of_disjoint _ _ (by omega), load64_store64]
  page := load64_store64 _ _ _

theorem store_apply_of_outside (w : SmallTables) (m : Memory) {x : Nat}
    (outside : x < w.root ∨ w.root + 0x3000 ≤ x) : w.store m x = m x := by
  rw [store, store64_apply_of_outside _ _ (by omega), store64_apply_of_outside _ _ (by omega),
    store64_apply_of_outside _ _ (by omega), store64_apply_of_outside _ _ (by omega)]

/-- The lowest two megabytes are translated by the last table. -/
theorem Loaded.translate_eq (tables : w.Loaded m) {address : Memory.VirtualAddress}
    (vpn2 : address.vpn2 = 0) (vpn1 : address.vpn1 = 0) :
    Memory.translate m w.root address =
      if !(Memory.loadEntry m (Memory.entryAddress (w.root + 0x2000) address.vpn0)).isValid then
        .error "Third entry is not valid"
      else .ok (.ofU64 ((Memory.loadEntry m (Memory.entryAddress (w.root + 0x2000)
        address.vpn0)).getPpn ||| address.offset.setWidth 64)) := by
  have first : Memory.loadEntry m (Memory.entryAddress w.root address.vpn2) =
      .setValue w.rootEntry := by
    rw [vpn2]
    exact congrArg _ tables.root
  have second : Memory.loadEntry m (Memory.entryAddress (w.root + 0x1000) address.vpn1) =
      .setValue w.middleEntry := by
    rw [vpn1]
    exact congrArg _ tables.middle
  simp only [Memory.translate, first, w.middle, second, w.leaf]
  rfl

theorem Loaded.translate (tables : w.Loaded m) {address : Memory.VirtualAddress}
    (vpn2 : address.vpn2 = 0) (vpn1 : address.vpn1 = 0) {entry : BitVec 64}
    (leaf : load64 m (Memory.entryAddress (w.root + 0x2000) address.vpn0) = entry)
    (valid : (Memory.PageTableEntry.setValue entry).isValid = true) :
    Memory.translate m w.root address = .ok (.ofU64
      ((Memory.PageTableEntry.setValue entry).getPpn ||| address.offset.setWidth 64)) := by
  rw [tables.translate_eq vpn2 vpn1, Memory.loadEntry, leaf, valid]
  rfl

/-- The process can pass the page at `0x5000`. -/
theorem Loaded.mapped (tables : w.Loaded m) :
    ∃ address, Memory.translate m w.root (.ofU64 0x5000) = .ok address := by
  have leaf : load64 m (Memory.entryAddress (w.root + 0x2000)
      (Memory.VirtualAddress.ofU64 0x5000).vpn0) = 0x14d7 := tables.page
  exact ⟨_, tables.translate (by decide) (by decide) leaf (by decide)⟩

theorem Loaded.userspaceGet {k : Kernel} (loaded : w.Loaded k.memory) {process : Nat}
    (root : (k.processManager.processes process).pageTable = w.root) :
    ∃ address, k.userspaceGet process 0x5000 = some address := by
  obtain ⟨address, translated⟩ := loaded.mapped
  refine ⟨address.getValue.toNat, ?_⟩
  rw [Kernel.userspaceGet, root, translated]

end SmallTables

/-- The page tables of each process are small, and beside all frames. -/
structure Layout.Small (l : Layout) (tables : Task → SmallTables) : Prop where
  root : ∀ t ∈ l.tasks, (tables t).root = t.pageTable
  frames : ∀ t ∈ l.tasks, ∀ u ∈ l.tasks, ∀ x, bytesAt (tables t).root 0x3000 x →
    x < u.trapFrame ∨ u.trapFrame + TrapFrame.SIZE ≤ x
  kernelFrame : ∀ t ∈ l.tasks, ∀ x, bytesAt (tables t).root 0x3000 x →
    x < l.kernelTf ∨ l.kernelTf + KernelTrapFrame.SIZE ≤ x

section Small

variable {l : Layout} {tables : Task → SmallTables} {h : Hart} {t : Task}

/-- What is stored in the frame of a process leaves its tables. -/
theorem Layout.Small.mapped (small : l.Small tables) (ht : t ∈ l.tasks) {m m' : Memory}
    (loaded : (tables t).Loaded m)
    (same : ∀ x, x < t.trapFrame ∨ t.trapFrame + TrapFrame.SIZE ≤ x → m' x = m x) :
    ∃ address, Memory.translate m' t.pageTable (.ofU64 0x5000) = .ok address := by
  rw [← small.root t ht]
  exact (loaded.congr fun x inside => same x (small.frames t ht t ht x inside)).mapped

/-- The first switch to a process, and its opening of a file. -/
theorem exists_start_open (initial : l.Initial h) (nonempty : l.tasks ≠ []) (small : l.Small tables)
    (loaded : ∀ t ∈ l.tasks, (tables t).Loaded h.kernel.memory)
    (noFiles : ∀ t ∈ l.tasks, (h.kernel.processManager.processes t.process).fdTable = .empty)
    (file : File) : ∃ h₁ h₂, ∃ t ∈ l.tasks, l.CleanStep h .start h₁ ∧
      l.CleanStep h₁ (.trap (openFile h₁ file 0x5000)) h₂ ∧ h₁.current = some t.trapFrame ∧
      h₂.current = some t.trapFrame ∧ (∀ u ∈ l.tasks, (tables u).Loaded h₂.kernel.memory) ∧
      (h₂.kernel.processManager.processes t.process).fdTable.descriptor 0 = some (some file) ∧
      h₂.kernel.console = h.kernel.console ∧
      h₂.kernel.processManager.threads = h.kernel.processManager.threads := by
  obtain ⟨h₁, started, t, ht, user₁, rotated, console₁, kept₁⟩ :=
    exists_start initial.inv initial.current (by simpa [initial.objects.listed] using nonempty)
  have inv₁ := inv_step initial.inv started
  have tables₁ : ∀ u ∈ l.tasks, (tables u).Loaded h₁.kernel.memory := fun u hu =>
    (loaded u hu).congr (kept₁ _ (fun v hv => small.frames u hu v hv) (small.kernelFrame u hu))
  have free : (h₁.kernel.processManager.processes t.process).fdTable.openDescriptor file =
      (.ok 0, FileSystem.FileDescriptorTable.mk (some file :: List.replicate 255 none)) := by
    obtain ⟨_, _, eq⟩ := rotated
    rw [eq]
    simp only [noFiles t ht]
    rfl
  obtain ⟨h₂, opened, user₂, console₂, fdTable₂, threads₂, kept₂⟩ :=
    exists_open inv₁ ht user₁ 0x5000 free (fun m' same => small.mapped ht (tables₁ t ht) same)
  refine ⟨h₁, h₂, t, ht, started, opened, user₁, user₂, fun u hu => (tables₁ u hu).congr fun x inside =>
    kept₂ x (small.frames u hu t ht x inside), ?_, console₂.trans console₁,
    threads₂.trans rotated.threads⟩
  rw [fdTable₂]
  rfl

end Small

/-! ## A process alone -/

def loneTables : SmallTables :=
  ⟨0x2000, 0x10000, 0xc01, 0x1001, 0x40c7, by decide, by decide, by decide⟩

@[simp] theorem loneTables_root : loneTables.root = 0x2000 := rfl

/-- One process, whose page tables lie from `0x2000` on. -/
def lone : Layout where
  kernelTf := 0x20000
  tasks := [{ process := 0x100, thread := 0x200, trapFrame := 0x10000, pageTable := 0x2000, pid := 1,
              satp := buildSatp SATP_SV39 1 0x2000 }]
  kernelMemory := fun x => bytesAt 0x10000 TrapFrame.SIZE x ∨ bytesAt 0x20000 KernelTrapFrame.SIZE x ∨
    bytesAt 0x2000 0x3000 x
  framesOwned := by simp +contextual
  kernelFrameOwned := by simp +contextual
  framesApart := by simp
  kernelFrameApart := by simp [TrapFrame.SIZE]
  processesDistinct := by simp
  threadsDistinct := by simp
  pidsDistinct := by simp

def loneTask : Task :=
  { process := 0x100, thread := 0x200, trapFrame := 0x10000, pageTable := 0x2000, pid := 1,
    satp := buildSatp SATP_SV39 1 0x2000 }

theorem loneTask_mem : loneTask ∈ lone.tasks := List.mem_singleton_self _

def loneHart : Hart where
  kernel := {
    memory := initKernelTrapFrame (initializeThread (loneTables.store fun _ => 0) 0x10000 0x80000000
      (buildSatp SATP_SV39 1 0x2000)) 0x20000 0 0x9000 (buildSatp SATP_SV39 0 0x7000)
    processManager := {
      runQueue := { head := some 0x300, tail := some 0x300 }
      processList := [0x100]
      processListLock := 0
      pidCounter := 2
      queueElements := fun a => if a = 0x300 then some ⟨0x200, none⟩ else none
      threads := fun _ => { trapFrame := 0x10000, tid := 0, pid := 1, state := .running }
      processes := fun _ =>
        { pid := 1, pageTable := 0x2000, state := .running, fdTable := .empty, threads := [0x200] } }
    console := { driver := some { buffer := [], lines := [] }, requests := [] } }
  current := none
  satp := buildSatp SATP_SV39 0 0x7000

theorem lone_initial : lone.Initial loneHart where
  objects := {
    unlocked := rfl
    queued := ⟨0, [(0x300, 0x200)],
      { chain := ⟨rfl, none, rfl, rfl⟩, distinct := by decide, last := rfl }, rfl⟩
    listed := rfl
    process := by simp [lone, loneHart]
    thread := by simp [lone, loneHart] }
  current := rfl
  running := by simp [lone, loneHart, ProcessManager.Running]

/-- The frames are beside the tables. -/
theorem loneHart_tables : loneTables.Loaded loneHart.kernel.memory :=
  (loneTables.store_loaded _).congr fun x inside => by
    change 0x2000 ≤ x ∧ x < 0x2000 + 0x3000 at inside
    exact (initKernelTrapFrame_apply_of_outside _ _ _ _ (by omega)).trans
      (initializeThread_apply_of_outside _ _ _ (by omega))

/-- A read of the console without a line puts the only thread to sleep. -/
theorem lone_read {h : Hart} (inv : lone.Inv h) (user : h.current = some 0x10000)
    (tables : loneTables.Loaded h.kernel.memory)
    (file : (h.kernel.processManager.processes 0x100).fdTable.descriptor 0 = some (some .console))
    (noLine : ∀ driver ∈ h.kernel.console.driver, driver.lines = []) :
    ¬ lone.ScheduleEnds h (.trap (readConsole h)) := by
  intro ends
  have occurs : (Event.trap (readConsole h)).Occurs lone.kernelMemory h :=
    systemCall_occurs (by simp [user])
  have read := @blockingRead_readConsole lone loneTask h inv loneTask_mem user file
    (fun m' same => (tables.congr fun x inside => same x (.inl (by
      simp only [bytesAt, loneTables, loneTask] at inside ⊢
      omega))).mapped) noLine
  obtain ⟨h', -, u, hu, ne, -⟩ := exists_blocked inv loneTask_mem user occurs read ends
  obtain rfl := List.mem_singleton.1 hu
  exact ne rfl

theorem lone_small : lone.Small fun _ => loneTables where
  root := by simp [lone, loneTables]
  frames t _ u hu x inside := by
    obtain rfl := List.mem_singleton.1 hu
    simp only [loneTables_root, bytesAt] at inside
    simp only
    omega
  kernelFrame t _ x inside := by
    simp only [loneTables_root, bytesAt] at inside
    simp only [lone]
    omega

/-- The process runs, and has opened a file. -/
theorem lone_open (file : File) : ∃ h₁ h₂, lone.CleanStep loneHart .start h₁ ∧
    lone.CleanStep h₁ (.trap (openFile h₁ file 0x5000)) h₂ ∧ h₁.current = some 0x10000 ∧
    h₂.current = some 0x10000 ∧ loneTables.Loaded h₂.kernel.memory ∧
    (h₂.kernel.processManager.processes 0x100).fdTable.descriptor 0 = some (some file) ∧
    h₂.kernel.console = loneHart.kernel.console := by
  obtain ⟨h₁, h₂, t, ht, started, opened, user₁, user₂, tables, opens, console, -⟩ :=
    exists_start_open lone_initial (by simp [lone]) lone_small (fun _ _ => loneHart_tables)
      (fun _ _ => rfl) file
  obtain rfl := List.mem_singleton.1 ht
  exact ⟨h₁, h₂, started, opened, user₁, user₂, tables _ ht, opens, console⟩

/-- A process that opens the console and reads from it before a line is typed sends `schedule`
round forever. -/
theorem schedule_never_ends : ∃ es h e, Transition.Run lone.CleanStep loneHart es h ∧
    e.Occurs lone.kernelMemory h ∧ ¬ lone.ScheduleEnds h e := by
  obtain ⟨h₁, h₂, started, opened, -, user, tables, file, console⟩ := lone_open .console
  have inv := inv_step (inv_step lone_initial.inv started) opened
  refine ⟨_, h₂, .trap (readConsole h₂), .cons started (.cons opened (.nil _)),
    systemCall_occurs (by simp [user]), lone_read inv user tables file ?_⟩
  rw [console]
  rintro driver ⟨⟩
  rfl

/-! ## Two processes -/

def otherTables : SmallTables :=
  ⟨0x8000, 0x11000, 0x2401, 0x2801, 0x44c7, by decide, by decide, by decide⟩

@[simp] theorem otherTables_root : otherTables.root = 0x8000 := rfl

def otherTask : Task :=
  { process := 0x101, thread := 0x201, trapFrame := 0x11000, pageTable := 0x8000, pid := 2,
    satp := buildSatp SATP_SV39 1 0x8000 }

/-- The process from before and a second one, with page tables from `0x8000` on. -/
def pair : Layout where
  kernelTf := 0x20000
  tasks := [loneTask, otherTask]
  kernelMemory := fun x => bytesAt 0x10000 TrapFrame.SIZE x ∨ bytesAt 0x11000 TrapFrame.SIZE x ∨
    bytesAt 0x20000 KernelTrapFrame.SIZE x ∨ bytesAt 0x2000 0x3000 x ∨ bytesAt 0x8000 0x3000 x
  framesOwned := by simp +contextual [loneTask, otherTask]
  kernelFrameOwned := by simp +contextual
  framesApart := by simp [loneTask, otherTask, TrapFrame.SIZE]
  kernelFrameApart := by simp [loneTask, otherTask, TrapFrame.SIZE]
  processesDistinct := by simp [loneTask, otherTask]
  threadsDistinct := by simp [loneTask, otherTask]
  pidsDistinct := by simp [loneTask, otherTask]

def pairHart : Hart where
  kernel := {
    memory := initKernelTrapFrame (initializeThread (initializeThread
      (otherTables.store (loneTables.store fun _ => 0)) 0x10000 0x80000000 (buildSatp SATP_SV39 1 0x2000))
      0x11000 0x80000010 (buildSatp SATP_SV39 1 0x8000)) 0x20000 0 0x9000 (buildSatp SATP_SV39 0 0x7000)
    processManager := {
      runQueue := { head := some 0x300, tail := some 0x310 }
      processList := [0x100, 0x101]
      processListLock := 0
      pidCounter := 3
      queueElements := fun a =>
        if a = 0x300 then some ⟨0x200, some 0x310⟩ else if a = 0x310 then some ⟨0x201, none⟩ else none
      threads := fun a =>
        if a = 0x200 then { trapFrame := 0x10000, tid := 0, pid := 1, state := .running }
        else { trapFrame := 0x11000, tid := 0, pid := 2, state := .running }
      processes := fun a =>
        if a = 0x100 then
          { pid := 1, pageTable := 0x2000, state := .running, fdTable := .empty, threads := [0x200] }
        else
          { pid := 2, pageTable := 0x8000, state := .running, fdTable := .empty, threads := [0x201] } }
    console := { driver := some { buffer := [], lines := [] }, requests := [] } }
  current := none
  satp := buildSatp SATP_SV39 0 0x7000

theorem pair_initial : pair.Initial pairHart where
  objects := {
    unlocked := rfl
    queued := ⟨0, [(0x300, 0x200), (0x310, 0x201)],
      { chain := ⟨rfl, _, rfl, rfl, none, rfl, rfl⟩, distinct := by decide, last := rfl }, rfl⟩
    listed := rfl
    process := by simp [pair, pairHart, loneTask, otherTask]
    thread := by simp [pair, pairHart, loneTask, otherTask] }
  current := rfl
  running := by simp [pair, pairHart, loneTask, otherTask, ProcessManager.Running]

def pairTables (t : Task) : SmallTables := if t.pid = 1 then loneTables else otherTables

theorem pairHart_memory {x : Nat} (low : x < 0x10000) :
    pairHart.kernel.memory x = otherTables.store (loneTables.store fun _ => 0) x :=
  (initKernelTrapFrame_apply_of_outside _ _ _ _ (by omega)).trans
    ((initializeThread_apply_of_outside _ _ _ (by omega)).trans
      (initializeThread_apply_of_outside _ _ _ (by omega)))

theorem pairTables_root {t : Task} (ht : t ∈ pair.tasks) :
    (pairTables t).root = t.pageTable ∧ 0x2000 ≤ t.pageTable ∧ t.pageTable + 0x3000 ≤ 0x10000 ∧
      0x10000 ≤ t.trapFrame ∧ t.trapFrame + TrapFrame.SIZE ≤ 0x20000 := by
  simp only [pair, List.mem_cons, List.not_mem_nil, or_false] at ht
  rcases ht with rfl | rfl
  · decide
  · decide

theorem pairHart_loaded : ∀ t ∈ pair.tasks, (pairTables t).Loaded pairHart.kernel.memory := by
  simp only [pair, List.mem_cons, List.not_mem_nil, or_false]
  rintro t (rfl | rfl)
  · refine (loneTables.store_loaded fun _ => 0).congr fun x inside => ?_
    simp only [loneTables_root, bytesAt] at inside
    rw [pairHart_memory (by omega)]
    exact otherTables.store_apply_of_outside _ (.inl (by simp only [otherTables_root]; omega))
  · refine (otherTables.store_loaded _).congr fun x inside => pairHart_memory ?_
    simp only [otherTables_root, bytesAt] at inside
    omega

theorem pair_small : pair.Small pairTables where
  root t ht := (pairTables_root ht).1
  frames t ht u hu x inside := by
    obtain ⟨root, -, high, -⟩ := pairTables_root ht
    have frame := (pairTables_root hu).2.2.2
    simp only [root, bytesAt] at inside
    omega
  kernelFrame t ht x inside := by
    obtain ⟨root, -, high, -⟩ := pairTables_root ht
    simp only [root, bytesAt] at inside
    simp only [pair]
    omega

/-- One of the two opens the console. -/
theorem pair_open : ∃ h₁ h₂, ∃ t ∈ pair.tasks, pair.CleanStep pairHart .start h₁ ∧
    pair.CleanStep h₁ (.trap (openFile h₁ .console 0x5000)) h₂ ∧ h₂.current = some t.trapFrame ∧
    BlockingRead pair.kernelTf ((readConsole h₂).saved h₂ t.trapFrame) t.trapFrame ∧
    pair.OtherRunning h₂ (.trap (readConsole h₂)) := by
  obtain ⟨h₁, h₂, t, ht, started, opened, -, user, tables, opens, console, threads⟩ :=
    exists_start_open pair_initial (by simp [pair]) pair_small pairHart_loaded
      (by simp [pair, pairHart, loneTask, otherTask]) .console
  have inv := inv_step (inv_step pair_initial.inv started) opened
  refine ⟨h₁, h₂, t, ht, started, opened, user, ?_, ?_⟩
  · refine blockingRead_readConsole inv ht user opens
      (fun m' same => pair_small.mapped ht (tables t ht) same) ?_
    rw [console]
    rintro driver ⟨⟩
    rfl
  · obtain ⟨u, hu, ne⟩ : ∃ u ∈ pair.tasks, u.thread ≠ t.thread := by
      simp only [pair, List.mem_cons, List.not_mem_nil, or_false] at ht
      rcases ht with rfl | rfl
      · exact ⟨otherTask, by simp [pair], by decide⟩
      · exact ⟨loneTask, by simp [pair], by decide⟩
    refine otherRunning_of_running inv ht user (systemCall_occurs (by simp [user])) hu ne ?_
    rw [ProcessManager.Running, threads]
    exact pair_initial.running u hu

/-- It reads before a line is typed, and the hart switches to the other. -/
theorem pair_switch : ∃ h₁ h₂ h₃, ∃ t ∈ pair.tasks, ∃ u ∈ pair.tasks, u.thread ≠ t.thread ∧
    Transition.Run pair.CleanStep pairHart
      [.start, .trap (openFile h₁ .console 0x5000), .trap (readConsole h₂)] h₃ ∧
    h₂.current = some t.trapFrame ∧ h₃.current = some u.trapFrame := by
  obtain ⟨h₁, h₂, t, ht, started, opened, user, read, other⟩ := pair_open
  have inv := inv_step (inv_step pair_initial.inv started) opened
  have occurs : (Event.trap (readConsole h₂)).Occurs pair.kernelMemory h₂ :=
    systemCall_occurs (by simp [user])
  obtain ⟨h₃, blocked, u, hu, ne, user₃⟩ :=
    exists_blocked inv ht user occurs read ((scheduleEnds_iff inv occurs).2 other)
  exact ⟨h₁, h₂, h₃, t, ht, u, hu, ne, .cons started (.cons opened (.cons blocked (.nil _))), user,
    user₃⟩

/-- A process that reads from the console before a line is typed leaves the hart to the other. -/
theorem schedule_ends_iff_pair : ∃ h₁ h₂, ∃ t ∈ pair.tasks,
    Transition.Run pair.CleanStep pairHart [.start, .trap (openFile h₁ .console 0x5000)] h₂ ∧
    BlockingRead pair.kernelTf ((readConsole h₂).saved h₂ t.trapFrame) t.trapFrame ∧
    pair.ScheduleEnds h₂ (.trap (readConsole h₂)) := by
  obtain ⟨h₁, h₂, t, ht, started, opened, user, read, other⟩ := pair_open
  have run : Transition.Run pair.CleanStep pairHart [.start, .trap (openFile h₁ .console 0x5000)] h₂ :=
    .cons started (.cons opened (.nil _))
  exact ⟨h₁, h₂, t, ht, run, read,
    (schedule_ends_iff pair_initial run (systemCall_occurs (by simp [user]))).2 other⟩

end MatteOS.Traps
