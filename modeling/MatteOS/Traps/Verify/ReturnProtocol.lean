import MatteOS.Traps.Verify.Scheduling

/-!
# The return protocol of system calls

The caller of a system call tells its outcome from `a0` and from where it goes on
(`FollowsProtocol`). A call outside the table returns as if it had succeeded, with the `a0`
of the caller; a read may overwrite the registers that are saved in the frame; and a call that
blocks needs another thread to return to. `handle_system_call` follows the protocol exactly in
the other cases (`followsProtocol_iff`).
-/

namespace MatteOS.Traps

open ByteMemory Processes

/-- The outcome of a call: that of its handler, or a failure outside the table. `none` is a handler
that never comes back. -/
def syscallOutcome (kernelTf process tf : Nat) (answer : Answer) (k : Kernel) :
    Option (Except SysError (BitVec 64)) :=
  if 10 ≤ (syscallId k tf).toNat then some (.error .error)
  else (syscallHandler kernelTf process (syscallId k tf).toNat (syscallArg k tf) answer k).map
    Prod.fst

/-- The caller goes on after its call, with `value` in `a0`. -/
structure Answered (k : Kernel) (tf : Nat) (value : BitVec 64) (next : Nat) (k' : Kernel) :
    Prop where
  frame : next = tf
  a0 : load64 k'.memory (TrapFrame.regs tf 10) = value
  x : ∀ i < 32, i ≠ 10 →
    load64 k'.memory (TrapFrame.regs tf i) = load64 k.memory (TrapFrame.regs tf i)
  sepc : load64 k'.memory (TrapFrame.sepc tf) = load64 k.memory (TrapFrame.sepc tf) + 4

/-- The caller waits at its call, and a thread that can run goes on. -/
structure Suspended (l : Layout) (t : Task) (k : Kernel) (next : Nat) (k' : Kernel) : Prop where
  blocked : (k'.processManager.threads t.thread).state = .blocked
  other : ∃ u ∈ l.tasks, u ≠ t ∧ next = u.trapFrame ∧ k'.processManager.Running u.thread
  x : ∀ i < 32,
    load64 k'.memory (TrapFrame.regs t.trapFrame i) = load64 k.memory (TrapFrame.regs t.trapFrame i)
  sepc : load64 k'.memory (TrapFrame.sepc t.trapFrame) =
    load64 k.memory (TrapFrame.sepc t.trapFrame)

/-- `handle_system_call` returns, and in any case as `post` says. -/
def Returns (l : Layout) (t : Task) (k : Kernel) (answer : Answer) (post : Nat → Kernel → Prop) :
    Prop :=
  (∃ fuel, (handleSystemCall fuel l.kernelTf t.trapFrame k answer).isSome) ∧
    ∀ fuel next k', handleSystemCall fuel l.kernelTf t.trapFrame k answer = some (next, k') →
      post next k'

/-- The return protocol, for each outcome of the call. -/
def FollowsProtocol (l : Layout) (t : Task) (k : Kernel) (answer : Answer) :
    Except SysError (BitVec 64) → Prop
  | .ok value => Returns l t k answer (Answered k t.trapFrame value)
  | .error .error => Returns l t k answer (Answered k t.trapFrame (-1))
  | .error .blocked => Returns l t k answer (Suspended l t k)

/-- What the protocol rests on. -/
structure KeepsProtocol (l : Layout) (t : Task) (k : Kernel) (answer : Answer) : Prop where
  /-- The call is in the table, or `a0` says already that it failed. -/
  known : (syscallId k t.trapFrame).toNat < 10 ∨
    load64 k.memory (TrapFrame.regs t.trapFrame 10) = -1
  /-- A read stores nothing over the saved registers. -/
  kept : (syscallId k t.trapFrame).toNat = 3 → ∀ a bytes,
    Process.readStore t.process k ((syscallArg k t.trapFrame 0).setWidth 32)
      (syscallArg k t.trapFrame 1) (syscallArg k t.trapFrame 2) answer = some (a, bytes) →
    (∀ i < 32, i ≠ 10 → load64 (storeBytes k.memory a bytes) (TrapFrame.regs t.trapFrame i) =
      load64 k.memory (TrapFrame.regs t.trapFrame i)) ∧
    load64 (storeBytes k.memory a bytes) (TrapFrame.sepc t.trapFrame) =
      load64 k.memory (TrapFrame.sepc t.trapFrame)
  /-- A read that blocks leaves another thread running. -/
  other : (syscallId k t.trapFrame).toNat = 3 →
    Process.Blocks t.process k ((syscallArg k t.trapFrame 0).setWidth 32)
      (syscallArg k t.trapFrame 1) →
    ∃ u ∈ l.tasks, u ≠ t ∧ k.processManager.Running u.thread

/-- The value of `a0` after a call that does not block. -/
def outcomeValue : Except SysError (BitVec 64) → BitVec 64
  | .ok value => value
  | .error _ => -1

section

variable {l : Layout} {t : Task} {k k₁ : Kernel} {answer : Answer}
  {outcome : Except SysError (BitVec 64)}

theorem followsProtocol_of_ne (ne : outcome ≠ .error .blocked) :
    FollowsProtocol l t k answer outcome ↔
      Returns l t k answer (Answered k t.trapFrame (outcomeValue outcome)) :=
  match outcome with
  | .ok _ | .error .error => Iff.rfl
  | .error .blocked => absurd rfl ne

/-! ## The ways through `handle_system_call` -/

theorem handleSystemCall_eq (objects : l.Objects k.processManager) (ht : t ∈ l.tasks)
    (current : l.Current k.memory t) (answer : Answer) (fuel : Nat) :
    handleSystemCall fuel l.kernelTf t.trapFrame k answer =
      (syscallResult l.kernelTf t.trapFrame answer k).bind fun p =>
        match p.1 with
        | .error .blocked => scheduleFrame fuel l.kernelTf p.2
        | _ => some (t.trapFrame, { p.2 with
            memory := store64 p.2.memory (TrapFrame.sepc t.trapFrame)
              (load64 p.2.memory (TrapFrame.sepc t.trapFrame) + 4) }) := by
  simp only [handleSystemCall, objects.getCurrentThread_eq ht current,
    objects.getCurrentProcess_eq ht current, (objects.thread t ht).1, Option.bind_eq_bind,
    Option.bind_some, syscallResult, syscallId]
  rfl

theorem handleSystemCall_unknown (objects : l.Objects k.processManager) (ht : t ∈ l.tasks)
    (current : l.Current k.memory t) (unknown : 10 ≤ (syscallId k t.trapFrame).toNat)
    (answer : Answer) (fuel : Nat) :
    handleSystemCall fuel l.kernelTf t.trapFrame k answer = some (t.trapFrame, { k with
      memory := store64 k.memory (TrapFrame.sepc t.trapFrame)
        (load64 k.memory (TrapFrame.sepc t.trapFrame) + 4) }) := by
  rw [handleSystemCall_eq objects ht current, syscallResult, handleSyscall, if_pos unknown]
  rfl

theorem syscallResult_of_handler (objects : l.Objects k.processManager) (ht : t ∈ l.tasks)
    (current : l.Current k.memory t) (known : (syscallId k t.trapFrame).toNat < 10)
    (handled : syscallHandler l.kernelTf t.process (syscallId k t.trapFrame).toNat
      (syscallArg k t.trapFrame) answer k = some (outcome, k₁)) :
    syscallResult l.kernelTf t.trapFrame answer k =
      match outcome with
      | .error .blocked => some (.error .blocked, k₁)
      | _ => some (.ok (), { k₁ with
          memory := store64 k₁.memory (TrapFrame.regs t.trapFrame 10) (outcomeValue outcome) }) := by
  have handled' : syscallHandler l.kernelTf t.process (syscallId k t.trapFrame).toNat
      (fun i => load64 k.memory (TrapFrame.regs t.trapFrame (10 + i))) answer k =
      some (outcome, k₁) := handled
  simp only [syscallResult, handleSyscall, objects.getCurrentThread_eq ht current,
    objects.getCurrentProcess_eq ht current, (objects.thread t ht).1, Option.bind_eq_bind,
    Option.bind_some]
  rw [if_neg (Nat.not_le_of_lt known), handled']
  rcases outcome with (_ | _) | value <;> rfl

theorem handleSystemCall_completed (objects : l.Objects k.processManager) (ht : t ∈ l.tasks)
    (current : l.Current k.memory t) (known : (syscallId k t.trapFrame).toNat < 10)
    (handled : syscallHandler l.kernelTf t.process (syscallId k t.trapFrame).toNat
      (syscallArg k t.trapFrame) answer k = some (outcome, k₁))
    (ne : outcome ≠ .error .blocked) (fuel : Nat) :
    handleSystemCall fuel l.kernelTf t.trapFrame k answer = some (t.trapFrame, { k₁ with
      memory := returnValue t.trapFrame (outcomeValue outcome) k₁.memory }) := by
  rw [handleSystemCall_eq objects ht current,
    syscallResult_of_handler objects ht current known handled]
  rcases outcome with (_ | _) | value
  · rfl
  · exact absurd rfl ne
  · rfl

theorem handleSystemCall_blocked (objects : l.Objects k.processManager) (ht : t ∈ l.tasks)
    (current : l.Current k.memory t) (known : (syscallId k t.trapFrame).toNat < 10)
    (handled : syscallHandler l.kernelTf t.process (syscallId k t.trapFrame).toNat
      (syscallArg k t.trapFrame) answer k = some (.error .blocked, k₁)) (fuel : Nat) :
    handleSystemCall fuel l.kernelTf t.trapFrame k answer = scheduleFrame fuel l.kernelTf k₁ := by
  rw [handleSystemCall_eq objects ht current,
    syscallResult_of_handler objects ht current known handled]
  rfl

/-! ## Calls outside the table -/

theorem returns_of_eq {next : Nat} {k' : Kernel} {post : Nat → Kernel → Prop}
    (eq : ∀ fuel, handleSystemCall fuel l.kernelTf t.trapFrame k answer = some (next, k')) :
    Returns l t k answer post ↔ post next k' := by
  constructor
  · rintro ⟨-, post⟩
    exact post 0 next k' (eq 0)
  · intro holds
    refine ⟨⟨0, by rw [eq]; rfl⟩, fun fuel next' k'' returned => ?_⟩
    rw [eq] at returned
    cases returned
    exact holds

theorem answered_unknown_iff {value : BitVec 64} :
    Answered k t.trapFrame value t.trapFrame { k with
      memory := store64 k.memory (TrapFrame.sepc t.trapFrame)
        (load64 k.memory (TrapFrame.sepc t.trapFrame) + 4) } ↔
      load64 k.memory (TrapFrame.regs t.trapFrame 10) = value := by
  have same : ∀ i < 32, load64 (store64 k.memory (TrapFrame.sepc t.trapFrame)
      (load64 k.memory (TrapFrame.sepc t.trapFrame) + 4)) (TrapFrame.regs t.trapFrame i) =
      load64 k.memory (TrapFrame.regs t.trapFrame i) := fun i bound =>
    load64_store64_of_disjoint _ _ (by simp only [TrapFrame.regs, TrapFrame.sepc]; omega)
  constructor
  · intro answered
    rw [← same 10 (by omega)]
    exact answered.a0
  · intro a0
    exact ⟨rfl, (same 10 (by omega)).trans a0, fun i bound _ => same i bound, load64_store64 _ _ _⟩

/-! ## Calls that complete -/

theorem answered_completed_iff (value : BitVec 64) :
    Answered k t.trapFrame value t.trapFrame
        { k₁ with memory := returnValue t.trapFrame value k₁.memory } ↔
      (∀ i < 32, i ≠ 10 → load64 k₁.memory (TrapFrame.regs t.trapFrame i) =
        load64 k.memory (TrapFrame.regs t.trapFrame i)) ∧
      load64 k₁.memory (TrapFrame.sepc t.trapFrame) =
        load64 k.memory (TrapFrame.sepc t.trapFrame) := by
  have x : ∀ i < 32, i ≠ 10 → load64 (returnValue t.trapFrame value k₁.memory)
      (TrapFrame.regs t.trapFrame i) = load64 k₁.memory (TrapFrame.regs t.trapFrame i) :=
    fun i bound ne => load64_returnValue_of_disjoint _ _ _
      (by simp only [TrapFrame.regs]; omega) (by simp only [TrapFrame.regs, TrapFrame.sepc]; omega)
  have a0 : load64 (returnValue t.trapFrame value k₁.memory) (TrapFrame.regs t.trapFrame 10) =
      value := by
    rw [returnValue, load64_store64_of_disjoint _ _ (by
      simp only [TrapFrame.regs, TrapFrame.sepc]; omega), load64_store64]
  have sepc : load64 (returnValue t.trapFrame value k₁.memory) (TrapFrame.sepc t.trapFrame) =
      load64 k₁.memory (TrapFrame.sepc t.trapFrame) + 4 := by
    rw [returnValue, load64_store64, load64_store64_of_disjoint _ _ (by
      simp only [TrapFrame.regs, TrapFrame.sepc]; omega)]
  constructor
  · intro answered
    refine ⟨fun i bound ne => ?_, ?_⟩
    · rw [← x i bound ne]
      exact answered.x i bound ne
    · have advanced := answered.sepc
      rw [sepc] at advanced
      exact (BitVec.add_left_inj _).1 advanced
  · rintro ⟨kept, kept'⟩
    exact ⟨rfl, a0, fun i bound ne => (x i bound ne).trans (kept i bound ne),
      sepc.trans (by rw [kept'])⟩

/-- What a completed call leaves of the saved registers. -/
theorem completed_kept_iff (completed : Completed t.process (syscallId k t.trapFrame).toNat
      (syscallArg k t.trapFrame) answer k k₁) :
    ((∀ i < 32, i ≠ 10 → load64 k₁.memory (TrapFrame.regs t.trapFrame i) =
        load64 k.memory (TrapFrame.regs t.trapFrame i)) ∧
      load64 k₁.memory (TrapFrame.sepc t.trapFrame) =
        load64 k.memory (TrapFrame.sepc t.trapFrame)) ↔
    ((syscallId k t.trapFrame).toNat = 3 → ∀ a bytes,
      Process.readStore t.process k ((syscallArg k t.trapFrame 0).setWidth 32)
        (syscallArg k t.trapFrame 1) (syscallArg k t.trapFrame 2) answer = some (a, bytes) →
      (∀ i < 32, i ≠ 10 → load64 (storeBytes k.memory a bytes) (TrapFrame.regs t.trapFrame i) =
        load64 k.memory (TrapFrame.regs t.trapFrame i)) ∧
      load64 (storeBytes k.memory a bytes) (TrapFrame.sepc t.trapFrame) =
        load64 k.memory (TrapFrame.sepc t.trapFrame)) := by
  rw [completed.memory, readMemory]
  by_cases read : (syscallId k t.trapFrame).toNat = 3
  · rw [if_pos read]
    cases store : Process.readStore t.process k ((syscallArg k t.trapFrame 0).setWidth 32)
      (syscallArg k t.trapFrame 1) (syscallArg k t.trapFrame 2) answer with
    | none =>
      refine ⟨fun _ _ a bytes found => ?_, fun _ => ⟨fun _ _ _ => rfl, rfl⟩⟩
      cases found
    | some stored =>
      constructor
      · rintro kept - a bytes found
        cases found
        exact kept
      · exact fun kept => kept read _ _ rfl
  · rw [if_neg read]
    exact ⟨fun _ three => absurd three read, fun _ => ⟨fun _ _ _ => rfl, rfl⟩⟩

/-! ## Calls that block -/

theorem readStore_of_blocks {process : Nat} {fd : BitVec 32} {buffer size : BitVec 64}
    (blocks : Process.Blocks process k fd buffer) :
    Process.readStore process k fd buffer size answer = none := by
  unfold Process.readStore
  split
  · rename_i found
    obtain ⟨_, _, _, eq⟩ := (readInto_blocked_iff found).2 blocks
    cases eq
  · rename_i found
    obtain ⟨_, _, _, eq⟩ := (readInto_blocked_iff found).2 blocks
    cases eq
  · rfl

theorem suspended_iff (objects : l.Objects k.processManager) (ht : t ∈ l.tasks)
    (current : l.Current k.memory t) (blocked : Blocked l.kernelTf t.process
      (syscallId k t.trapFrame).toNat (syscallArg k t.trapFrame) k k₁)
    (eq : ∀ fuel, handleSystemCall fuel l.kernelTf t.trapFrame k answer =
      scheduleFrame fuel l.kernelTf k₁) :
    Returns l t k answer (Suspended l t k) ↔
      ∃ u ∈ l.tasks, u ≠ t ∧ k.processManager.Running u.thread := by
  have pm₁ := blocked_processManager objects ht current blocked
  have objects₁ : l.Objects k₁.processManager := pm₁ ▸ objects.setThreadState t.thread .blocked
  constructor
  · rintro ⟨⟨fuel, returns⟩, post⟩
    obtain ⟨⟨next, k'⟩, returned⟩ := Option.isSome_iff_exists.1 returns
    obtain ⟨u, hu, ne, -, running⟩ := (post fuel next k' returned).other
    rw [eq] at returned
    obtain ⟨v, switched, -⟩ := switched_of_scheduleFrame objects₁ returned
    rw [switched.rotated.running_iff, pm₁, running_block_iff] at running
    exact ⟨u, hu, ne, running.2⟩
  · rintro ⟨u, hu, ne, running⟩
    refine ⟨?_, fun fuel next k' returned => ?_⟩
    · have running₁ : k₁.processManager.Running u.thread := by
        rw [pm₁, running_block_iff]
        exact ⟨fun same => ne (Layout.task_eq_of_thread hu ht same), running⟩
      obtain ⟨fuel, ⟨thread, k'⟩, returns⟩ := ((ends_iff objects₁).2 ⟨u, hu, running₁⟩).returns
      obtain ⟨n, queued⟩ := objects₁.queued
      obtain ⟨m, thread, same, -⟩ := Scheduler.schedule_spec objects₁.unlocked queued returns
      refine ⟨fuel, ?_⟩
      rw [eq, scheduleFrame, returns, same]
      rfl
    · rw [eq] at returned
      obtain ⟨v, switched, rfl⟩ := switched_of_scheduleFrame objects₁ returned
      have running₁ := switched.running
      rw [pm₁, running_block_iff] at running₁
      have apart : v ≠ t := fun same => running₁.1 (by rw [same])
      -- `prepare_for_switch` writes the frame of the other thread and the kernel trap frame
      have kept : AgreeOn (bytesAt t.trapFrame TrapFrame.SIZE) k.memory k'.memory := by
        rw [← blocked.memory]
        refine switched.agreeOn (fun x mem => ?_) (fun x mem => ?_)
        · have := Layout.frame_miss switched.mem ht apart mem
          simp only [TrapFrame.SIZE] at this
          omega
        · have := l.kernelFrameApart t ht
          simp only [bytesAt] at mem
          omega
      refine ⟨?_, ⟨v, switched.mem, apart, rfl, ?_⟩, fun i bound => ?_, ?_⟩
      · rw [switched.rotated.threads, pm₁, ProcessManager.setThreadState_threads, if_pos rfl]
      · exact (switched.rotated.running_iff _).2 switched.running
      · exact kept.load64 (by simp only [TrapFrame.regs]; omega)
          (by simp only [TrapFrame.regs, TrapFrame.SIZE]; omega)
      · exact kept.load64 (by simp only [TrapFrame.sepc]; omega)
          (by simp only [TrapFrame.sepc, TrapFrame.SIZE]; omega)

/-- **The return protocol of system calls**: `handle_system_call` follows it exactly for the calls
of the table whose reads spare the saved registers and, where they block, leave another thread
running. -/
theorem followsProtocol_iff (objects : l.Objects k.processManager) (ht : t ∈ l.tasks)
    (current : l.Current k.memory t)
    (returned : syscallOutcome l.kernelTf t.process t.trapFrame answer k = some outcome) :
    FollowsProtocol l t k answer outcome ↔ KeepsProtocol l t k answer := by
  unfold syscallOutcome at returned
  by_cases unknown : 10 ≤ (syscallId k t.trapFrame).toNat
  · rw [if_pos unknown] at returned
    cases returned
    rw [FollowsProtocol, returns_of_eq (handleSystemCall_unknown objects ht current unknown answer),
      answered_unknown_iff]
    constructor
    · intro a0
      exact { known := .inr a0, kept := fun read => by omega, other := fun read => by omega }
    · intro keeps
      exact keeps.known.resolve_left (Nat.not_lt_of_le unknown)
  · have known := Nat.lt_of_not_le unknown
    rw [if_neg unknown, Option.map_eq_some_iff] at returned
    obtain ⟨⟨outcome', k₁⟩, handled, rfl⟩ := returned
    rcases syscallHandler_cases handled with ⟨ne, noBlock, completed⟩ | ⟨rfl, blocked⟩
    · rw [followsProtocol_of_ne ne,
        returns_of_eq (handleSystemCall_completed objects ht current known handled ne),
        answered_completed_iff, completed_kept_iff completed]
      constructor
      · intro kept
        exact { known := .inl known, kept, other := fun read blocks => absurd ⟨read, blocks⟩ noBlock }
      · exact KeepsProtocol.kept
    · rw [FollowsProtocol, suspended_iff objects ht current blocked
        (handleSystemCall_blocked objects ht current known handled)]
      constructor
      · intro other
        refine { known := .inl known, kept := fun read a bytes store => ?_, other := fun _ _ => other }
        rw [readStore_of_blocks blocked.blocks] at store
        cases store
      · intro keeps
        exact keeps.other blocked.read blocked.blocks

end

/-- The process alone calls `id` with a zero in `a0`. -/
def loneCall (id : BitVec 64) : Kernel :=
  { loneHart.kernel with
    memory := store64 (store64 (Scheduler.prepareForSwitch lone.kernelTf
      (loneHart.kernel.processManager.threads 0x200) loneHart.kernel.memory)
      (TrapFrame.regs 0x10000 10) 0) (TrapFrame.regs 0x10000 17) id }

theorem loneCall_objects (id : BitVec 64) : lone.Objects (loneCall id).processManager :=
  lone_initial.objects

theorem loneCall_current (id : BitVec 64) : lone.Current (loneCall id).memory loneTask :=
  ((Layout.current_prepareForSwitch lone_initial.objects loneTask_mem _).congr
    (Layout.agreeOn_store loneTask_mem (by simp [TrapFrame.regs, loneTask])
      (by simp [TrapFrame.regs, TrapFrame.SIZE, loneTask]) 0)).congr
    (Layout.agreeOn_store loneTask_mem (by simp [TrapFrame.regs, loneTask])
      (by simp [TrapFrame.regs, TrapFrame.SIZE, loneTask]) id)

theorem loneCall_syscallId (id : BitVec 64) : syscallId (loneCall id) loneTask.trapFrame = id :=
  load64_store64 _ _ _

/-- The first call outside the table comes back with the `a0` of the caller. -/
theorem not_followsProtocol_unknown : ¬ FollowsProtocol lone loneTask (loneCall 10)
    { opened := none, content := .error [], listed := false } (.error .error) := by
  have unknown : 10 ≤ (syscallId (loneCall 10) loneTask.trapFrame).toNat := by
    rw [loneCall_syscallId]
    decide
  have a0 : load64 (loneCall 10).memory (TrapFrame.regs loneTask.trapFrame 10) = 0 := by
    rw [loneCall, load64_store64_of_disjoint _ _ (by decide)]
    exact load64_store64 _ _ _
  have returns := handleSystemCall_unknown (loneCall_objects 10) loneTask_mem (loneCall_current 10)
    unknown { opened := none, content := .error [], listed := false }
  intro follows
  have answered := answered_unknown_iff.1 ((returns_of_eq returns).1 follows)
  rw [a0] at answered
  exact absurd answered (by decide)

/-- `write` always fails, and says so. -/
theorem followsProtocol_write : FollowsProtocol lone loneTask (loneCall 4)
    { opened := none, content := .error [], listed := false } (.error .error) := by
  have id : (syscallId (loneCall 4) loneTask.trapFrame).toNat = 4 := by
    rw [loneCall_syscallId]
    rfl
  refine (followsProtocol_iff (loneCall_objects 4) loneTask_mem (loneCall_current 4) ?_).2
    { known := .inl (by rw [id]; decide), kept := fun read => ?_, other := fun read => ?_ }
  · rw [syscallOutcome, id]
    rfl
  · rw [id] at read
    cases read
  · rw [id] at read
    cases read

end MatteOS.Traps
