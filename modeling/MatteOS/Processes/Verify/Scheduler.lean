import MatteOS.Lib.RoundRobin
import MatteOS.Lib.Transition
import MatteOS.Processes.Scheduler
import MatteOS.Utils.Verify.LinkedQueue
import Mathlib.Data.Nat.Find

/-!
# Round-robin scheduling

The search of `schedule` is a turn of the ring of queued threads: it stops at the first
running one (`run_search`), and runs forever when there is none (`search_diverges`). So a
sequence of calls is a history of the ring, and fair.
-/

namespace MatteOS.Processes

open Utils RoundRobin

namespace ProcessManager

/-- The run queue holds the threads `queued`, in order. -/
def Queued (pm : ProcessManager) (queued : List Nat) : Prop :=
  ∃ entries, pm.runQueue.Holds pm.queueElements entries ∧ Chain.elements entries = queued

theorem Queued.unique {pm : ProcessManager} {queued queued' : List Nat} (h : pm.Queued queued)
    (h' : pm.Queued queued') : queued = queued' := by
  obtain ⟨entries, holds, rfl⟩ := h
  obtain ⟨entries', holds', rfl⟩ := h'
  rw [holds.chain.unique holds'.chain]

/-- Nothing but the order of the run queue differs. -/
def Rotated (pm pm' : ProcessManager) : Prop :=
  ∃ queueElements runQueue, pm' = { pm with queueElements, runQueue }

theorem Rotated.refl (pm : ProcessManager) : pm.Rotated pm := ⟨_, _, rfl⟩

theorem Rotated.trans {pm pm' pm'' : ProcessManager} (h : pm.Rotated pm') (h' : pm'.Rotated pm'') :
    pm.Rotated pm'' := by
  obtain ⟨_, _, rfl⟩ := h
  obtain ⟨queueElements, runQueue, rfl⟩ := h'
  exact ⟨queueElements, runQueue, rfl⟩

theorem Rotated.threads {pm pm' : ProcessManager} (h : pm.Rotated pm') :
    pm'.threads = pm.threads := by
  obtain ⟨_, _, rfl⟩ := h
  rfl

theorem Rotated.running_iff {pm pm' : ProcessManager} (h : pm.Rotated pm') (thread : Nat) :
    pm'.Running thread ↔ pm.Running thread := by
  rw [Running, Running, h.threads]

theorem Rotated.processListLock {pm pm' : ProcessManager} (h : pm.Rotated pm') :
    pm'.processListLock = pm.processListLock := by
  obtain ⟨_, _, rfl⟩ := h
  rfl

/-- Changing a thread's state leaves the queue. -/
theorem Queued.setThreadState {pm : ProcessManager} {queued : List Nat} (h : pm.Queued queued)
    (thread : Nat) (state : ThreadState) : (pm.setThreadState thread state).Queued queued := h

theorem Queued.unblock {pm : ProcessManager} {queued : List Nat} (h : pm.Queued queued)
    (pid tid : BitVec 64) : (pm.unblock pid tid).Queued queued := by
  rcases pm.unblock_eq pid tid with eq | ⟨thread, _, eq⟩ <;> rw [eq]
  · exact h
  · exact h.setThreadState thread .running

theorem Queued.block {pm : ProcessManager} {queued : List Nat} (h : pm.Queued queued)
    (pid tid : BitVec 64) : (pm.block pid tid).Queued queued := by
  rcases pm.block_eq pid tid with eq | ⟨thread, _, eq⟩ <;> rw [eq]
  · exact h
  · exact h.setThreadState thread .blocked

@[simp] theorem unblock_processListLock (pm : ProcessManager) (pid tid : BitVec 64) :
    (pm.unblock pid tid).processListLock = pm.processListLock := by
  rcases pm.unblock_eq pid tid with eq | ⟨_, _, eq⟩ <;> simp [eq]

@[simp] theorem block_processListLock (pm : ProcessManager) (pid tid : BitVec 64) :
    (pm.block pid tid).processListLock = pm.processListLock := by
  rcases pm.block_eq pid tid with eq | ⟨_, _, eq⟩ <;> simp [eq]

end ProcessManager

namespace Scheduler

open ProcessManager

variable {pm : ProcessManager} {ring : List Nat} {n : Nat}

/-! ## The search -/

/-- One round of the search turns the queue by one and looks at its front. -/
theorem search_eq (queued : pm.Queued (ring.rotate n)) {t : Nat}
    (arrived : front ring (n + 1) = some t) :
    ∃ pm', pm.Rotated pm' ∧ pm'.Queued (ring.rotate (n + 1)) ∧
      search pm = if pm.Running t then .done (some (t, pm')) else .again pm' := by
  obtain ⟨entries, holds, elements⟩ := queued
  obtain ⟨queueElements, runQueue, rotated, holds', -⟩ := holds.rotateLeft
  have elements' : Chain.elements (entries.rotate 1) = ring.rotate (n + 1) := by
    rw [Chain.elements, List.map_rotate, show List.map Prod.snd entries = _ from elements,
      List.rotate_rotate]
  have first : runQueue.peekFirst queueElements = some t := by
    rw [holds'.peekFirst, elements', ← front_eq_head?, arrived]
  refine ⟨{ pm with queueElements, runQueue }, ⟨_, _, rfl⟩, ⟨_, holds', elements'⟩, ?_⟩
  simp only [search, rotated, first]
  rfl

/-- The search stops at the first running thread that comes to the front. -/
theorem run_search (pm : ProcessManager) {m t : Nat} (forward : n < m) (arrived : front ring m = some t)
    (running : pm.Running t)
    (skipped : ∀ k, n < k → k < m → ∀ x ∈ front ring k, ¬ pm.Running x)
    (queued : pm.Queued (ring.rotate n)) :
    ∃ pm', pm.Rotated pm' ∧ pm'.Queued (ring.rotate m) ∧
      ∀ fuel, m - n ≤ fuel → Loop.run search fuel pm = some (some (t, pm')) := by
  -- induction on the number of threads that are passed over
  obtain ⟨d, rfl⟩ : ∃ d, m = n + d + 1 := ⟨m - n - 1, by omega⟩
  have nonempty : 0 < ring.length := by
    have bound := (List.getElem?_eq_some_iff.1 arrived).1
    omega
  induction d generalizing n pm with
  | zero =>
    obtain ⟨pm', rotated, queued', step⟩ := search_eq queued arrived
    rw [if_pos running] at step
    refine ⟨pm', rotated, queued', fun fuel enough => ?_⟩
    obtain ⟨f, rfl⟩ : ∃ f, fuel = f + 1 := ⟨fuel - 1, by omega⟩
    exact Loop.run_done step f
  | succ d ih =>
    obtain ⟨x, here⟩ : ∃ x, front ring (n + 1) = some x :=
      ⟨_, List.getElem?_eq_getElem (Nat.mod_lt _ nonempty)⟩
    obtain ⟨pm', rotated, queued', step⟩ := search_eq queued here
    rw [if_neg (skipped (n + 1) (by omega) (by omega) x here)] at step
    have next : n + (d + 1) + 1 = n + 1 + d + 1 := by omega
    rw [next] at arrived skipped ⊢
    have skipped' : ∀ k, n + 1 < k → k < n + 1 + d + 1 → ∀ y ∈ front ring k, ¬ pm'.Running y := by
      intro k lower upper y hy
      rw [rotated.running_iff]
      exact skipped k (by omega) upper y hy
    obtain ⟨pm'', rotated', queued'', run⟩ := ih pm' ((rotated.running_iff t).2 running) queued'
      (by omega) arrived skipped'
    refine ⟨pm'', rotated.trans rotated', queued'', fun fuel enough => ?_⟩
    obtain ⟨f, rfl⟩ : ∃ f, fuel = f + 1 := ⟨fuel - 1, by omega⟩
    rw [Loop.run_again step]
    exact run f (by omega)

/-- When no queued thread is running, the search never returns. -/
theorem search_diverges (pm : ProcessManager) (queued : pm.Queued ring) (none_running : ∀ t ∈ ring, ¬ pm.Running t)
    (fuel : Nat) : (Loop.run search fuel pm).join = none := by
  by_cases empty : ring = []
  · -- `peek_first` on the empty queue stops at its assertion
    subst empty
    obtain ⟨entries, holds, elements⟩ := queued
    obtain ⟨queueElements, runQueue, rotated, holds', -⟩ := holds.rotateLeft
    have nil : entries = [] := List.map_eq_nil_iff.1 elements
    have first : runQueue.peekFirst queueElements = none := by simp [holds'.peekFirst, nil]
    have step : search pm = .done none := by simp [search, rotated, first]
    cases fuel with
    | zero => rfl
    | succ f => rw [Loop.run_done step]; rfl
  · have diverges : Loop.Diverges search pm := by
      refine Loop.diverges_of_invariant (I := fun s => pm.Rotated s ∧ ∃ n, s.Queued (ring.rotate n))
        ?_ ⟨.refl pm, 0, by simpa using queued⟩
      rintro s ⟨rotated, n, queued⟩
      obtain ⟨x, here⟩ : ∃ x, front ring (n + 1) = some x :=
        ⟨_, List.getElem?_eq_getElem (Nat.mod_lt _ (List.length_pos_of_ne_nil empty))⟩
      obtain ⟨s', rotated', queued', step⟩ := search_eq queued here
      rw [if_neg ((rotated.running_iff x).not.2 (none_running x (List.mem_of_getElem? here)))] at step
      exact ⟨s', step, rotated.trans rotated', n + 1, queued'⟩
    rw [diverges fuel]
    rfl

/-! ## A call -/

/-- What a call of `schedule` from position `n` of the ring to position `m` does. -/
structure Scheduled (kernelTf : Nat) (ring : List Nat) (n m t : Nat) (k k' : Kernel) : Prop where
  forward : n < m
  skipped : ∀ i, n < i → i < m → ∀ x ∈ front ring i, ¬ k.processManager.Running x
  arrived : front ring m = some t
  running : k.processManager.Running t
  queued : k'.processManager.Queued (ring.rotate m)
  rotated : k.processManager.Rotated k'.processManager
  memory : k'.memory = prepareForSwitch kernelTf (k.processManager.threads t) k.memory
  console : k'.console = k.console

variable (kernelTf : Nat) {k k' : Kernel}

/-- With a running thread in the queue, `schedule` returns within one round. -/
theorem schedule_returns (unlocked : k.processManager.processListLock = 0)
    (queued : k.processManager.Queued (ring.rotate n)) {s : Nat} (mem : s ∈ ring)
    (running : k.processManager.Running s) :
    ∃ m t k', Scheduled kernelTf ring n m t k k' ∧
      ∀ fuel, ring.length ≤ fuel → schedule fuel kernelTf k = some (some t, k') := by
  obtain ⟨m₀, lower, upper, passes⟩ := exists_front mem n
  -- the first position after `n` whose thread is running
  have exists_running : ∃ m, n < m ∧ ∃ t ∈ front ring m, k.processManager.Running t :=
    ⟨m₀, lower, s, passes, running⟩
  classical
  obtain ⟨forward, t, arrived, running'⟩ := Nat.find_spec exists_running
  have le : Nat.find exists_running ≤ m₀ :=
    Nat.find_min' exists_running ⟨lower, s, passes, running⟩
  have skipped : ∀ i, n < i → i < Nat.find exists_running → ∀ x ∈ front ring i,
      ¬ k.processManager.Running x :=
    fun i lower upper x hx run => Nat.find_min exists_running upper ⟨lower, x, hx, run⟩
  obtain ⟨pm', rotated, queued', run⟩ := run_search { k.processManager with processListLock := 1 }
    forward arrived running' skipped queued
  obtain ⟨queueElements, runQueue, rfl⟩ := rotated
  refine ⟨_, t, { k with
      memory := prepareForSwitch kernelTf (k.processManager.threads t) k.memory
      processManager := { k.processManager with queueElements, runQueue } },
    { forward, skipped, arrived, running := running', queued := queued'
      rotated := ⟨_, _, rfl⟩, memory := rfl, console := rfl }, fun fuel enough => ?_⟩
  have result := run fuel (by omega)
  simp only [schedule, tryLock, unlocked, beq_self_eq_true, result, ProcessManager.unlock]
  rfl

/-- Without one, it never does. -/
theorem schedule_eq_none (unlocked : k.processManager.processListLock = 0)
    (queued : k.processManager.Queued ring)
    (none_running : ∀ t ∈ ring, ¬ k.processManager.Running t) (fuel : Nat) :
    schedule fuel kernelTf k = none := by
  have search := search_diverges { k.processManager with processListLock := 1 } queued
    none_running fuel
  simp only [schedule, tryLock, unlocked, beq_self_eq_true]
  cases result : Loop.run Scheduler.search fuel { k.processManager with processListLock := 1 } with
  | none => rfl
  | some r =>
    rw [result] at search
    cases r with
    | none => rfl
    | some r => simp at search

variable {kernelTf}

/-- More fuel does not change a result. -/
theorem schedule_mono {fuel fuel' : Nat} {r : Option Nat × Kernel}
    (returns : schedule fuel kernelTf k = some r) (le : fuel ≤ fuel') :
    schedule fuel' kernelTf k = some r := by
  unfold schedule at returns ⊢
  cases lock : k.processManager.tryLock with
  | mk taken pm =>
    cases taken with
    | false => simpa [lock] using returns
    | true =>
      simp only [lock] at returns ⊢
      cases result : Loop.run search fuel pm with
      | none => simp [result] at returns
      | some found => rwa [Loop.run_mono result le, ← result]

/-- Every call that returns is such a turn. -/
theorem schedule_spec (unlocked : k.processManager.processListLock = 0)
    (queued : k.processManager.Queued (ring.rotate n)) {fuel : Nat} {r : Option Nat}
    (returns : schedule fuel kernelTf k = some (r, k')) :
    ∃ m t, r = some t ∧ Scheduled kernelTf ring n m t k k' := by
  by_cases running : ∃ s ∈ ring, k.processManager.Running s
  · obtain ⟨s, mem, running⟩ := running
    obtain ⟨m, t, k'', scheduled, run⟩ := schedule_returns kernelTf unlocked queued
      mem running
    have late := run (max fuel ring.length) (by omega)
    rw [schedule_mono returns (by omega : fuel ≤ max fuel ring.length)] at late
    obtain ⟨rfl, rfl⟩ : r = some t ∧ k' = k'' := by simpa using late
    exact ⟨m, t, rfl, scheduled⟩
  · push Not at running
    have never := schedule_eq_none kernelTf unlocked queued
      (fun t mem => running t (List.mem_rotate.1 mem)) fuel
    rw [never] at returns
    cases returns

end Scheduler

/-! ## Runs -/

/-- What happens to the run queue: `schedule` is called and returns, while the threads in
`running` are running, or a thread is blocked or unblocked. -/
inductive SchedulingAction where
  | schedule (running : Nat → Prop) (returned : Option Nat)
  | block (pid tid : BitVec 64)
  | unblock (pid tid : BitVec 64)

/-- One action on the hart whose kernel trap frame is `kernelTf`. -/
inductive SchedulingStep (kernelTf : Nat) : Kernel → SchedulingAction → Kernel → Prop where
  | schedule {k k' : Kernel} {fuel : Nat} {returned : Option Nat}
      (returns : Scheduler.schedule fuel kernelTf k = some (returned, k')) :
      SchedulingStep kernelTf k (.schedule k.processManager.Running returned) k'
  | block (k : Kernel) (pid tid : BitVec 64) : SchedulingStep kernelTf k (.block pid tid)
      { k with processManager := k.processManager.block pid tid }
  | unblock (k : Kernel) (pid tid : BitVec 64) : SchedulingStep kernelTf k (.unblock pid tid)
      { k with processManager := k.processManager.unblock pid tid }

/-- The call that an action is. -/
def SchedulingAction.turn? : SchedulingAction → Option (Turn Nat)
  | .schedule running (some returned) => some { ready := running, returned }
  | _ => none

/-- The calls of a sequence of actions. -/
def turns (actions : List SchedulingAction) : List (Turn Nat) :=
  actions.filterMap SchedulingAction.turn?

/-- The threads `created` were queued, in order, and `actions` led to `k`. -/
structure ScheduledFairly (kernelTf : Nat) (created : List Nat) (actions : List SchedulingAction)
    (k : Kernel) : Prop where
  /-- The queue is a rotation of its creation order. -/
  rotation : ∃ n, k.processManager.Queued (created.rotate n)
  /-- Every call returned a thread that was running at that moment. -/
  running : ∀ running returned, .schedule running returned ∈ actions →
    ∃ t ∈ created, returned = some t ∧ running t
  /-- A call made now returns if some queued thread is running. -/
  returns : (∃ t ∈ created, k.processManager.Running t) →
    ∃ fuel t k', Scheduler.schedule fuel kernelTf k = some (some t, k')
  /-- While `s` and `t` are running at every call, `t` is returned exactly once between
  consecutive returns of `s`. -/
  fair : ∀ (before between after : List (Turn Nat)) (first last : Turn Nat) (s t : Nat),
    turns actions = before ++ (first :: between ++ [last]) ++ after → s ≠ t → t ∈ created →
    first.returned = s → last.returned = s → (∀ turn ∈ between, turn.returned ≠ s) →
    (∀ turn ∈ first :: between ++ [last], turn.ready s ∧ turn.ready t) →
    (between.map Turn.returned).count t = 1

section

variable {kernelTf : Nat} {k k' : Kernel} {created : List Nat} {n : Nat}

/-- The lock is free, and the queue has been turned `n` times. -/
structure Turned (created : List Nat) (n : Nat) (k : Kernel) : Prop where
  unlocked : k.processManager.processListLock = 0
  queued : k.processManager.Queued (created.rotate n)

/-- An action is a turn of the ring, or leaves it. -/
theorem SchedulingStep.turned {action : SchedulingAction} (turned : Turned created n k)
    (step : SchedulingStep kernelTf k action k') :
    ∃ m, Turned created m k' ∧ Turns created n (turns [action]) m ∧
      ∀ running returned, action = .schedule running returned →
        ∃ t ∈ created, returned = some t ∧ running t := by
  obtain ⟨unlocked, queued⟩ := turned
  cases step with
  | schedule returns =>
    obtain ⟨m, t, rfl, scheduled⟩ := Scheduler.schedule_spec unlocked queued returns
    refine ⟨m, ⟨by rw [scheduled.rotated.processListLock, unlocked], scheduled.queued⟩,
      .cons scheduled.forward scheduled.skipped scheduled.arrived scheduled.running (.nil m), ?_⟩
    rintro _ _ ⟨⟩
    exact ⟨t, List.mem_of_getElem? scheduled.arrived, rfl, scheduled.running⟩
  | block pid tid =>
    exact ⟨n, ⟨by simpa using unlocked, queued.block pid tid⟩, .nil n, by rintro _ _ ⟨⟩⟩
  | unblock pid tid =>
    exact ⟨n, ⟨by simpa using unlocked, queued.unblock pid tid⟩, .nil n, by rintro _ _ ⟨⟩⟩

/-- A run is a history of the ring. -/
theorem turned_of_run {actions : List SchedulingAction} (turned : Turned created n k)
    (run : Transition.Run (SchedulingStep kernelTf) k actions k') :
    ∃ m, Turned created m k' ∧ Turns created n (turns actions) m ∧
      ∀ running returned, .schedule running returned ∈ actions →
        ∃ t ∈ created, returned = some t ∧ running t := by
  induction run generalizing n with
  | nil k => exact ⟨n, turned, .nil n, by simp⟩
  | @cons k₀ k₁ k₂ action actions head tail ih =>
    obtain ⟨m, turned', now, running⟩ := head.turned turned
    obtain ⟨m', turned'', later, running'⟩ := ih turned'
    refine ⟨m', turned'', ?_, ?_⟩
    · have parts : turns (action :: actions) = turns [action] ++ turns actions := by
        rw [turns, ← List.singleton_append, List.filterMap_append]
        rfl
      rw [parts]
      exact now.append later
    · intro ready returned mem
      rcases List.mem_cons.1 mem with eq | mem
      · exact running ready returned eq.symm
      · exact running' ready returned mem

/-- Round-robin scheduling is fair and loses no thread. -/
theorem scheduledFairly_of_run (distinct : created.Nodup)
    (queued : k.processManager.Queued created) (unlocked : k.processManager.processListLock = 0)
    {actions : List SchedulingAction}
    (run : Transition.Run (SchedulingStep kernelTf) k actions k') :
    ScheduledFairly kernelTf created actions k' := by
  obtain ⟨n, turned, history, running⟩ :=
    turned_of_run (n := 0) ⟨unlocked, by simpa using queued⟩ run
  refine ⟨⟨n, turned.queued⟩, running, ?_, ?_⟩
  · rintro ⟨s, mem, isRunning⟩
    obtain ⟨m, t, k'', _, returns⟩ :=
      Scheduler.schedule_returns kernelTf turned.unlocked turned.queued mem isRunning
    exact ⟨created.length, t, k'', returns _ (Nat.le_refl _)⟩
  · intro before between after first last s t split ne mem hfirst hlast consecutive ready
    rw [split, List.append_assoc] at history
    obtain ⟨_, _, history⟩ := history.split
    obtain ⟨_, history, _⟩ := history.split
    have inner : ∀ turn ∈ between ++ [last], turn.ready s ∧ turn.ready t := fun turn mem =>
      ready turn (List.mem_cons_of_mem _ mem)
    exact history.exactly_once distinct ne mem hfirst hlast consecutive
      (fun turn mem => (inner turn mem).1) (fun turn mem => (inner turn mem).2)

end

/-- Two processes of one thread each, queued in order. -/
def twoThreads : Kernel where
  memory := fun _ => 0
  processManager := {
    runQueue := { head := some 1, tail := some 2 }
    processList := [10, 20]
    processListLock := 0
    pidCounter := 3
    queueElements := fun a =>
      if a = 1 then some ⟨10, some 2⟩ else if a = 2 then some ⟨20, none⟩ else none
    threads := fun t => { trapFrame := 4096 * t, tid := 0, pid := .ofNat 64 (t / 10), state := .running }
    processes := fun p =>
      { pid := .ofNat 64 (p / 10), pageTable := 0, state := .running, fdTable := .empty, threads := [p] } }
  console := { driver := none, requests := [] }

theorem twoThreads_queued : twoThreads.processManager.Queued [10, 20] :=
  ⟨[(1, 10), (2, 20)], { chain := ⟨rfl, some 2, rfl, rfl, none, rfl, rfl⟩, distinct := by decide, last := rfl },
    rfl⟩

theorem scheduledFairly_of_run_two : ∃ running running' running'' k',
    ScheduledFairly 0x80000000 [10, 20]
      [.schedule running (some 20), .schedule running' (some 10), .block 2 0,
        .schedule running'' (some 10)] k' :=
  ⟨_, _, _, _, scheduledFairly_of_run (k := twoThreads) (by decide) twoThreads_queued rfl
    (.cons (@SchedulingStep.schedule _ _ _ 5 _ rfl) (.cons (@SchedulingStep.schedule _ _ _ 5 _ rfl)
      (.cons (.block _ 2 0) (.cons (@SchedulingStep.schedule _ _ _ 5 _ rfl) (.nil _)))))⟩

end MatteOS.Processes
