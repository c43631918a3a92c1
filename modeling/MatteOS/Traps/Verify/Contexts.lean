import MatteOS.Traps.Verify.Scheduling

/-!
# The contexts of the threads

Each frame holds the context of its thread (`FrameHolds`). Handling a trap changes at most
that of the thread that trapped, and only by completing its system call (`resumedContext`,
`Handles.frames`).
-/

namespace MatteOS.Traps

open ByteMemory Processes

/-- The frame at `tf` holds the context `c` of a thread, and `satp`. -/
structure FrameHolds (m : Memory) (tf : Nat) (c : Context) (satp : BitVec 64) : Prop where
  x : ∀ i < 32, load64 m (TrapFrame.regs tf i) = c.x i
  f : ∀ i < 32, load64 m (TrapFrame.fregs tf i) = c.f i
  sepc : load64 m (TrapFrame.sepc tf) = c.sepc
  user : isKernelTrap tf m = false
  satp : load64 m (TrapFrame.kernelSatp tf) = satp
  addr : load64 m (TrapFrame.kernelAddr tf) = .ofNat 64 tf

/-- The bytes of a frame that `prepare_for_switch` leaves. -/
def heldBytes (tf : Nat) : Nat → Prop := fun x =>
  (tf ≤ x ∧ x < tf + 552) ∨ (tf + 568 ≤ x ∧ x < tf + TrapFrame.SIZE)

theorem bytesAt_of_heldBytes {tf x : Nat} (held : heldBytes tf x) : bytesAt tf TrapFrame.SIZE x := by
  simp only [heldBytes, bytesAt, TrapFrame.SIZE] at held ⊢
  omega

/-- The context after a system call that leaves `value` in `a0`. -/
def Context.returned (c : Context) (value : BitVec 64) : Context :=
  { c with x := Function.update c.x 10 value, sepc := c.sepc + 4 }

/-- The context with which the thread of the frame at `tf` goes on after the trap that `k` handles:
only a system call that completes changes it. -/
def resumedContext (kernelTf tf : Nat) (k : Kernel) (answer : Answer) (c : Context) : Context :=
  match Interrupts.ofScause (load64 k.memory (TrapFrame.scause tf)) with
  | some .systemCall =>
    match syscallResult kernelTf tf answer k with
    | some (.ok (), k') => c.returned (load64 k'.memory (TrapFrame.regs tf 10))
    | _ => c
  | _ => c

namespace FrameHolds

variable {m m' : Memory} {tf : Nat} {c : Context} {satp : BitVec 64}

theorem congr (holds : FrameHolds m tf c satp) (agree : AgreeOn (heldBytes tf) m m') :
    FrameHolds m' tf c satp := by
  have word : ∀ a, tf ≤ a ∧ a + 8 ≤ tf + 552 ∨ tf + 568 ≤ a ∧ a + 8 ≤ tf + TrapFrame.SIZE →
      load64 m' a = load64 m a := fun a inside =>
    load64_congr fun x _ _ => agree x (by
      simp only [heldBytes]
      omega)
  constructor
  · intro i bound
    rw [word _ (by simp only [TrapFrame.regs]; omega), holds.x i bound]
  · intro i bound
    rw [word _ (by simp only [TrapFrame.fregs]; omega), holds.f i bound]
  · rw [word _ (by simp only [TrapFrame.sepc]; omega), holds.sepc]
  · rw [isKernelTrap, word _ (by simp only [TrapFrame.sstatus]; omega)]
    exact holds.user
  · rw [word _ (by simp only [TrapFrame.kernelSatp]; omega), holds.satp]
  · rw [word _ (by simp only [TrapFrame.kernelAddr, TrapFrame.SIZE]; omega), holds.addr]

/-- A system call that completes. -/
theorem returned (holds : FrameHolds m tf c satp) (value : BitVec 64) :
    FrameHolds (returnValue tf value m) tf (c.returned value) satp where
  x i bound := by
    by_cases eq : i = 10
    · subst eq
      rw [returnValue, load64_store64_of_disjoint _ _ (by
        simp only [TrapFrame.regs, TrapFrame.sepc]; omega), load64_store64]
      simp [Context.returned]
    · rw [load64_returnValue_of_disjoint _ _ _ (by simp only [TrapFrame.regs]; omega) (by
        simp only [TrapFrame.regs, TrapFrame.sepc]; omega), holds.x i bound]
      simp [Context.returned, eq]
  f i bound := by
    rw [load64_returnValue_of_disjoint _ _ _ (by simp only [TrapFrame.fregs, TrapFrame.regs]; omega)
      (by simp only [TrapFrame.fregs, TrapFrame.sepc]; omega)]
    exact holds.f i bound
  sepc := by
    rw [returnValue, load64_store64, load64_store64_of_disjoint _ _ (by
      simp only [TrapFrame.regs, TrapFrame.sepc]; omega), holds.sepc]
    rfl
  user := by
    rw [isKernelTrap, load64_returnValue_of_disjoint _ _ _ (by
      simp only [TrapFrame.sstatus, TrapFrame.regs]; omega) (by
      simp only [TrapFrame.sstatus, TrapFrame.sepc]; omega)]
    exact holds.user
  satp := by
    rw [load64_returnValue_of_disjoint _ _ _ (by
      simp only [TrapFrame.kernelSatp, TrapFrame.regs]; omega) (by
      simp only [TrapFrame.kernelSatp, TrapFrame.sepc]; omega), holds.satp]
  addr := by
    rw [load64_returnValue_of_disjoint _ _ _ (by
      simp only [TrapFrame.kernelAddr, TrapFrame.regs]; omega) (by
      simp only [TrapFrame.kernelAddr, TrapFrame.sepc]; omega), holds.addr]

/-- Exchange the address space. -/
theorem setSatp (holds : FrameHolds m tf c satp) (satp' : BitVec 64) :
    FrameHolds (store64 m (TrapFrame.kernelSatp tf) satp') tf c satp' where
  x i bound := by
    rw [load64_store64_of_disjoint _ _ (by simp only [TrapFrame.regs, TrapFrame.kernelSatp]; omega)]
    exact holds.x i bound
  f i bound := by
    rw [load64_store64_of_disjoint _ _ (by simp only [TrapFrame.fregs, TrapFrame.kernelSatp]; omega)]
    exact holds.f i bound
  sepc := by
    rw [load64_store64_of_disjoint _ _ (by simp only [TrapFrame.sepc, TrapFrame.kernelSatp]; omega)]
    exact holds.sepc
  user := by
    rw [isKernelTrap, load64_store64_of_disjoint _ _ (by
      simp only [TrapFrame.sstatus, TrapFrame.kernelSatp]; omega)]
    exact holds.user
  satp := load64_store64 _ _ _
  addr := by
    rw [load64_store64_of_disjoint _ _ (by
      simp only [TrapFrame.kernelAddr, TrapFrame.kernelSatp]; omega)]
    exact holds.addr

/-- What a trap saves from user mode. -/
theorem saved (own : load64 m (TrapFrame.kernelAddr tf) = .ofNat 64 tf)
    (user : c.sstatus.getLsbD 8 = false) (scause stval : BitVec 64) :
    FrameHolds (saveContext tf c scause stval satp m) tf c satp where
  x _ bound := load64_saveContext_regs _ _ _ _ _ _ bound
  f _ bound := load64_saveContext_fregs _ _ _ _ _ _ bound
  sepc := load64_saveContext_sepc _ _ _ _ _ _
  user := by rw [isKernelTrap, load64_saveContext_sstatus, user]
  satp := load64_saveContext_kernelSatp _ _ _ _ _ _
  addr := by
    rw [load64_saveContext_of_outside _ _ _ _ _ _ (by simp only [TrapFrame.kernelAddr]; omega), own]

end FrameHolds

/-! ## What handling a trap writes -/

/-- The frame that is returned to, the memory, and the change of the context of the thread of `t`,
after a trap that is handled in the memory `m`. -/
inductive MemoryChange (l : Layout) (t : Task) (m : Memory) :
    Nat → Memory → (Context → Context) → Prop where
  | unchanged : MemoryChange l t m t.trapFrame m id
  | returned {m₁ : Memory} {value : BitVec 64} (kept : AgreeOn l.kernelMemory m m₁) :
      MemoryChange l t m t.trapFrame (returnValue t.trapFrame value m₁) (·.returned value)
  | switched {u : Task} {thread : Thread} (mem : u ∈ l.tasks)
      (frame : thread.trapFrame = u.trapFrame) :
      MemoryChange l t m u.trapFrame (Scheduler.prepareForSwitch l.kernelTf thread m) id

section

variable {l : Layout} {t u : Task} {k k₁ k' : Kernel} {s : Surroundings} {next : Nat}
  {p : Nat → Prop} {m m' : Memory} {change : Context → Context}

theorem resumedContext_of_noCall {kernelTf tf : Nat} {answer : Answer}
    (noCall : ¬ HasCause k tf .systemCall) : resumedContext kernelTf tf k answer = id := by
  funext c
  unfold resumedContext
  split
  · rename_i call
    exact absurd call noCall
  · rfl

theorem resumedContext_of_call {kernelTf tf : Nat} {answer : Answer}
    (call : HasCause k tf .systemCall) (result : syscallResult kernelTf tf answer k = some (.ok (), k')) :
    resumedContext kernelTf tf k answer = (·.returned (load64 k'.memory (TrapFrame.regs tf 10))) := by
  funext c
  simp only [resumedContext, show Interrupts.ofScause _ = _ from call, result]

theorem resumedContext_of_blocked {kernelTf tf : Nat} {answer : Answer}
    (call : HasCause k tf .systemCall)
    (result : syscallResult kernelTf tf answer k = some (.error .blocked, k')) :
    resumedContext kernelTf tf k answer = id := by
  funext c
  simp only [resumedContext, show Interrupts.ofScause _ = _ from call, result, id]

/-- A system call changes `a0` only. -/
theorem resumedContext_x {kernelTf tf : Nat} {answer : Answer} {c : Context} {i : Nat}
    (ne : i ≠ 10) : (resumedContext kernelTf tf k answer c).x i = c.x i := by
  unfold resumedContext
  split
  · split
    · simp [Context.returned, ne]
    · rfl
  · rfl

theorem Switched.memoryChange (switched : Switched l k₁ u k') :
    MemoryChange l t k₁.memory u.trapFrame k'.memory id := by
  rw [switched.memory]
  exact .switched switched.mem switched.frame

/-- **What a trap writes.** -/
theorem Handles.memoryChange (handles : Handles l t k s next k')
    (objects : l.Objects k.processManager) (ht : t ∈ l.tasks) (current : l.Current k.memory t)
    (clean : l.CleanRead k t.trapFrame s.answer) :
    MemoryChange l t k.memory next k'.memory (resumedContext l.kernelTf t.trapFrame k s.answer) := by
  cases handles with
  | ignored noCall =>
    rw [resumedContext_of_noCall noCall]
    exact .unchanged
  | external noCall =>
    rw [resumedContext_of_noCall noCall]
    match s.external with
    | .none | .other | .console _ => exact .unchanged
  | unknownCall call _ result =>
    rw [resumedContext_of_call call result]
    have same : k.memory = store64 k.memory (TrapFrame.regs t.trapFrame 10)
        (load64 k.memory (TrapFrame.regs t.trapFrame 10)) := (store64_load64 _ _).symm
    have change := @MemoryChange.returned l t k.memory k.memory
      (load64 k.memory (TrapFrame.regs t.trapFrame 10)) (.refl _ _)
    rwa [returnValue, ← same] at change
  | @completed k₁ value call known completed result =>
    rw [resumedContext_of_call call result, load64_store64]
    exact .returned (agreeOn_completed objects ht current call clean completed)
  | preempted timer switched =>
    have noCall : ¬ HasCause k t.trapFrame .systemCall := fun call => by
      rw [HasCause, call] at timer
      cases timer
    rw [resumedContext_of_noCall noCall]
    exact switched.memoryChange
  | blocked call blocked switched result =>
    rw [resumedContext_of_blocked call result, ← blocked.memory]
    exact switched.memoryChange

theorem heldBytes_outside (ht : t ∈ l.tasks) (hu : u ∈ l.tasks) {x : Nat}
    (held : heldBytes t.trapFrame x) : x < u.trapFrame + 552 ∨ u.trapFrame + 568 ≤ x := by
  by_cases eq : t = u
  · subst eq
    simp only [heldBytes] at held
    omega
  · have := Layout.frame_miss hu ht (Ne.symm eq) (bytesAt_of_heldBytes held)
    simp only [TrapFrame.SIZE] at this
    omega

/-- The frame of each thread holds its context, changed for the thread of `t`. -/
theorem MemoryChange.frames (made : MemoryChange l t m next m' change) (ht : t ∈ l.tasks)
    (hu : u ∈ l.tasks) {contexts : Nat → Context} {satp : BitVec 64}
    (holds : FrameHolds m u.trapFrame (contexts u.trapFrame) satp) :
    FrameHolds m' u.trapFrame (Function.update contexts t.trapFrame
      (change (contexts t.trapFrame)) u.trapFrame) satp := by
  cases made with
  | unchanged => rwa [id, Function.update_eq_self]
  | switched mem frame =>
    rw [id, Function.update_eq_self]
    exact holds.congr (agreeOn_prepareForSwitch frame (fun x => heldBytes_outside hu mem)
      (fun x held => by
        have := l.kernelFrameApart u hu
        have := bytesAt_of_heldBytes held
        simp only [bytesAt] at this
        omega) m)
  | @returned m₁ value kept =>
    have owned := kept.mono (l.framesOwned u hu)
    have holds₁ := holds.congr (owned.mono fun x => bytesAt_of_heldBytes)
    by_cases eq : u = t
    · subst eq
      rw [Function.update_self]
      exact holds₁.returned value
    · rw [Function.update_of_ne fun same => eq (Layout.task_eq_of_trapFrame hu ht same)]
      exact holds₁.congr fun x held => returnValue_apply_of_outside _ _ _
        (Layout.frame_miss ht hu (Ne.symm eq) (bytesAt_of_heldBytes held))

/-- Kernel memory outside of the frames is left. -/
theorem MemoryChange.agreeOn (made : MemoryChange l t m next m' change) (ht : t ∈ l.tasks)
    (owned : ∀ x, p x → l.kernelMemory x)
    (apart : ∀ u ∈ l.tasks, ∀ x, p x → x < u.trapFrame ∨ u.trapFrame + TrapFrame.SIZE ≤ x)
    (kernel : ∀ x, p x → x < l.kernelTf ∨ l.kernelTf + KernelTrapFrame.SIZE ≤ x) :
    AgreeOn p m m' := by
  cases made with
  | unchanged => exact .refl _ _
  | returned kept =>
    exact (kept.mono owned).trans fun x mem =>
      returnValue_apply_of_outside _ _ _ (apart t ht x mem)
  | switched mem frame =>
    refine agreeOn_prepareForSwitch frame (fun x hx => ?_) kernel m
    have := apart _ mem x hx
    simp only [TrapFrame.SIZE] at this
    omega

/-- `prepare_for_switch` makes the frame of `u` name the kernel trap frame. -/
theorem pointer_prepareForSwitch {thread : Thread} (hu : u ∈ l.tasks)
    (frame : thread.trapFrame = u.trapFrame) (m : Memory) :
    load64 (Scheduler.prepareForSwitch l.kernelTf thread m)
      (TrapFrame.kernelTrapFramePtr u.trapFrame) = .ofNat 64 l.kernelTf := by
  have apart := l.kernelFrameApart u hu
  simp only [TrapFrame.SIZE, KernelTrapFrame.SIZE] at apart
  simp only [Scheduler.prepareForSwitch, frame]
  rw [load64_store64_of_disjoint _ _ (by
    simp only [TrapFrame.kernelTrapFramePtr, KernelTrapFrame.currentThreadId]; omega),
    load64_store64_of_disjoint _ _ (by
      simp only [TrapFrame.kernelTrapFramePtr, KernelTrapFrame.currentProcessId]; omega),
    load64_store64]

theorem Switched.pointer (switched : Switched l k₁ u k') :
    load64 k'.memory (TrapFrame.kernelTrapFramePtr u.trapFrame) = .ofNat 64 l.kernelTf := by
  rw [switched.memory]
  exact pointer_prepareForSwitch switched.mem switched.frame _

/-- The frame that is returned to names the kernel trap frame. -/
theorem MemoryChange.pointer (made : MemoryChange l t m next m' change) (ht : t ∈ l.tasks)
    (pointer : load64 m (TrapFrame.kernelTrapFramePtr t.trapFrame) = .ofNat 64 l.kernelTf) :
    load64 m' (TrapFrame.kernelTrapFramePtr next) = .ofNat 64 l.kernelTf := by
  cases made with
  | unchanged => exact pointer
  | returned kept =>
    rw [load64_returnValue_of_disjoint _ _ _ (by
      simp only [TrapFrame.kernelTrapFramePtr, TrapFrame.regs]; omega) (by
      simp only [TrapFrame.kernelTrapFramePtr, TrapFrame.sepc]; omega),
      (kept.mono (l.framesOwned t ht)).load64 (by simp [TrapFrame.kernelTrapFramePtr])
        (by simp [TrapFrame.kernelTrapFramePtr, TrapFrame.SIZE]), pointer]
  | switched mem frame => exact pointer_prepareForSwitch mem frame m

end

end MatteOS.Traps
