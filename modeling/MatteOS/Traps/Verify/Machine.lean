import MatteOS.Traps.Machine
import MatteOS.Traps.Verify.Contexts
import MatteOS.Traps.Verify.TrapVector

/-!
# The invariant of the machine

Each frame holds the context of its thread and, in its dual-use slot, the address space that is
not in use: that of the kernel while the thread runs, and its own otherwise (`Spaces.Inv`). Every
trap from user mode keeps this (`inv_step`), and the contexts are those that the history of the
run gives (`History`).
-/

namespace MatteOS.Traps

open ByteMemory Processes Riscv TrapVector

/-- The address spaces of a layout: the bytes of `tables` say what `mmu` does. -/
structure Spaces (l : Layout) where
  mmu : Mmu
  vector : BitVec 64
  tables : Nat → Prop
  kernelTable : Nat
  satps : ∀ t ∈ l.tasks, t.satp = buildSatp SATP_SV39 1 (.ofNat 64 t.pageTable)
  tablesOwned : ∀ x, tables x → l.kernelMemory x
  tablesApart : ∀ x, tables x → x < l.kernelTf ∨ l.kernelTf + KernelTrapFrame.SIZE ≤ x
  framesFit : ∀ t ∈ l.tasks, t.trapFrame < 2 ^ 64
  kernelFrameFits : l.kernelTf < 2 ^ 64

/-- What a run has done so far: the context that each thread should have, and the thread that last
ran in user mode. -/
structure History where
  contexts : Nat → Context
  running : Option Nat

/-- A trap from user mode records the context that it interrupts, and a system call that completes
changes it. -/
def History.next (h : History) (m : Machine) : Machine.Event → Machine → History
  | .start, m' => { h with running := m'.mode.thread }
  | .trap t, _ =>
    match m.mode.thread with
    | some tf => { h with contexts := Function.update h.contexts tf t.context }
    | none => h
  | .handled s, m' =>
    match h.running with
    | some tf =>
      { contexts := Function.update h.contexts tf
          (resumedContext m.kernelTf tf m.kernel s.answer (h.contexts tf))
        running := m'.mode.thread }
    | none => h

/-- If the event is a trap, then it is taken from user mode. -/
def Machine.FromUser (m : Machine) : Machine.Event → Prop
  | .trap _ => m.mode.thread ≠ none
  | .start | .handled _ => True

/-- The hart of the machine between traps. -/
def Machine.hart (m : Machine) : Hart := ⟨m.kernel, m.mode.thread, m.cpu.csr .satp⟩

namespace Layout

/-- The thread of `t` runs in user mode. -/
structure InUser (l : Layout) (m : Machine) (h : History) (t : Task) : Prop where
  running : h.running = some t.trapFrame
  satp : m.cpu.csr .satp = t.satp
  sscratch : m.cpu.csr .sscratch = TRAP_FRAME_ALIAS
  x : ∀ i, 0 < i → i < 32 → m.cpu.x i = (h.contexts t.trapFrame).x i
  f : ∀ i < 32, m.cpu.f i = (h.contexts t.trapFrame).f i
  sepc : m.cpu.csr .sepc = (h.contexts t.trapFrame).sepc
  scheduled : m.processManager.Running t.thread
  current : l.Current m.cpu.memory t
  pointer : load64 m.cpu.memory (TrapFrame.kernelTrapFramePtr t.trapFrame) = .ofNat 64 l.kernelTf

/-- No read writes the kernel's memory. -/
def CleanEvent (l : Layout) (m : Machine) : Machine.Event → Prop
  | .start | .trap _ => True
  | .handled s => l.CleanRead m.kernel m.argument s.answer

end Layout

namespace Spaces

variable {l : Layout} (sp : Spaces l)

/-- The kernel's address space. -/
def kernelSatp : BitVec 64 := buildSatp SATP_SV39 0 (.ofNat 64 sp.kernelTable)

/-- The address space that the frame of `t` keeps. -/
def slot (mode : Mode) (t : Task) : BitVec 64 :=
  if mode = .user t.trapFrame then sp.kernelSatp else t.satp

/-- The frame of each thread is at `0x1000` in its own address space, and at its own address in
that of the kernel. -/
structure Mapped (m : Memory) : Prop where
  own : ∀ t ∈ l.tasks,
    View sp.mmu sp.tables m t.satp TRAP_FRAME_ALIAS t.trapFrame TrapFrame.SIZE
  identity : ∀ t ∈ l.tasks,
    View sp.mmu sp.tables m sp.kernelSatp (.ofNat 64 t.trapFrame) t.trapFrame TrapFrame.SIZE

/-- `handle_interrupt` handles a trap of the thread of `t`. -/
structure InKernel (m : Machine) (h : History) (t : Task) : Prop where
  running : h.running = some t.trapFrame
  satp : m.cpu.csr .satp = sp.kernelSatp
  argument : m.cpu.x a0 = .ofNat 64 t.trapFrame
  kernelTf : m.cpu.x tp = .ofNat 64 l.kernelTf
  scheduled : m.processManager.Running t.thread
  current : l.Current m.cpu.memory t
  pointer : load64 m.cpu.memory (TrapFrame.kernelTrapFramePtr t.trapFrame) = .ofNat 64 l.kernelTf

/-- The invariant of every run whose traps come from user mode. -/
structure Inv (m : Machine) (h : History) : Prop where
  objects : l.Objects m.processManager
  mapped : sp.Mapped m.cpu.memory
  frames : ∀ t ∈ l.tasks,
    FrameHolds m.cpu.memory t.trapFrame (h.contexts t.trapFrame) (sp.slot m.mode t)
  booting : m.mode = .booting → m.cpu.csr .satp = sp.kernelSatp ∧
    m.cpu.x tp = .ofNat 64 l.kernelTf ∧ ∀ t ∈ l.tasks, m.processManager.Running t.thread
  user : ∀ tf, m.mode = .user tf → ∃ t ∈ l.tasks, t.trapFrame = tf ∧ l.InUser m h t
  handling : m.mode = .handling → ∃ t ∈ l.tasks, sp.InKernel m h t
  uninterrupted : m.mode ≠ .interrupted

/-- One event of the machine. -/
abbrev Step : Machine → Machine.Event → Machine → Prop :=
  Machine.Step sp.mmu sp.vector l.kernelMemory

/-- One event of the machine with its history; a trap is taken from user mode. -/
def UserStep (s : Machine × History) (e : Machine.Event) (s' : Machine × History) : Prop :=
  sp.Step s.1 e s'.1 ∧ Machine.FromUser s.1 e ∧ s'.2 = s.2.next s.1 e s'.1

/-- A clean event and what it leads to. -/
def CleanStep (s : Machine × History) (e : Machine.Event) (s' : Machine × History) : Prop :=
  sp.UserStep s e s' ∧ l.CleanEvent s.1 e

end Spaces

section

variable {l : Layout} {sp : Spaces l} {m m' : Machine} {h : History} {t u : Task} {k : Kernel}
  {c : Cpu} {contexts : Nat → Context}

/-- The context of a thread after its trap. -/
theorem History.contexts_trap_handled {tf : Nat} (user : m.mode = .user tf)
    (running : h.running = some tf) (m₁ m' : Machine) (trap : Trap) (s : Surroundings) :
    ((h.next m (.trap trap) m₁).next m₁ (.handled s) m').contexts tf =
      resumedContext m₁.kernelTf tf m₁.kernel s.answer trap.context := by
  simp only [History.next, user, Mode.thread, running, Function.update_self]

namespace Spaces

theorem satp_ne_kernelSatp (ht : t ∈ l.tasks) : t.satp ≠ sp.kernelSatp := by
  rw [sp.satps t ht]
  exact buildSatp_ne (by decide)

theorem toNat_trapFrame (sp : Spaces l) (ht : t ∈ l.tasks) :
    (BitVec.ofNat 64 t.trapFrame).toNat = t.trapFrame :=
  BitVec.toNat_ofNat _ _ ▸ Nat.mod_eq_of_lt (sp.framesFit t ht)

theorem toNat_kernelTf (sp : Spaces l) : (BitVec.ofNat 64 l.kernelTf).toNat = l.kernelTf :=
  BitVec.toNat_ofNat _ _ ▸ Nat.mod_eq_of_lt sp.kernelFrameFits

theorem Mapped.congr {m m' : Memory} (mapped : sp.Mapped m) (agree : AgreeOn sp.tables m m') :
    sp.Mapped m' where
  own t ht := (mapped.own t ht).congr agree
  identity t ht := (mapped.identity t ht).congr agree

/-- The history follows the machine. -/
theorem userStep_next {e : Machine.Event} (step : sp.Step m e m') (fromUser : Machine.FromUser m e) :
    sp.UserStep (m, h) e (m', h.next m e m') := ⟨step, fromUser, rfl⟩

/-- Stores in a frame leave the tables. -/
theorem Mapped.agreeOn_store {m : Memory} (mapped : sp.Mapped m) (ht : t ∈ l.tasks) {a : Nat}
    (lower : t.trapFrame ≤ a) (upper : a + 8 ≤ t.trapFrame + TrapFrame.SIZE) (v : BitVec 64) :
    AgreeOn sp.tables m (store64 m a v) :=
  (AgreeOn.refl _ _).store64 _ fun x mem => by
    have := (mapped.own t ht).apart x mem
    omega

/-- Handling a trap leaves the tables. -/
theorem Mapped.change {m m' : Memory} {next : Nat} {change : Context → Context}
    (mapped : sp.Mapped m) (made : MemoryChange l t m next m' change) (ht : t ∈ l.tasks) :
    sp.Mapped m' :=
  mapped.congr (made.agreeOn ht sp.tablesOwned (fun u hu => (mapped.own u hu).apart) sp.tablesApart)

end Spaces

/-- The frame of another thread is beside that of `u`. -/
theorem FrameHolds.store_other {m : Memory} {context : Context} {satp : BitVec 64}
    (holds : FrameHolds m t.trapFrame context satp) (ht : t ∈ l.tasks) (hu : u ∈ l.tasks)
    (ne : t ≠ u) (v : BitVec 64) :
    FrameHolds (store64 m (TrapFrame.kernelSatp u.trapFrame) v) t.trapFrame context satp :=
  holds.congr ((AgreeOn.refl _ _).store64 _ fun x held => by
    have := Layout.frame_miss hu ht ne.symm (bytesAt_of_heldBytes held)
    simp only [TrapFrame.SIZE, TrapFrame.kernelSatp] at this ⊢
    omega)

/-- `sret` goes to the thread of the frame that is resumed. -/
theorem sret_mode (user : isKernelTrap u.trapFrame k.memory = false)
    (resumed : Resumed k.memory u.trapFrame sp.kernelSatp c) :
    (Machine.sret k u.trapFrame c).mode = .user u.trapFrame := by
  rw [Machine.sret, resumed.sstatus, ← isKernelTrap, user]
  rfl

/-- **The way out** to the thread of `u`. -/
theorem inv_sret (inv : l.Inv (resume k u.trapFrame sp.kernelSatp)) (hu : u ∈ l.tasks)
    (mapped : sp.Mapped k.memory)
    (frames : ∀ t ∈ l.tasks, FrameHolds k.memory t.trapFrame (contexts t.trapFrame) t.satp)
    (pointer : load64 k.memory (TrapFrame.kernelTrapFramePtr u.trapFrame) = .ofNat 64 l.kernelTf)
    (resumed : Resumed k.memory u.trapFrame sp.kernelSatp c) :
    sp.Inv (Machine.sret k u.trapFrame c)
      ⟨contexts, (Machine.sret k u.trapFrame c).mode.thread⟩ := by
  have mode := sret_mode (frames u hu).user resumed
  have memory : (Machine.sret k u.trapFrame c).cpu.memory =
      store64 k.memory (TrapFrame.kernelSatp u.trapFrame) sp.kernelSatp := resumed.memory
  obtain ⟨u', hu', eq, scheduled, current⟩ := inv.user u.trapFrame rfl
  obtain rfl := Layout.task_eq_of_trapFrame hu' hu eq
  refine { objects := inv.objects, mapped := ?_, frames := ?_, booting := ?_, user := ?_
           handling := ?_, uninterrupted := ?_ }
  · rw [memory]
    exact mapped.congr (mapped.agreeOn_store hu (by simp [TrapFrame.kernelSatp])
      (by simp [TrapFrame.kernelSatp, TrapFrame.SIZE]) _)
  · intro t ht
    rw [memory, Spaces.slot, mode]
    by_cases eq : t = u'
    · subst eq
      rw [if_pos rfl]
      exact (frames t hu').setSatp _
    · rw [if_neg fun same => eq (Layout.task_eq_of_trapFrame ht hu (Mode.user.inj same).symm)]
      exact (frames t ht).store_other ht hu eq _
  · rw [mode]
    exact fun booting => by cases booting
  · rw [mode]
    rintro tf ⟨⟩
    exact ⟨u', hu, rfl, {
      running := rfl
      satp := resumed.satp.trans (frames u' hu).satp
      sscratch := resumed.sscratch
      x := fun i positive bound =>
        (resumed.x i positive bound).trans ((frames u' hu).x i bound)
      f := fun i bound => (resumed.f i bound).trans ((frames u' hu).f i bound)
      sepc := resumed.sepc.trans (frames u' hu).sepc
      scheduled
      current := by
        rw [memory]
        exact current
      pointer := by
        rw [memory, load64_store64_of_disjoint _ _ (by
          simp only [TrapFrame.kernelTrapFramePtr, TrapFrame.kernelSatp]; omega), pointer] }⟩
  · rw [mode]
    exact fun handling => by cases handling
  · rw [mode]
    exact fun interrupted => by cases interrupted

/-- The code after a C++ call resumes the thread of the frame that the call returns. -/
theorem exists_exit_of_returned (mapped : sp.Mapped k.memory) (hu : u ∈ l.tasks)
    (own : load64 k.memory (TrapFrame.kernelSatp u.trapFrame) = u.satp)
    (space : m.cpu.csr .satp = sp.kernelSatp) (returned : m.Returned k u.trapFrame c) :
    (∃ c', run sp.mmu (switchToUser sp.vector) c = some c' ∧
      Resumed k.memory u.trapFrame sp.kernelSatp c') ∧
    ∃ c', run sp.mmu exit c = some c' ∧ Resumed k.memory u.trapFrame sp.kernelSatp c' := by
  have kernel := mapped.identity u hu
  have user := mapped.own u hu
  rw [← own] at user
  rw [← space, ← returned.csr, ← returned.memory] at kernel ⊢
  rw [← returned.memory] at user
  exact ⟨run_switchToUser sp.vector kernel user returned.result,
    run_exit kernel user returned.result⟩

/-- While the kernel runs, each frame keeps the address space of its own thread. -/
theorem Spaces.Inv.held (inv : sp.Inv m h) (kernel : m.mode.thread = none) (ht : t ∈ l.tasks) :
    FrameHolds m.cpu.memory t.trapFrame (h.contexts t.trapFrame) t.satp := by
  have holds := inv.frames t ht
  rwa [Spaces.slot, if_neg fun mode => by rw [mode] at kernel; cases kernel] at holds

/-- The first switch is to a thread that the scheduler has picked, and leaves all frames and tables
as they were. -/
theorem exists_of_start (inv : sp.Inv m h) (step : sp.Step m .start m') :
    ∃ fuel u k c, m.mode = .booting ∧ m.cpu.csr .satp = sp.kernelSatp ∧
      scheduleFrame fuel l.kernelTf m.kernel = some (u.trapFrame, k) ∧ Switched l m.kernel u k ∧
      sp.Mapped k.memory ∧
      (∀ t ∈ l.tasks, FrameHolds k.memory t.trapFrame (h.contexts t.trapFrame) t.satp) ∧
      Resumed k.memory u.trapFrame sp.kernelSatp c ∧ m' = Machine.sret k u.trapFrame c := by
  cases step with
  | @start fuel tf k c c' booting scheduled returned switched =>
    obtain ⟨space, pointer, running⟩ := inv.booting booting
    rw [Machine.kernelTf, pointer, sp.toNat_kernelTf] at scheduled
    obtain ⟨u, found, rfl⟩ := switched_of_scheduleFrame (k := m.kernel) inv.objects scheduled
    have hu := found.mem
    have made := @Switched.memoryChange l u u m.kernel k found
    have frames : ∀ t ∈ l.tasks,
        FrameHolds k.memory t.trapFrame (h.contexts t.trapFrame) t.satp := fun t ht => by
      simpa using made.frames hu ht (inv.held (by rw [booting]; rfl) ht)
    have mapped : sp.Mapped k.memory := inv.mapped.change made hu
    obtain ⟨⟨c'', ran, resumed⟩, -⟩ :=
      exists_exit_of_returned mapped hu (frames u hu).satp space returned
    obtain rfl : c' = c'' := Option.some.inj (switched.symm.trans ran)
    exact ⟨fuel, u, k, c', booting, space, scheduled, found, mapped, frames, resumed, rfl⟩

theorem inv_start (inv : sp.Inv m h) (step : sp.Step m .start m') :
    sp.Inv m' (h.next m .start m') := by
  obtain ⟨-, u, k, c, -, -, -, found, mapped, frames, resumed, rfl⟩ := exists_of_start inv step
  exact inv_sret (found.inv _) found.mem mapped frames found.pointer resumed

/-- Between traps, the hart is as the kernel relies on. -/
theorem Spaces.Inv.hart (inv : sp.Inv m h) (mode : m.mode ≠ .handling) : l.Inv m.hart where
  objects := inv.objects
  fresh none := by
    cases eq : m.mode with
    | booting => exact (inv.booting eq).2.2
    | user tf =>
      simp only [Machine.hart, eq, Mode.thread] at none
      cases none
    | handling => exact absurd eq mode
    | interrupted => exact absurd eq inv.uninterrupted
  user tf user := by
    cases eq : m.mode with
    | user tf' =>
      simp only [Machine.hart, eq, Mode.thread] at user
      obtain rfl := Option.some.inj user
      obtain ⟨t, ht, eq, running⟩ := inv.user tf' eq
      exact ⟨t, ht, eq, running.scheduled, running.current⟩
    | booting | handling | interrupted =>
      simp only [Machine.hart, eq, Mode.thread] at user
      cases user

/-- A trap of the thread of `t` is saved in its frame, and enters the kernel. -/
theorem exists_entry (inv : sp.Inv m h) (ht : t ∈ l.tasks) (user : m.mode = .user t.trapFrame)
    {trap : Trap} (occurs : m.Occurs l.kernelMemory trap) :
    ∃ c, run sp.mmu entry (trap.taken m.cpu) = some c ∧
      c.memory = saveContext t.trapFrame trap.context trap.scause trap.stval t.satp trap.memory ∧
      c.csr .satp = sp.kernelSatp ∧ c.x a0 = .ofNat 64 t.trapFrame ∧
      c.x tp = .ofNat 64 l.kernelTf ∧ c.csr .sscratch = trap.context.x t6 := by
  obtain ⟨t', ht', eq, running⟩ := inv.user _ user
  obtain rfl := Layout.task_eq_of_trapFrame ht' ht eq
  have frame := occurs.memory.mono (l.framesOwned t' ht)
  have holds := (inv.frames t' ht).congr (frame.mono fun x => bytesAt_of_heldBytes)
  rw [Spaces.slot, if_pos user] at holds
  have mapped := inv.mapped.congr (occurs.memory.mono sp.tablesOwned)
  have view := mapped.own t' ht
  rw [← running.satp, ← running.sscratch] at view
  obtain ⟨c, ran, memory, csr, argument, pointer⟩ :=
    @run_entry sp.mmu sp.tables (trap.taken m.cpu) t'.trapFrame view holds.addr (by
      rw [show (trap.taken m.cpu).memory = trap.memory from rfl, holds.satp]
      exact mapped.identity t' ht)
  refine ⟨c, ran, ?_, ?_, argument, ?_, ?_⟩
  · rw [memory, ← running.satp]
    rfl
  · rw [csr, Function.update_self]
    exact holds.satp
  · rw [pointer]
    exact (frame.load64 (by simp [TrapFrame.kernelTrapFramePtr])
      (by simp [TrapFrame.kernelTrapFramePtr, TrapFrame.SIZE])).trans running.pointer
  · rw [csr, Function.update_of_ne (by decide), Function.update_self]
    rfl

/-- The trap as the kernel sees it. -/
def Trap.userTrap (t : Trap) (s : Surroundings) : UserTrap where
  context := t.context
  memory := t.memory
  scause := t.scause
  stval := t.stval
  surroundings := s

theorem occurs_userTrap {trap : Trap} (occurs : m.Occurs l.kernelMemory trap)
    (fromUser : m.mode.thread ≠ none) (s : Surroundings) :
    (Event.trap (trap.userTrap s)).Occurs l.kernelMemory m.hart := by
  refine ⟨fromUser, ?_, occurs.zero, occurs.memory⟩
  have mode := occurs.mode
  rwa [Option.isNone_eq_false_iff.2 (Option.isSome_iff_ne_none.2 fromUser)] at mode

/-- Saving a context leaves the kernel's memory outside of the frame. -/
theorem agreeOn_saved {trap : Trap} (occurs : m.Occurs l.kernelMemory trap) {p : Nat → Prop}
    (owned : ∀ x, p x → l.kernelMemory x)
    (miss : ∀ x, p x → x < t.trapFrame ∨ t.trapFrame + 552 ≤ x) (scause stval satp : BitVec 64) :
    AgreeOn p m.cpu.memory (saveContext t.trapFrame trap.context scause stval satp trap.memory) :=
  fun x mem => by
    rw [saveContext_apply_of_outside _ _ _ _ _ _ (miss x mem), occurs.memory x (owned x mem)]

/-- The frames after a trap of the thread of `t`. -/
theorem frames_saved {trap : Trap} (inv : sp.Inv m h) (ht : t ∈ l.tasks)
    (user : m.mode = .user t.trapFrame) (occurs : m.Occurs l.kernelMemory trap) (hu : u ∈ l.tasks) :
    FrameHolds (saveContext t.trapFrame trap.context trap.scause trap.stval t.satp trap.memory)
      u.trapFrame (Function.update h.contexts t.trapFrame trap.context u.trapFrame) u.satp := by
  by_cases eq : u = t
  · subst eq
    have holds := (inv.frames u hu).congr
      (occurs.memory.mono fun x held => l.framesOwned u hu x (bytesAt_of_heldBytes held))
    rw [Function.update_self]
    refine .saved holds.addr ?_ _ _
    rw [occurs.mode, user]
    rfl
  · have holds := inv.frames u hu
    rw [Spaces.slot, user, if_neg fun same =>
      eq (Layout.task_eq_of_trapFrame hu ht (Mode.user.inj same).symm)] at holds
    rw [Function.update_of_ne fun same => eq (Layout.task_eq_of_trapFrame hu ht same)]
    refine holds.congr (agreeOn_saved occurs
      (fun x held => l.framesOwned u hu x (bytesAt_of_heldBytes held)) (fun x held => ?_) _ _ _)
    have := Layout.frame_miss ht hu (Ne.symm eq) (bytesAt_of_heldBytes held)
    simp only [TrapFrame.SIZE] at this
    omega

/-- A trap from user mode. -/
theorem inv_trap {trap : Trap} (inv : sp.Inv m h) (step : sp.Step m (.trap trap) m')
    (fromUser : m.mode.thread ≠ none) : sp.Inv m' (h.next m (.trap trap) m') := by
  cases step with
  | @trap _ c occurs entered =>
    obtain ⟨tf, mode⟩ : ∃ tf, m.mode = .user tf := by
      cases eq : m.mode <;> simp [eq, Mode.thread] at fromUser ⊢
    obtain ⟨t, ht, rfl, running⟩ := inv.user tf mode
    obtain ⟨c', ran, memory, space, argument, pointer, -⟩ := exists_entry inv ht mode occurs
    obtain rfl : c = c' := Option.some.inj (entered.symm.trans ran)
    have next : h.next m (.trap trap) { m with cpu := c, mode := .handling } =
        { h with contexts := Function.update h.contexts t.trapFrame trap.context } := by
      simp only [History.next, mode, Mode.thread]
    have kernelFrame : AgreeOn (bytesAt l.kernelTf KernelTrapFrame.SIZE) m.cpu.memory c.memory := by
      rw [memory]
      exact agreeOn_saved occurs l.kernelFrameOwned (fun x inside => by
        have := Layout.kernelFrame_miss ht inside
        simp only [TrapFrame.SIZE] at this
        omega) _ _ _
    have field : AgreeOn (bytesAt (TrapFrame.kernelTrapFramePtr t.trapFrame) 8) m.cpu.memory
        c.memory := by
      rw [memory]
      refine agreeOn_saved occurs (fun x inside => l.framesOwned t ht x ?_) (fun x inside => ?_) _ _ _
      all_goals
        simp only [bytesAt, TrapFrame.kernelTrapFramePtr, TrapFrame.SIZE] at inside ⊢
        omega
    rw [next]
    exact {
      objects := inv.objects
      mapped := inv.mapped.congr (by
        rw [memory]
        exact agreeOn_saved occurs sp.tablesOwned (fun x mem => by
          have := (inv.mapped.own t ht).apart x mem
          simp only [TrapFrame.SIZE] at this
          omega) _ _ _)
      frames := fun u hu => by
        simp only [memory, Spaces.slot]
        exact frames_saved inv ht mode occurs hu
      booting := fun booting => by cases booting
      user := fun tf user => by cases user
      handling := fun _ => ⟨t, ht, {
        running := running.running
        satp := space
        argument
        kernelTf := pointer
        scheduled := running.scheduled
        current := running.current.congr kernelFrame
        pointer := (field.load64 (Nat.le_refl _) (Nat.le_refl _)).trans running.pointer }⟩
      uninterrupted := fun interrupted => by cases interrupted }

/-- What `handle_interrupt` does for the thread of `t`. -/
theorem Spaces.InKernel.handled {s : Surroundings} {fuel next : Nat} (running : sp.InKernel m h t)
    (inv : sp.Inv m h) (ht : t ∈ l.tasks) (handling : m.mode = .handling)
    (clean : l.CleanRead m.kernel m.argument s.answer)
    (result : handleInterrupt fuel m.kernelTf m.argument m.kernel s = some (next, k)) :
    MemoryChange l t m.cpu.memory next k.memory
        (resumedContext m.kernelTf t.trapFrame m.kernel s.answer) ∧
      l.Inv (resume k next sp.kernelSatp) := by
  have tf : m.argument = t.trapFrame := by
    rw [Machine.argument, running.argument, sp.toNat_trapFrame ht]
  have kernelTf : m.kernelTf = l.kernelTf := by
    rw [Machine.kernelTf, running.kernelTf, sp.toNat_kernelTf]
  rw [tf] at clean
  rw [kernelTf, tf] at result
  rw [kernelTf]
  have user := (inv.held (by rw [handling]; rfl) ht).user
  have handles := handleInterrupt_cases (k := m.kernel) inv.objects ht running.current user result
  exact ⟨handles.memoryChange inv.objects ht running.current clean,
    handles.inv inv.objects ht running.scheduled running.current clean _⟩

/-- `handle_interrupt` and the return to a thread. -/
theorem inv_handled {s : Surroundings} (inv : sp.Inv m h) (step : sp.Step m (.handled s) m')
    (clean : l.CleanRead m.kernel m.argument s.answer) : sp.Inv m' (h.next m (.handled s) m') := by
  cases step with
  | @handled _ fuel next k c c' handling result returned left =>
    obtain ⟨t, ht, running⟩ := inv.handling handling
    obtain ⟨made, after⟩ := running.handled inv ht handling clean result
    obtain ⟨u, hu, rfl, -⟩ := after.user _ rfl
    have frames := fun (w : Task) (hw : w ∈ l.tasks) => made.frames ht hw (inv.held (by rw [handling]; rfl) hw)
    have mapped : sp.Mapped k.memory := inv.mapped.change made ht
    obtain ⟨-, c'', ran, resumed⟩ :=
      exists_exit_of_returned mapped hu (frames u hu).satp running.satp returned
    obtain rfl : c' = c'' := Option.some.inj (left.symm.trans ran)
    have history : h.next m (.handled s) (Machine.sret k u.trapFrame c') =
        { contexts := Function.update h.contexts t.trapFrame
            (resumedContext m.kernelTf t.trapFrame m.kernel s.answer (h.contexts t.trapFrame))
          running := (Machine.sret k u.trapFrame c').mode.thread } := by
      simp only [History.next, running.running]
    rw [history]
    exact inv_sret after hu mapped frames (made.pointer ht running.pointer) resumed

/-- **Every clean event keeps the invariant.** -/
theorem inv_cleanStep {s s' : Machine × History} {e : Machine.Event} (inv : sp.Inv s.1 s.2)
    (step : sp.CleanStep s e s') : sp.Inv s'.1 s'.2 := by
  obtain ⟨⟨step, fromUser, history⟩, clean⟩ := step
  rw [history]
  cases e with
  | start => exact inv_start inv step
  | trap => exact inv_trap inv step fromUser
  | handled => exact inv_handled inv step clean

theorem inv_cleanRun {s s' : Machine × History} {es : List Machine.Event} (inv : sp.Inv s.1 s.2)
    (run : Transition.Run sp.CleanStep s es s') : sp.Inv s'.1 s'.2 :=
  run.invariant (I := fun s => sp.Inv s.1 s.2) (fun _ _ _ inv step => inv_cleanStep inv step) inv

end

end MatteOS.Traps
