import MatteOS.Traps.Verify.ContextSwitch

/-!
# The frame of a trap

A trap from user mode is always taken on a frame of the kernel. A trap of the kernel's own
is not: at boot `sscratch` names the frame of the hart, whose `kernel_addr` is never written, and
later it is what the thread left in `t6`.
-/

namespace MatteOS.Traps

open ByteMemory Processes Riscv TrapVector

namespace Spaces

variable {l : Layout} (sp : Spaces l)

/-- The trap is taken on the frame at `tf`: `m_trap_vector` saves the context there and nowhere else,
and passes the address of the frame on. -/
structure TakenOn (m : Machine) (trap : Trap) (tf : Nat) : Prop where
  owned : tf = l.kernelTf ∨ ∃ t ∈ l.tasks, t.trapFrame = tf
  scratch : sp.mmu trap.memory (m.cpu.csr .satp) (m.cpu.csr .sscratch) = some tf
  addr : load64 trap.memory (TrapFrame.kernelAddr tf) = .ofNat 64 tf
  saved : ∃ c, run sp.mmu entry (trap.taken m.cpu) = some c ∧ c.x a0 = .ofNat 64 tf ∧
    c.memory = saveContext tf trap.context trap.scause trap.stval (m.cpu.csr .satp) trap.memory

/-- The trap is taken on a frame of the kernel. -/
def OnValidFrame (m : Machine) (trap : Trap) : Prop := ∃ tf, sp.TakenOn m trap tf

end Spaces

section

variable {l : Layout} {sp : Spaces l} {m m' : Machine} {h : History} {trap nested : Trap}

theorem Spaces.Inv.onValidFrame (inv : sp.Inv m h) (occurs : m.Occurs l.kernelMemory trap)
    (fromUser : m.mode.thread ≠ none) : sp.OnValidFrame m trap := by
  obtain ⟨tf, mode⟩ : ∃ tf, m.mode = .user tf := by
    cases eq : m.mode <;> simp [eq, Mode.thread] at fromUser ⊢
  obtain ⟨t, ht, rfl, running⟩ := inv.user tf mode
  obtain ⟨c, ran, memory, -, argument, -⟩ := exists_entry inv ht mode occurs
  have mapped := inv.mapped.congr (occurs.memory.mono sp.tablesOwned)
  have holds := (inv.frames t ht).congr
    (occurs.memory.mono fun x held => l.framesOwned t ht x (bytesAt_of_heldBytes held))
  have scratch := (mapped.own t ht).maps 0 (by simp [TrapFrame.SIZE])
  rw [← running.satp, ← running.sscratch] at scratch
  refine ⟨t.trapFrame, .inr ⟨t, ht, rfl⟩, by simpa using scratch, holds.addr, c, ran, argument, ?_⟩
  rw [memory, running.satp]

/-- In every run whose traps come from user mode and whose reads miss the kernel's memory, the next
trap is taken on a frame of the kernel if it comes from user mode as well. -/
theorem onValidFrame_of_cleanRun (initial : sp.Initial m) {es : List Machine.Event}
    {s : Machine × History} (run : Transition.Run sp.CleanStep (m, .initial m) es s)
    (occurs : s.1.Occurs l.kernelMemory trap) (fromUser : s.1.mode.thread ≠ none) :
    sp.OnValidFrame s.1 trap :=
  (inv_cleanRun (s := (m, .initial m)) initial.inv run).onValidFrame occurs fromUser

/-! ## Traps of the kernel -/

/-- Before the first switch no trap is taken on a valid frame. -/
theorem not_onValidFrame_at_boot (initial : sp.Initial m)
    (identity : sp.mmu trap.memory sp.kernelSatp (.ofNat 64 l.kernelTf) = some l.kernelTf)
    (nonzero : l.kernelTf ≠ 0) (occurs : m.Occurs l.kernelMemory trap) :
    ¬ sp.OnValidFrame m trap := by
  rintro ⟨tf, taken⟩
  obtain ⟨c, cpu⟩ := initial.hart
  obtain rfl : tf = l.kernelTf := by
    have scratch := taken.scratch
    rw [initial.satp, cpu] at scratch
    exact Option.some.inj (scratch.symm.trans identity)
  obtain ⟨cpuId, hartStackTop, frame⟩ := initial.kernelFrame
  have unset : load64 trap.memory (TrapFrame.kernelAddr l.kernelTf) = 0 := by
    rw [(occurs.memory.mono l.kernelFrameOwned).load64 (by simp [TrapFrame.kernelAddr])
      (by simp [TrapFrame.kernelAddr, KernelTrapFrame.SIZE]),
      frame.load64 (by simp [TrapFrame.kernelAddr])
        (by simp [TrapFrame.kernelAddr, KernelTrapFrame.SIZE])]
    simp only [initKernelTrapFrame, TrapFrame.kernelAddr, KernelTrapFrame.cpuId, TrapFrame.regs,
      TrapFrame.kernelSp, TrapFrame.kernelTrapFramePtr, TrapFrame.kernelSatp]
    repeat rw [load64_store64_of_disjoint _ _ (by omega)]
    exact load64_eq_zero fun _ _ _ => rfl
  have zero := congrArg BitVec.toNat (unset.symm.trans taken.addr)
  rw [sp.toNat_kernelTf] at zero
  exact nonzero zero.symm

/-- While a trap is handled, `sscratch` is what the thread has left in `t6`. -/
theorem sscratch_of_trap (inv : sp.Inv m h) (fromUser : m.mode.thread ≠ none)
    (step : sp.Step m (.trap trap) m') : m'.cpu.csr .sscratch = trap.context.x t6 := by
  obtain ⟨tf, mode⟩ : ∃ tf, m.mode = .user tf := by
    cases eq : m.mode <;> simp [eq, Mode.thread] at fromUser ⊢
  obtain ⟨t, ht, rfl, -⟩ := inv.user tf mode
  cases step with
  | @trap _ c occurs entered =>
    obtain ⟨c', ran, -, -, -, -, scratch⟩ := exists_entry inv ht mode occurs
    obtain rfl : c = c' := Option.some.inj (entered.symm.trans ran)
    exact scratch

end

/-! ## Faults of the kernel -/

/-- A fault of kernel code. -/
def kernelFault (m : Machine) : Trap where
  context := { x := fun _ => 0, f := fun _ => 0, sepc := 0x80000000, sstatus := 1 <<< 8 }
  memory := m.cpu.memory
  scause := 5
  stval := 0

theorem kernelFault_occurs {m : Machine} (kernel : m.mode.thread = none)
    (p : Nat → Prop) : m.Occurs p (kernelFault m) :=
  ⟨by rw [kernel]; simp [kernelFault], rfl, .refl _ _⟩

theorem onValidFrame_of_cleanRun_lone : ∃ (s : Machine × History) (trap : Trap), s.1.mode = .user 0x10000 ∧
    loneSpaces.OnValidFrame s.1 trap := by
  obtain ⟨es, s, run, mode, -⟩ := loneMachine_open
  have occurs : s.1.Occurs lone.kernelMemory (readFrame s.1.hart).trap :=
    ⟨by rw [mode]; simp [readFrame, systemCall, UserTrap.trap, Mode.thread], rfl, .refl _ _⟩
  exact ⟨s, _, mode, onValidFrame_of_cleanRun loneMachine_initial run occurs (by
    rw [mode]
    exact Option.some_ne_none _)⟩

/-- Neither a fault before the first switch nor one while a trap is handled is taken on a frame
of the kernel. -/
theorem kernelFault_on_no_frame :
    (loneMachine.Occurs lone.kernelMemory (kernelFault loneMachine) ∧
      ¬ loneSpaces.OnValidFrame loneMachine (kernelFault loneMachine)) ∧
    ∃ es s, Transition.Run loneSpaces.CleanStep (loneMachine, .initial loneMachine) es s ∧
      s.1.mode = .handling ∧ s.1.Occurs lone.kernelMemory (kernelFault s.1) ∧
      ¬ loneSpaces.OnValidFrame s.1 (kernelFault s.1) := by
  have boot : loneMachine.Occurs lone.kernelMemory (kernelFault loneMachine) :=
    kernelFault_occurs rfl _
  have identity : ∀ m va, loneSpaces.mmu m loneSpaces.kernelSatp va = some va.toNat :=
    lone_smallSpaces.identity
  refine ⟨⟨boot, not_onValidFrame_at_boot loneMachine_initial (identity loneMachine.cpu.memory 0x20000)
    (by decide) boot⟩, ?_⟩
  obtain ⟨es, s, run, mode, -⟩ := loneMachine_open
  have inv := inv_cleanRun loneMachine_initial.inv run
  obtain ⟨t, ht, eq, -⟩ := inv.user _ mode
  obtain rfl := List.mem_singleton.1 ht
  have fromUser : s.1.mode.thread ≠ none := by rw [mode]; exact Option.some_ne_none _
  have occurs : s.1.Occurs lone.kernelMemory (readFrame s.1.hart).trap :=
    ⟨by rw [mode]; simp [readFrame, systemCall, UserTrap.trap, Mode.thread], rfl, .refl _ _⟩
  obtain ⟨m₁, entered, handling, -, -, -, space⟩ :=
    exists_trap inv ht mode occurs (readFrame s.1.hart).surroundings
  refine ⟨_, _, run.append (.cons ⟨Spaces.userStep_next (h := s.2) entered fromUser, trivial⟩
    (.nil _)), handling, kernelFault_occurs (by rw [handling]; rfl) _, ?_⟩
  rintro ⟨tf, taken⟩
  -- the thread has left 0 in `t6`
  have scratch := taken.scratch
  rw [space, sscratch_of_trap inv fromUser entered] at scratch
  obtain rfl : 0 = tf := Option.some.inj ((identity m₁.cpu.memory 0).symm.trans scratch)
  simpa [lone] using taken.owned

end MatteOS.Traps
