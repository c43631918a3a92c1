import MatteOS.Traps.TrapVector
import MatteOS.Traps.Verify.TrapFrames

/-!
# What the trap vector does

The code before the call of `handle_interrupt` saves the context in the frame that `sscratch` names
and enters the kernel (`run_entry`); the code after it resumes the context in the frame that is
returned (`run_exit`), as does `switch_to_user` (`run_switchToUser`).
-/

namespace MatteOS.Traps

open ByteMemory Riscv

namespace TrapVector

/-- The context of a hart that has just trapped. -/
def contextOf (c : Cpu) : Context := ⟨c.x, c.f, c.csr .sepc, c.csr .sstatus⟩

variable {mmu : Mmu} {tables : Nat → Prop} {c : Cpu} {satp va : BitVec 64} {tf : Nat}

/-- Storing agrees with itself on equal values. -/
theorem storeAll_congr {a : Nat → Nat} {v w : Nat → BitVec 64} {is : List Nat}
    (same : ∀ i ∈ is, v i = w i) (m : Memory) : storeAll a v is m = storeAll a w is m := by
  induction is generalizing m with
  | nil => rfl
  | cons i is ih =>
    simp only [storeAll, List.foldl_cons, same i (by simp)]
    exact ih (fun j mem => same j (by simp [mem])) _

/-- The frame after section 2. -/
abbrev savedRegisters (tf : Nat) (c : Cpu) : Memory :=
  saveRegisters tf (contextOf c) (c.csr .scause) (c.csr .stval) c.memory

theorem regs_eq (tf : Nat) : TrapFrame.regs tf = fun i => tf + (i * REG_SIZE + OFF_REGS) := by
  funext i
  simp only [TrapFrame.regs, REG_SIZE, OFF_REGS]
  omega

theorem fregs_eq (tf : Nat) : TrapFrame.fregs tf = fun i => tf + (i * REG_SIZE + OFF_FREGS) := by
  funext i
  simp only [TrapFrame.fregs, REG_SIZE, OFF_FREGS]
  omega

/-- The registers have aligned slots in the frame. -/
theorem regs_place {i : Nat} (h : i < 32) : 8 ∣ i * REG_SIZE + OFF_REGS ∧
    i * REG_SIZE + OFF_REGS + 8 ≤ TrapFrame.SIZE := by
  simp only [REG_SIZE, OFF_REGS, TrapFrame.SIZE]
  omega

theorem fregs_place {i : Nat} (h : i < 32) : 8 ∣ i * REG_SIZE + OFF_FREGS ∧
    i * REG_SIZE + OFF_FREGS + 8 ≤ TrapFrame.SIZE := by
  simp only [REG_SIZE, OFF_FREGS, TrapFrame.SIZE]
  omega

theorem regs_places {rs : List Nat} (h : ∀ i ∈ rs, i < 32) : ∀ i ∈ rs,
    8 ∣ i * REG_SIZE + OFF_REGS ∧ i * REG_SIZE + OFF_REGS + 8 ≤ TrapFrame.SIZE :=
  fun i mem => regs_place (h i mem)

theorem fregs_places : ∀ i ∈ List.range 32,
    8 ∣ i * REG_SIZE + OFF_FREGS ∧ i * REG_SIZE + OFF_FREGS + 8 ≤ TrapFrame.SIZE :=
  fun _ mem => fregs_place (List.mem_range.1 mem)

/-- The last general register is saved from `sscratch`. -/
theorem storeAll_regs (base : BitVec 64) (m : Memory) :
    store64 (storeAll (fun r => tf + (r * REG_SIZE + OFF_REGS)) (Function.update c.x t6 base)
      (List.range 31) m) (tf + (31 * REG_SIZE + OFF_REGS)) (c.x t6) =
        storeAll (TrapFrame.regs tf) c.x (List.range 32) m := by
  have others : ∀ r ∈ List.range 31, Function.update c.x t6 base r = c.x r := fun r mem =>
    Function.update_of_ne (Nat.ne_of_lt (List.mem_range.1 mem)) _ _
  rw [storeAll_congr others, ← regs_eq, List.range_succ, storeAll, storeAll, List.foldl_append]
  rfl

/-- Sections 1 and 2. -/
theorem run_saveUserContext
    (view : View mmu tables c.memory (c.csr .satp) (c.csr .sscratch) tf TrapFrame.SIZE)
    (is : List Instr) : ∃ x, x t6 = c.csr .sscratch ∧
      View mmu tables (savedRegisters tf c) (c.csr .satp) (c.csr .sscratch) tf TrapFrame.SIZE ∧
      run mmu (saveUserContext ++ is) c = run mmu is
        ⟨x, c.f, Function.update c.csr .sscratch (c.x t6), savedRegisters tf c⟩ := by
  have swap : (Instr.csrrw t6 .sscratch t6).exec mmu c = some
      ⟨Function.update c.x t6 (c.csr .sscratch), c.f, Function.update c.csr .sscratch (c.x t6),
        c.memory⟩ := rfl
  have space : Function.update c.csr .sscratch (c.x t6) .satp = c.csr .satp := by simp
  have places := @regs_places (List.range 31) fun i mem => Nat.lt_succ_of_lt (List.mem_range.1 mem)
  have last := @regs_place 31 (by omega)
  have view₁ := view.storeAll (fun r mem => (places r mem).2)
    (Function.update c.x t6 (c.csr .sscratch))
  have view₂ := view₁.store64 last.2 (c.x t6)
  rw [storeAll_regs] at view₂
  have view₃ := view₂.storeAll (fun r mem => (fregs_places r mem).2) c.f
  rw [← fregs_eq] at view₃
  have view₄ := @View.store64 _ _ _ _ _ _ _ view₃ OFF_SEPC (by decide) (c.csr .sepc)
  have view₅ := @View.store64 _ _ _ _ _ _ _ view₄ OFF_SSTATUS (by decide) (c.csr .sstatus)
  have view₆ := @View.store64 _ _ _ _ _ _ _ view₅ OFF_SCAUSE (by decide) (c.csr .scause)
  have view₇ := @View.store64 _ _ _ _ _ _ _ view₆ OFF_STVAL (by decide) (c.csr .stval)
  simp only [saveUserContext, List.cons_append, List.append_assoc, List.nil_append]
  rw [run_cons_of_exec swap]
  refine ⟨?registers, ?named, view₇, ?ran⟩
  case ran =>
    refine (run_map_sd view space (by rfl) places).trans ?_
    refine (run_csrr_sd view₁ space (by rfl) last.1 last.2 (by decide) (by decide) .sscratch).trans ?_
    simp only [Function.update_self]
    rw [storeAll_regs]
    refine (run_map_fsd view₂ space (by rfl) fregs_places).trans ?_
    rw [← fregs_eq]
    refine (run_csrr_sd view₃ space (by rfl) (by decide) (by decide) (by decide) (by decide)
      .sepc).trans ?_
    refine (run_csrr_sd view₄ space (by rfl) (by decide) (by decide) (by decide) (by decide)
      .sstatus).trans ?_
    refine (run_csrr_sd view₅ space (by rfl) (by decide) (by decide) (by decide) (by decide)
      .scause).trans ?_
    refine (run_csrr_sd view₆ space (by rfl) (by decide) (by decide) (by decide) (by decide)
      .stval).trans ?_
    rfl
  case named => rfl

/-- Sections 3 to 7. -/
theorem run_enterKernel {x f : Nat → BitVec 64} {csr : Csr → BitVec 64} {m : Memory}
    (view : View mmu tables m (csr .satp) va tf TrapFrame.SIZE) (here : x t6 = va)
    (own : load64 m (TrapFrame.kernelAddr tf) = .ofNat 64 tf)
    (kernel : View mmu tables m (load64 m (TrapFrame.kernelSatp tf)) (.ofNat 64 tf) tf
      TrapFrame.SIZE) :
    ∃ x', x' a0 = .ofNat 64 tf ∧ x' tp = load64 m (TrapFrame.kernelTrapFramePtr tf) ∧
      run mmu enterKernel ⟨x, f, csr, m⟩ = some ⟨x', f,
        Function.update csr .satp (load64 m (TrapFrame.kernelSatp tf)),
        store64 m (TrapFrame.kernelSatp tf) (csr .satp)⟩ := by
  have place : OFF_DUAL_SATP + 8 ≤ TrapFrame.SIZE := by decide
  have view' := view.store64 place (csr .satp)
  have kernel' := kernel.store64 place (csr .satp)
  -- the branch skips the write of `satp` where it would change nothing
  have switch : ∀ x' : Nat → BitVec 64, x' t4 = load64 m (TrapFrame.kernelSatp tf) →
      x' t5 = csr .satp → (Instr.beq t4 t5 [.csrw .satp t4, .sfenceVma]).exec mmu
        ⟨x', f, csr, store64 m (TrapFrame.kernelSatp tf) (csr .satp)⟩ = some ⟨x', f,
          Function.update csr .satp (load64 m (TrapFrame.kernelSatp tf)),
          store64 m (TrapFrame.kernelSatp tf) (csr .satp)⟩ := by
    intro x' stored current
    simp only [Instr.exec, run, Option.bind_some, Cpu.setCsr, stored, current]
    split
    · rename_i same
      rw [same, Function.update_eq_self]
    · rfl
  refine ⟨?registers, ?argument, ?pointer, ?ran⟩
  case ran =>
    refine (run_ld view rfl (by exact here) (by decide) (by decide) (by decide)).trans ?_
    refine (run_ld view rfl (by exact here) (by decide) (by decide) (by decide)).trans ?_
    refine (run_csrr_sd view rfl (by exact here) (by decide) place (by decide) (by decide)
      .satp).trans ?_
    refine (run_cons_of_exec (switch _ rfl rfl)).trans ?_
    refine (run_mv (by decide)).trans ?_
    refine (run_ld kernel' rfl (by exact own) (by decide) (by decide) (by decide)).trans ?_
    refine (run_ld kernel' rfl (by exact own) (by decide) (by decide) (by decide)).trans ?_
    refine (run_mv (by decide)).trans ?_
    rfl
  case argument => exact own
  case pointer =>
    exact load64_store64_of_disjoint _ _ (by simp only [OFF_DUAL_SATP, OFF_K_TP]; omega)

/-- **The way in**: a trap saves its context in the frame that `sscratch` names, and enters the
kernel with the real address of the frame. -/
theorem run_entry
    (view : View mmu tables c.memory (c.csr .satp) (c.csr .sscratch) tf TrapFrame.SIZE)
    (own : load64 c.memory (TrapFrame.kernelAddr tf) = .ofNat 64 tf)
    (kernel : View mmu tables c.memory (load64 c.memory (TrapFrame.kernelSatp tf)) (.ofNat 64 tf) tf
      TrapFrame.SIZE) :
    ∃ c', run mmu entry c = some c' ∧
      c'.memory = saveContext tf (contextOf c) (c.csr .scause) (c.csr .stval) (c.csr .satp)
        c.memory ∧
      c'.csr = Function.update (Function.update c.csr .sscratch (c.x t6)) .satp
        (load64 c.memory (TrapFrame.kernelSatp tf)) ∧
      c'.x a0 = .ofNat 64 tf ∧ c'.x tp = load64 c.memory (TrapFrame.kernelTrapFramePtr tf) := by
  have later : ∀ b, tf + 544 ≤ b → load64 (savedRegisters tf c) b = load64 c.memory b := fun b h =>
    load64_saveRegisters_of_outside _ _ _ _ _ (.inr h)
  have dual := later (TrapFrame.kernelSatp tf) (Nat.le_refl _)
  have agree : AgreeOn tables c.memory (savedRegisters tf c) := fun a mem =>
    saveRegisters_apply_of_outside _ _ _ _ _ (by
      have := view.apart a mem
      simp only [TrapFrame.SIZE] at this
      omega)
  obtain ⟨x, here, view', saved⟩ := run_saveUserContext view enterKernel
  have space : c.csr .satp = Function.update c.csr .sscratch (c.x t6) .satp := by simp
  rw [space] at view'
  obtain ⟨x', argument, pointer, entered⟩ := @run_enterKernel mmu tables _ tf x c.f _ _ view' here
    ((later _ (by simp [TrapFrame.kernelAddr])).trans own) (by
      rw [dual]
      exact kernel.congr agree)
  rw [dual, ← space] at entered
  rw [later _ (by simp [TrapFrame.kernelTrapFramePtr])] at pointer
  exact ⟨_, saved.trans entered, rfl, rfl, argument, pointer⟩

/-! ## The way out -/

/-- The hart has resumed the context in the frame at `tf`, from the memory `m` and under the
kernel's `satp`. -/
structure Resumed (m : Memory) (tf : Nat) (satp : BitVec 64) (c : Cpu) : Prop where
  memory : c.memory = store64 m (TrapFrame.kernelSatp tf) satp
  x : ∀ i, 0 < i → i < 32 → c.x i = load64 m (TrapFrame.regs tf i)
  f : ∀ i < 32, c.f i = load64 m (TrapFrame.fregs tf i)
  sepc : c.csr .sepc = load64 m (TrapFrame.sepc tf)
  sstatus : c.csr .sstatus = load64 m (TrapFrame.sstatus tf)
  satp : c.csr .satp = load64 m (TrapFrame.kernelSatp tf)
  sscratch : c.csr .sscratch = TRAP_FRAME_ALIAS

variable {x f : Nat → BitVec 64} {csr : Csr → BitVec 64} {m : Memory}

/-- Sections 8 and 9. -/
theorem run_leaveKernel (kernel : View mmu tables m (csr .satp) (.ofNat 64 tf) tf TrapFrame.SIZE)
    (here : x t6 = .ofNat 64 tf) (is : List Instr) :
    ∃ x', run mmu (leaveKernel ++ is) ⟨x, f, csr, m⟩ = run mmu is ⟨x', f,
      Function.update (Function.update (Function.update csr .sepc (load64 m (TrapFrame.sepc tf)))
        .sstatus (load64 m (TrapFrame.sstatus tf))) .satp (load64 m (TrapFrame.kernelSatp tf)),
      store64 m (TrapFrame.kernelSatp tf) (csr .satp)⟩ := by
  have space₁ : Function.update csr .sepc (load64 m (TrapFrame.sepc tf)) .satp = csr .satp := by simp
  have space₂ : Function.update (Function.update csr .sepc (load64 m (TrapFrame.sepc tf))) .sstatus
      (load64 m (TrapFrame.sstatus tf)) .satp = csr .satp := by simp
  simp only [leaveKernel, List.cons_append, List.nil_append]
  refine ⟨?registers, ?ran⟩
  case ran =>
    refine (run_ld_csrw kernel rfl (by exact here) (by decide) (by decide) (by decide)
      .sepc).trans ?_
    refine (run_ld_csrw kernel space₁ (by exact here) (by decide) (by decide) (by decide)
      .sstatus).trans ?_
    refine (run_ld kernel space₂ (by exact here) (by decide) (by decide) (by decide)).trans ?_
    refine (run_csrr_sd kernel space₂ (by exact here) (by decide) (by decide) (by decide)
      (by decide) .satp).trans ?_
    rw [space₂]
    exact run_csrw .satp

/-- The registers that are restored through `t6`. -/
abbrev restoredGps : List Nat := (List.range' 1 30).filter (· ≠ 5)

theorem mem_restoredGps {i : Nat} : i ∈ restoredGps ↔ 0 < i ∧ i < 31 ∧ i ≠ 5 := by
  simp only [restoredGps, List.mem_filter, List.mem_range'_1, decide_eq_true_eq]
  omega

/-- Sections 10 and 11. -/
theorem run_restoreRegisters
    (user : View mmu tables m (csr .satp) TRAP_FRAME_ALIAS tf TrapFrame.SIZE) :
    ∃ c', run mmu restoreRegisters ⟨x, f, csr, m⟩ = some c' ∧ c'.memory = m ∧
      c'.csr = Function.update csr .sscratch TRAP_FRAME_ALIAS ∧
      (∀ i, 0 < i → i < 32 → c'.x i = load64 m (TrapFrame.regs tf i)) ∧
      ∀ i < 32, c'.f i = load64 m (TrapFrame.fregs tf i) := by
  have places := @regs_places restoredGps fun i mem => by
    have := mem_restoredGps.1 mem
    omega
  have kept : restored restoredGps (fun r => load64 m (tf + (r * REG_SIZE + OFF_REGS)))
      (Function.update x t6 TRAP_FRAME_ALIAS) t6 = TRAP_FRAME_ALIAS := by
    rw [restored, if_neg (by rw [mem_restoredGps]; decide), Function.update_self]
  refine ⟨?left, ?ran, ?untouched, ?control, ?general, ?floats⟩
  case ran =>
    refine (run_li (by decide)).trans ?_
    refine (run_map_fld user rfl (by rfl) fregs_places).trans ?_
    refine (run_map_ld user rfl (by rfl) places (by rw [mem_restoredGps]; decide)
      (by rw [mem_restoredGps]; decide)).trans ?_
    refine (run_ld_csrw user rfl (by exact kept) (regs_place (by omega)).1 (regs_place (by omega)).2
      (by decide) .sscratch).trans ?_
    refine (run_ld user (by rfl) (by exact kept) (regs_place (by omega)).1
      (regs_place (by omega)).2 (by decide)).trans ?_
    refine (run_csrrw (by decide) .sscratch).trans ?_
    rfl
  case untouched => rfl
  case control =>
    simp only [Function.update_idem, Function.update_of_ne (show t6 ≠ t0 by decide), kept]
  case general =>
    intro i positive bound
    rw [regs_eq]
    by_cases base : i = t6
    · simp only [base, Function.update_self]
    by_cases first : i = t0
    · simp only [first, Function.update_self, Function.update_of_ne (show t0 ≠ t6 by decide)]
    simp only [Function.update_of_ne base, Function.update_of_ne first]
    rw [restored, if_pos (mem_restoredGps.2 ⟨positive, Nat.lt_of_le_of_ne (Nat.le_of_lt_succ bound) base,
      first⟩)]
  case floats =>
    intro i bound
    simp only [fregs_eq, restored, List.mem_range, if_pos bound]

theorem run_return (kernel : View mmu tables m (csr .satp) (.ofNat 64 tf) tf TrapFrame.SIZE)
    (user : View mmu tables m (load64 m (TrapFrame.kernelSatp tf)) TRAP_FRAME_ALIAS tf
      TrapFrame.SIZE) (here : x t6 = .ofNat 64 tf) :
    ∃ c', run mmu (leaveKernel ++ restoreRegisters) ⟨x, f, csr, m⟩ = some c' ∧
      Resumed m tf (csr .satp) c' := by
  have user' := @View.store64 _ _ _ _ _ _ _ user OFF_DUAL_SATP (by decide) (csr .satp)
  have kept : ∀ b, b + 8 ≤ tf + 544 →
      load64 (store64 m (TrapFrame.kernelSatp tf) (csr .satp)) b = load64 m b := fun b h =>
    load64_store64_of_disjoint _ _ (by simp only [TrapFrame.kernelSatp]; omega)
  obtain ⟨x', left⟩ := @run_leaveKernel mmu tables tf x f csr m kernel here restoreRegisters
  obtain ⟨c', restored, memory, control, general, floats⟩ := @run_restoreRegisters mmu tables tf x' f
    (Function.update (Function.update (Function.update csr .sepc (load64 m (TrapFrame.sepc tf)))
      .sstatus (load64 m (TrapFrame.sstatus tf))) .satp (load64 m (TrapFrame.kernelSatp tf))) _ user'
  exact ⟨c', left.trans restored, {
    memory
    x i positive bound := by
      rw [general i positive bound]
      exact kept _ (by simp only [TrapFrame.regs]; omega)
    f i bound := by
      rw [floats i bound]
      exact kept _ (by simp only [TrapFrame.fregs]; omega)
    sepc := congrFun control .sepc
    sstatus := congrFun control .sstatus
    satp := congrFun control .satp
    sscratch := congrFun control .sscratch }⟩

/-- **The way out** of `m_trap_vector`: the context in the frame that is returned is resumed. -/
theorem run_exit (kernel : View mmu tables c.memory (c.csr .satp) (.ofNat 64 tf) tf TrapFrame.SIZE)
    (user : View mmu tables c.memory (load64 c.memory (TrapFrame.kernelSatp tf)) TRAP_FRAME_ALIAS tf
      TrapFrame.SIZE) (argument : c.x a0 = .ofNat 64 tf) :
    ∃ c', run mmu exit c = some c' ∧ Resumed c.memory tf (c.csr .satp) c' := by
  obtain ⟨c', returned, resumed⟩ :=
    @run_return mmu tables tf (Function.update c.x t6 (c.x a0)) c.f c.csr c.memory kernel user
      (by rw [Function.update_self, argument])
  exact ⟨c', (run_mv (by decide)).trans returned, resumed⟩

/-- **The first way out**, that of `switch_to_user`. -/
theorem run_switchToUser (vector : BitVec 64)
    (kernel : View mmu tables c.memory (c.csr .satp) (.ofNat 64 tf) tf TrapFrame.SIZE)
    (user : View mmu tables c.memory (load64 c.memory (TrapFrame.kernelSatp tf)) TRAP_FRAME_ALIAS tf
      TrapFrame.SIZE) (argument : c.x a0 = .ofNat 64 tf) :
    ∃ c', run mmu (switchToUser vector) c = some c' ∧ Resumed c.memory tf (c.csr .satp) c' := by
  obtain ⟨c', returned, resumed⟩ := @run_return mmu tables tf
    (Function.update (Function.update (Function.update c.x t0 vector) t0
      (1 <<< 1 ||| 1 <<< 5 ||| 1 <<< 9)) t6 (c.x a0)) c.f
    (Function.update (Function.update c.csr .stvec vector) .sie (1 <<< 1 ||| 1 <<< 5 ||| 1 <<< 9))
    c.memory kernel user (by rw [Function.update_self, argument])
  refine ⟨c', ?_, resumed⟩
  refine (run_li (by decide)).trans ((run_csrw .stvec).trans ?_)
  refine (run_li (by decide)).trans ((run_csrw .sie).trans ?_)
  exact (run_mv (by decide)).trans returned

end TrapVector

end MatteOS.Traps
