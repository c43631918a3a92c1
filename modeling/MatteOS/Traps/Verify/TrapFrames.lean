import MatteOS.Traps.UserMode

/-!
# Trap frames in memory

A saved context is read back field by field, and saving it touches no byte outside the
frame.
-/

namespace MatteOS.Traps

open ByteMemory Processes

/-! ## Saving a context -/

section

variable (tf : Nat) (c : Context) (scause stval satp : BitVec 64) (m : Memory)

/-- Saving the registers writes the fields before `kernel_satp`. -/
theorem saveRegisters_apply_of_outside {x : Nat} (outside : x < tf ∨ tf + 544 ≤ x) :
    saveRegisters tf c scause stval m x = m x := by
  simp only [saveRegisters, TrapFrame.sepc, TrapFrame.sstatus, TrapFrame.scause, TrapFrame.stval]
  rw [store64_apply_of_outside _ _ (by omega), store64_apply_of_outside _ _ (by omega),
    store64_apply_of_outside _ _ (by omega), store64_apply_of_outside _ _ (by omega),
    storeAll_apply_of_outside, storeAll_apply_of_outside]
  · intro i mem
    have := List.mem_range.1 mem
    simp only [TrapFrame.regs]
    omega
  · intro i mem
    have := List.mem_range.1 mem
    simp only [TrapFrame.fregs]
    omega

theorem load64_saveRegisters_of_outside {b : Nat} (outside : b + 8 ≤ tf ∨ tf + 544 ≤ b) :
    load64 (saveRegisters tf c scause stval m) b = load64 m b :=
  load64_congr fun _ _ _ => saveRegisters_apply_of_outside _ _ _ _ _ (by omega)

/-- Saving writes the frame only. -/
theorem saveContext_apply_of_outside {x : Nat} (outside : x < tf ∨ tf + 552 ≤ x) :
    saveContext tf c scause stval satp m x = m x := by
  rw [saveContext, store64_apply_of_outside _ _ (by simp only [TrapFrame.kernelSatp]; omega),
    saveRegisters_apply_of_outside _ _ _ _ _ (by omega)]

theorem load64_saveContext_of_outside {b : Nat} (outside : b + 8 ≤ tf ∨ tf + 552 ≤ b) :
    load64 (saveContext tf c scause stval satp m) b = load64 m b :=
  load64_congr fun _ _ _ => saveContext_apply_of_outside _ _ _ _ _ _ (by omega)

/-- The fields after the registers are stored last. -/
theorem load64_saveContext_regs {i : Nat} (h : i < 32) :
    load64 (saveContext tf c scause stval satp m) (TrapFrame.regs tf i) = c.x i := by
  simp only [saveContext, saveRegisters, TrapFrame.sepc, TrapFrame.sstatus, TrapFrame.scause, TrapFrame.stval,
    TrapFrame.kernelSatp]
  have place : TrapFrame.regs tf i = tf + 8 * i := rfl
  rw [load64_store64_of_disjoint _ _ (by omega), load64_store64_of_disjoint _ _ (by omega),
    load64_store64_of_disjoint _ _ (by omega), load64_store64_of_disjoint _ _ (by omega),
    load64_store64_of_disjoint _ _ (by omega), load64_storeAll_of_disjoint,
    load64_storeAll List.nodup_range _ (List.mem_range.2 h)]
  · intro i _ j _ ne
    simp only [TrapFrame.regs]
    omega
  · intro j _
    simp only [TrapFrame.fregs]
    omega

theorem load64_saveContext_fregs {i : Nat} (h : i < 32) :
    load64 (saveContext tf c scause stval satp m) (TrapFrame.fregs tf i) = c.f i := by
  simp only [saveContext, saveRegisters, TrapFrame.sepc, TrapFrame.sstatus, TrapFrame.scause, TrapFrame.stval,
    TrapFrame.kernelSatp]
  have place : TrapFrame.fregs tf i = tf + (256 + 8 * i) := rfl
  rw [load64_store64_of_disjoint _ _ (by omega), load64_store64_of_disjoint _ _ (by omega),
    load64_store64_of_disjoint _ _ (by omega), load64_store64_of_disjoint _ _ (by omega),
    load64_store64_of_disjoint _ _ (by omega),
    load64_storeAll List.nodup_range _ (List.mem_range.2 h)]
  intro i _ j _ ne
  simp only [TrapFrame.fregs]
  omega

theorem load64_saveContext_sepc :
    load64 (saveContext tf c scause stval satp m) (TrapFrame.sepc tf) = c.sepc := by
  simp only [saveContext, saveRegisters, TrapFrame.sepc, TrapFrame.sstatus, TrapFrame.scause, TrapFrame.stval,
    TrapFrame.kernelSatp]
  rw [load64_store64_of_disjoint _ _ (by omega), load64_store64_of_disjoint _ _ (by omega),
    load64_store64_of_disjoint _ _ (by omega), load64_store64_of_disjoint _ _ (by omega),
    load64_store64]

theorem load64_saveContext_sstatus :
    load64 (saveContext tf c scause stval satp m) (TrapFrame.sstatus tf) = c.sstatus := by
  simp only [saveContext, saveRegisters, TrapFrame.sepc, TrapFrame.sstatus, TrapFrame.scause, TrapFrame.stval,
    TrapFrame.kernelSatp]
  rw [load64_store64_of_disjoint _ _ (by omega), load64_store64_of_disjoint _ _ (by omega),
    load64_store64_of_disjoint _ _ (by omega), load64_store64]

theorem load64_saveContext_scause :
    load64 (saveContext tf c scause stval satp m) (TrapFrame.scause tf) = scause := by
  simp only [saveContext, saveRegisters, TrapFrame.sepc, TrapFrame.sstatus, TrapFrame.scause, TrapFrame.stval,
    TrapFrame.kernelSatp]
  rw [load64_store64_of_disjoint _ _ (by omega), load64_store64_of_disjoint _ _ (by omega),
    load64_store64]

theorem load64_saveContext_kernelSatp :
    load64 (saveContext tf c scause stval satp m) (TrapFrame.kernelSatp tf) = satp := by
  simp only [saveContext]
  rw [load64_store64]

end

end MatteOS.Traps
