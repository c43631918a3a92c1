import MatteOS.Lib.Riscv
import MatteOS.Traps.TrapFrame

/-!
# Frames and registers at boot

What `System::System`, `hart_init` and `initialize_thread` write before the first switch to a
thread.
-/

namespace MatteOS.Traps

open ByteMemory Riscv

/-- One round of the loop of `System::System`; `zalloc` has cleared the frame. -/
def initKernelTrapFrame (m : Memory) (kernelTrapFrame : Nat)
    (cpuId hartStackTop masterKernelSatp : BitVec 64) : Memory :=
  let m := store64 m (KernelTrapFrame.cpuId kernelTrapFrame) cpuId
  let m := store64 m (TrapFrame.regs kernelTrapFrame 2) hartStackTop
  let m := store64 m (TrapFrame.kernelSp kernelTrapFrame) hartStackTop
  let m := store64 m (TrapFrame.kernelTrapFramePtr kernelTrapFrame) (.ofNat 64 kernelTrapFrame)
  store64 m (TrapFrame.kernelSatp kernelTrapFrame) masterKernelSatp

/-- `hart_init` -/
def hartInit (trapFrame : Nat) (c : Cpu) : Cpu :=
  (c.setCsr .sscratch (.ofNat 64 trapFrame)).setX tp (.ofNat 64 trapFrame)

def STACK_ADDRESS : BitVec 64 := 0xf0000000

/-- The frame that `ProcessManager::initialize_thread` fills. -/
def initializeThread (m : Memory) (trapFrame : Nat) (programCounter satp : BitVec 64) : Memory :=
  let m := store64 m (TrapFrame.kernelSatp trapFrame) satp
  let m := store64 m (TrapFrame.regs trapFrame 2) STACK_ADDRESS
  -- `SPIE`, `FS` and `SUM`
  let m := store64 m (TrapFrame.sstatus trapFrame) (1 <<< 5 ||| 1 <<< 13 ||| 1 <<< 18)
  let m := store64 m (TrapFrame.sepc trapFrame) programCounter
  store64 m (TrapFrame.kernelAddr trapFrame) (.ofNat 64 trapFrame)

section

variable {p : Nat → Prop} {m m' : Memory} {a x : Nat}

theorem initKernelTrapFrame_apply_of_outside (m : Memory) (cpuId hartStackTop satp : BitVec 64)
    (outside : x < a ∨ a + KernelTrapFrame.SIZE ≤ x) :
    initKernelTrapFrame m a cpuId hartStackTop satp x = m x := by
  simp only [KernelTrapFrame.SIZE] at outside
  simp only [initKernelTrapFrame, KernelTrapFrame.cpuId, TrapFrame.regs, TrapFrame.kernelSp,
    TrapFrame.kernelTrapFramePtr, TrapFrame.kernelSatp]
  repeat rw [store64_apply_of_outside _ _ (by omega)]

theorem initializeThread_apply_of_outside (m : Memory) (programCounter satp : BitVec 64)
    (outside : x < a ∨ a + TrapFrame.SIZE ≤ x) :
    initializeThread m a programCounter satp x = m x := by
  simp only [TrapFrame.SIZE] at outside
  simp only [initializeThread, TrapFrame.regs, TrapFrame.kernelSatp, TrapFrame.sstatus,
    TrapFrame.sepc, TrapFrame.kernelAddr]
  repeat rw [store64_apply_of_outside _ _ (by omega)]

/-- Memories that agree still do after the same initialisation. -/
theorem agreeOn_initKernelTrapFrame (agree : AgreeOn p m m') (cpuId hartStackTop satp : BitVec 64) :
    AgreeOn p (initKernelTrapFrame m a cpuId hartStackTop satp)
      (initKernelTrapFrame m' a cpuId hartStackTop satp) := by
  unfold initKernelTrapFrame
  repeat apply AgreeOn.store64_both
  exact agree

theorem agreeOn_initializeThread (agree : AgreeOn p m m') (programCounter satp : BitVec 64) :
    AgreeOn p (initializeThread m a programCounter satp)
      (initializeThread m' a programCounter satp) := by
  unfold initializeThread
  repeat apply AgreeOn.store64_both
  exact agree

end

/-- `CPU::build_satp` -/
def buildSatp (mode : BitVec 4) (asid addr : BitVec 64) : BitVec 64 :=
  (mode ++ asid.setWidth 16 ++ (addr >>> 12).setWidth 44 : BitVec (4 + 16 + 44))

/-- `SatpMode::Sv39` -/
def SATP_SV39 : BitVec 4 := 8

/-- Address spaces of different ASIDs have different values of `satp`. -/
theorem buildSatp_ne {mode : BitVec 4} {asid asid' addr addr' : BitVec 64}
    (ne : asid.setWidth 16 ≠ asid'.setWidth 16) :
    buildSatp mode asid addr ≠ buildSatp mode asid' addr' := by
  intro eq
  apply ne
  have same := congrArg (BitVec.extractLsb' 44 16) eq
  have field : ∀ (a b : BitVec 64), BitVec.extractLsb' 44 16 (buildSatp mode a b) = a.setWidth 16 := by
    intro a b
    ext i hi
    simp only [buildSatp, BitVec.getElem_extractLsb', BitVec.getLsbD_append, BitVec.getElem_setWidth]
    rw [if_neg (by omega), if_pos (by omega)]
    simp [hi]
  rwa [field, field] at same

end MatteOS.Traps
