import MatteOS.Lib.Riscv

/-!
# The trap vector

The code of `trap.S`: `m_trap_vector` before and after its call of `handle_interrupt`, and
`switch_to_user`. All three end with an instruction that is not listed, the call or `sret`.
-/

namespace MatteOS.Traps

open Riscv

namespace TrapVector

def REG_SIZE : Nat := 8

/-- The virtual address of a thread's own frame. -/
def TRAP_FRAME_ALIAS : BitVec 64 := 0x1000

def OFF_REGS : Nat := 0

def OFF_FREGS : Nat := 256

def OFF_SEPC : Nat := 512

def OFF_SSTATUS : Nat := 520

def OFF_SCAUSE : Nat := 528

def OFF_STVAL : Nat := 536

/-- "Holds User SATP when in Kernel, Kernel SATP when in User" -/
def OFF_DUAL_SATP : Nat := 544

def OFF_K_SP : Nat := 552

def OFF_K_TP : Nat := 560

def OFF_K_ADDR : Nat := 568

def saveGp (i : Nat) : Instr := .sd i (i * REG_SIZE + OFF_REGS) t6

def loadGp (i : Nat) : Instr := .ld i (i * REG_SIZE + OFF_REGS) t6

def saveFp (i : Nat) : Instr := .fsd i (i * REG_SIZE + OFF_FREGS) t6

def loadFp (i : Nat) : Instr := .fld i (i * REG_SIZE + OFF_FREGS) t6

/-! ## `m_trap_vector` -/

/-- "1. THE SWAP" and "2. SAVE USER CONTEXT" -/
def saveUserContext : List Instr :=
  .csrrw t6 .sscratch t6 ::
  ((List.range 31).map saveGp ++
    (.csrr t0 .sscratch :: .sd t0 (31 * REG_SIZE + OFF_REGS) t6 ::
      ((List.range 32).map saveFp ++
        [.csrr t0 .sepc, .sd t0 OFF_SEPC t6, .csrr t1 .sstatus, .sd t1 OFF_SSTATUS t6,
          .csrr t2 .scause, .sd t2 OFF_SCAUSE t6, .csrr t3 .stval, .sd t3 OFF_STVAL t6])))

/-- "3. PREPARE FOR KERNEL MODE" to "7. CALL C++" -/
def enterKernel : List Instr :=
  [.ld t2 OFF_K_ADDR t6, .ld t4 OFF_DUAL_SATP t6, .csrr t5 .satp, .sd t5 OFF_DUAL_SATP t6,
    .beq t4 t5 [.csrw .satp t4, .sfenceVma], .mv t6 t2, .ld sp OFF_K_SP t6, .ld tp OFF_K_TP t6,
    .mv a0 t6]

/-- `m_trap_vector` up to `call handle_interrupt` -/
def entry : List Instr := saveUserContext ++ enterKernel

/-- "8. RESTORE USER CONTEXT" and "9. SWAP SATP" -/
def leaveKernel : List Instr :=
  [.ld t0 OFF_SEPC t6, .csrw .sepc t0, .ld t1 OFF_SSTATUS t6, .csrw .sstatus t1,
    .ld t4 OFF_DUAL_SATP t6, .csrr t5 .satp, .sd t5 OFF_DUAL_SATP t6, .csrw .satp t4, .sfenceVma]

/-- "10. FORCE ALIAS" and "11. RESTORE REGISTERS & EXIT" -/
def restoreRegisters : List Instr :=
  .li t6 TRAP_FRAME_ALIAS ::
  ((List.range 32).map loadFp ++
    (((List.range' 1 30).filter (· ≠ 5)).map loadGp ++
      [.ld t0 (31 * REG_SIZE + OFF_REGS) t6, .csrw .sscratch t0, .ld t0 (5 * REG_SIZE + OFF_REGS) t6,
        .csrrw t6 .sscratch t6]))

/-- `m_trap_vector` from the return of `handle_interrupt` to `sret` -/
def exit : List Instr := .mv t6 a0 :: (leaveKernel ++ restoreRegisters)

/-! ## `switch_to_user` -/

/-- `switch_to_user`, where `m_trap_vector` is at `vector` -/
def switchToUser (vector : BitVec 64) : List Instr :=
  .li t0 vector :: .csrw .stvec t0 :: .li t0 (1 <<< 1 ||| 1 <<< 5 ||| 1 <<< 9) :: .csrw .sie t0 ::
  .mv t6 a0 :: (leaveKernel ++ restoreRegisters)

end TrapVector

end MatteOS.Traps
