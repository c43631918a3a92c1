import MatteOS.Lib.ByteMemory
import Mathlib.Logic.Function.Basic

/-!
# Straight-line RISC-V code

The instructions that save and restore a context: loads and stores of doublewords through an
address space, moves, and accesses to control and status registers. An instruction that
traps gives no hart.

The rules say what code does through a `View`, a range of virtual addresses that lies on a
range of physical memory: a load, a store (`run_ld`, `run_sd`), and a run of them
(`run_map_ld`, `run_map_sd`).
-/

namespace Riscv

open ByteMemory

inductive Csr where
  | sstatus
  | sie
  | stvec
  | sscratch
  | sepc
  | scause
  | stval
  | satp
deriving DecidableEq

/-- A hart: integer and floating-point registers, CSRs, and the memory it reaches. -/
structure Cpu where
  x : Nat → BitVec 64
  f : Nat → BitVec 64
  csr : Csr → BitVec 64
  memory : Memory

/-- The physical address of a virtual one, in a memory and under the value of `satp`. -/
abbrev Mmu := Memory → BitVec 64 → BitVec 64 → Option Nat

/-! ## Registers -/

abbrev sp : Nat := 2
abbrev tp : Nat := 4
abbrev t0 : Nat := 5
abbrev t1 : Nat := 6
abbrev t2 : Nat := 7
abbrev a0 : Nat := 10
abbrev t3 : Nat := 28
abbrev t4 : Nat := 29
abbrev t5 : Nat := 30
abbrev t6 : Nat := 31

inductive Instr where
  | ld (rd offset base : Nat)
  | sd (rs offset base : Nat)
  | fld (rd offset base : Nat)
  | fsd (rs offset base : Nat)
  | mv (rd rs : Nat)
  | li (rd : Nat) (value : BitVec 64)
  | csrr (rd : Nat) (csr : Csr)
  | csrw (csr : Csr) (rs : Nat)
  | csrrw (rd : Nat) (csr : Csr) (rs : Nat)
  | sfenceVma
  /-- A branch over the instructions that it skips. -/
  | beq (rs1 rs2 : Nat) (skipped : List Instr)

namespace Cpu

variable (c : Cpu)

/-- Register 0 is always zero. -/
def setX (rd : Nat) (value : BitVec 64) : Cpu :=
  if rd = 0 then c else { c with x := Function.update c.x rd value }

def setCsr (csr : Csr) (value : BitVec 64) : Cpu :=
  { c with csr := Function.update c.csr csr value }

/-- Where a doubleword access goes, if it does not trap. -/
def address (mmu : Mmu) (offset base : Nat) : Option Nat :=
  let va := c.x base + .ofNat 64 offset
  if 8 ∣ va.toNat then mmu c.memory (c.csr .satp) va else none

end Cpu

mutual

/-- One instruction; `none` is a trap. -/
def Instr.exec (mmu : Mmu) : Instr → Cpu → Option Cpu
  | .ld rd offset base, c => (c.address mmu offset base).map fun a => c.setX rd (load64 c.memory a)
  | .sd rs offset base, c =>
    (c.address mmu offset base).map fun a => { c with memory := store64 c.memory a (c.x rs) }
  | .fld rd offset base, c =>
    (c.address mmu offset base).map fun a =>
      { c with f := Function.update c.f rd (load64 c.memory a) }
  | .fsd rs offset base, c =>
    (c.address mmu offset base).map fun a => { c with memory := store64 c.memory a (c.f rs) }
  | .mv rd rs, c => some (c.setX rd (c.x rs))
  | .li rd value, c => some (c.setX rd value)
  | .csrr rd csr, c => some (c.setX rd (c.csr csr))
  | .csrw csr rs, c => some (c.setCsr csr (c.x rs))
  | .csrrw rd csr rs, c => some ((c.setCsr csr (c.x rs)).setX rd (c.csr csr))
  | .sfenceVma, c => some c
  | .beq rs1 rs2 skipped, c => if c.x rs1 = c.x rs2 then some c else run mmu skipped c

/-- One instruction after the other. -/
def run (mmu : Mmu) : List Instr → Cpu → Option Cpu
  | [], c => some c
  | i :: is, c => (i.exec mmu c).bind (run mmu is)

end

attribute [local simp] Instr.exec run

section

variable {mmu : Mmu} {c c' : Cpu} {is : List Instr}

theorem run_cons_of_exec {i : Instr} (h : i.exec mmu c = some c') :
    run mmu (i :: is) c = run mmu is c' := by
  rw [run, h, Option.bind_some]

end

/-! ## Views -/

/-- The address space `satp` puts the `n` bytes at `va` on those at `pa`. It depends on the bytes
of `tables` only, which lie elsewhere. -/
structure View (mmu : Mmu) (tables : Nat → Prop) (m : Memory) (satp va : BitVec 64) (pa n : Nat) :
    Prop where
  maps : ∀ offset < n, mmu m satp (va + .ofNat 64 offset) = some (pa + offset)
  walks : ∀ m', AgreeOn tables m m' → mmu m' satp = mmu m satp
  apart : ∀ a, tables a → a < pa ∨ pa + n ≤ a
  aligned : 8 ∣ va.toNat

namespace View

variable {mmu : Mmu} {tables : Nat → Prop} {m m' : Memory} {satp va : BitVec 64} {pa n : Nat}

theorem congr (view : View mmu tables m satp va pa n) (agree : AgreeOn tables m m') :
    View mmu tables m' satp va pa n where
  maps offset inside := by rw [view.walks m' agree, view.maps offset inside]
  walks m'' agree' := by rw [view.walks m' agree, view.walks m'' (agree.trans agree')]
  apart := view.apart
  aligned := view.aligned

/-- A store in the view keeps the tables. -/
theorem agreeOn_store64 (view : View mmu tables m satp va pa n) {offset : Nat}
    (inside : offset + 8 ≤ n) (v : BitVec 64) :
    AgreeOn tables m (store64 m (pa + offset) v) :=
  (AgreeOn.refl _ _).store64 _ fun a mem => by
    have := view.apart a mem
    omega

theorem store64 (view : View mmu tables m satp va pa n) {offset : Nat}
    (inside : offset + 8 ≤ n) (v : BitVec 64) :
    View mmu tables (store64 m (pa + offset) v) satp va pa n :=
  view.congr (view.agreeOn_store64 inside v)

theorem storeAll (view : View mmu tables m satp va pa n) {a : Nat → Nat} {rs : List Nat}
    (inside : ∀ r ∈ rs, a r + 8 ≤ n) (v : Nat → BitVec 64) :
    View mmu tables (storeAll (fun r => pa + a r) v rs m) satp va pa n := by
  induction rs generalizing m with
  | nil => exact view
  | cons r rs ih =>
    exact ih (view.store64 (inside r (by simp)) _) fun r mem => inside r (by simp [mem])

end View

/-! ## One instruction -/

section

variable {mmu : Mmu} {tables : Nat → Prop} {x f : Nat → BitVec 64} {csr : Csr → BitVec 64}
  {m : Memory} {satp va : BitVec 64} {pa n offset base r : Nat} {is : List Instr}

/-- The address of an aligned offset. -/
theorem address_eq (view : View mmu tables m satp va pa n) (space : csr .satp = satp)
    (here : x base = va) (aligned : 8 ∣ offset) (inside : offset + 8 ≤ n) :
    Cpu.address ⟨x, f, csr, m⟩ mmu offset base = some (pa + offset) := by
  have place : 8 ∣ (va + .ofNat 64 offset).toNat := by
    have := view.aligned
    rw [BitVec.toNat_add, BitVec.toNat_ofNat]
    omega
  simp only [Cpu.address, here, space, if_pos place]
  exact view.maps offset (by omega)

theorem run_ld (view : View mmu tables m satp va pa n) (space : csr .satp = satp)
    (here : x base = va) (aligned : 8 ∣ offset) (inside : offset + 8 ≤ n) (nonzero : r ≠ 0) :
    run mmu (.ld r offset base :: is) ⟨x, f, csr, m⟩ =
      run mmu is ⟨Function.update x r (load64 m (pa + offset)), f, csr, m⟩ :=
  run_cons_of_exec (by
    rw [Instr.exec, address_eq view space here aligned inside, Option.map_some, Cpu.setX,
      if_neg nonzero])

theorem run_sd (view : View mmu tables m satp va pa n) (space : csr .satp = satp)
    (here : x base = va) (aligned : 8 ∣ offset) (inside : offset + 8 ≤ n) :
    run mmu (.sd r offset base :: is) ⟨x, f, csr, m⟩ =
      run mmu is ⟨x, f, csr, store64 m (pa + offset) (x r)⟩ :=
  run_cons_of_exec (by
    rw [Instr.exec, address_eq view space here aligned inside, Option.map_some])

theorem run_fld (view : View mmu tables m satp va pa n) (space : csr .satp = satp)
    (here : x base = va) (aligned : 8 ∣ offset) (inside : offset + 8 ≤ n) :
    run mmu (.fld r offset base :: is) ⟨x, f, csr, m⟩ =
      run mmu is ⟨x, Function.update f r (load64 m (pa + offset)), csr, m⟩ :=
  run_cons_of_exec (by
    rw [Instr.exec, address_eq view space here aligned inside, Option.map_some])

theorem run_fsd (view : View mmu tables m satp va pa n) (space : csr .satp = satp)
    (here : x base = va) (aligned : 8 ∣ offset) (inside : offset + 8 ≤ n) :
    run mmu (.fsd r offset base :: is) ⟨x, f, csr, m⟩ =
      run mmu is ⟨x, f, csr, store64 m (pa + offset) (f r)⟩ :=
  run_cons_of_exec (by
    rw [Instr.exec, address_eq view space here aligned inside, Option.map_some])

theorem run_csrr (nonzero : r ≠ 0) (q : Csr) : run mmu (.csrr r q :: is) ⟨x, f, csr, m⟩ =
    run mmu is ⟨Function.update x r (csr q), f, csr, m⟩ :=
  run_cons_of_exec (by rw [Instr.exec, Cpu.setX, if_neg nonzero])

theorem run_csrw (q : Csr) : run mmu (.csrw q r :: is) ⟨x, f, csr, m⟩ =
    run mmu is ⟨x, f, Function.update csr q (x r), m⟩ := rfl

theorem run_csrrw {rs : Nat} (nonzero : r ≠ 0) (q : Csr) :
    run mmu (.csrrw r q rs :: is) ⟨x, f, csr, m⟩ =
      run mmu is ⟨Function.update x r (csr q), f, Function.update csr q (x rs), m⟩ :=
  run_cons_of_exec (by rw [Instr.exec, Cpu.setX, if_neg nonzero, Cpu.setCsr])

theorem run_mv {rs : Nat} (nonzero : r ≠ 0) : run mmu (.mv r rs :: is) ⟨x, f, csr, m⟩ =
    run mmu is ⟨Function.update x r (x rs), f, csr, m⟩ :=
  run_cons_of_exec (by rw [Instr.exec, Cpu.setX, if_neg nonzero])

theorem run_li {value : BitVec 64} (nonzero : r ≠ 0) :
    run mmu (.li r value :: is) ⟨x, f, csr, m⟩ =
      run mmu is ⟨Function.update x r value, f, csr, m⟩ :=
  run_cons_of_exec (by rw [Instr.exec, Cpu.setX, if_neg nonzero])

/-- Save a CSR through the register `r`. -/
theorem run_csrr_sd (view : View mmu tables m satp va pa n) (space : csr .satp = satp)
    (here : x base = va) (aligned : 8 ∣ offset) (inside : offset + 8 ≤ n) (nonzero : r ≠ 0)
    (notBase : base ≠ r) (q : Csr) :
    run mmu (.csrr r q :: .sd r offset base :: is) ⟨x, f, csr, m⟩ =
      run mmu is ⟨Function.update x r (csr q), f, csr, store64 m (pa + offset) (csr q)⟩ := by
  rw [run_csrr nonzero,
    run_sd view space ((Function.update_of_ne notBase _ _).trans here) aligned inside,
    Function.update_self]

/-- Restore a CSR through the register `r`. -/
theorem run_ld_csrw (view : View mmu tables m satp va pa n) (space : csr .satp = satp)
    (here : x base = va) (aligned : 8 ∣ offset) (inside : offset + 8 ≤ n) (nonzero : r ≠ 0)
    (q : Csr) : run mmu (.ld r offset base :: .csrw q r :: is) ⟨x, f, csr, m⟩ =
      run mmu is ⟨Function.update x r (load64 m (pa + offset)), f,
        Function.update csr q (load64 m (pa + offset)), m⟩ := by
  rw [run_ld view space here aligned inside nonzero, run_csrw, Function.update_self]

/-! ## Saving and restoring a run of registers -/

variable {a : Nat → Nat} {rs : List Nat}

/-- Save the registers `rs`, each at its own offset. -/
theorem run_map_sd (view : View mmu tables m satp va pa n) (space : csr .satp = satp)
    (here : x base = va) (places : ∀ r ∈ rs, 8 ∣ a r ∧ a r + 8 ≤ n) :
    run mmu (rs.map (fun r => .sd r (a r) base) ++ is) ⟨x, f, csr, m⟩ =
      run mmu is ⟨x, f, csr, storeAll (fun r => pa + a r) x rs m⟩ := by
  induction rs generalizing m with
  | nil => rfl
  | cons r rs ih =>
    obtain ⟨aligned, inside⟩ := places r (by simp)
    rw [List.map_cons, List.cons_append, run_sd view space here aligned inside]
    exact ih (view.store64 inside _) fun r mem => places r (by simp [mem])

theorem run_map_fsd (view : View mmu tables m satp va pa n) (space : csr .satp = satp)
    (here : x base = va) (places : ∀ r ∈ rs, 8 ∣ a r ∧ a r + 8 ≤ n) :
    run mmu (rs.map (fun r => .fsd r (a r) base) ++ is) ⟨x, f, csr, m⟩ =
      run mmu is ⟨x, f, csr, storeAll (fun r => pa + a r) f rs m⟩ := by
  induction rs generalizing m with
  | nil => rfl
  | cons r rs ih =>
    obtain ⟨aligned, inside⟩ := places r (by simp)
    rw [List.map_cons, List.cons_append, run_fsd view space here aligned inside]
    exact ih (view.store64 inside _) fun r mem => places r (by simp [mem])

/-- `v r` for the registers `rs`, `x r` for the others. -/
def restored (rs : List Nat) (v x : Nat → BitVec 64) (r : Nat) : BitVec 64 :=
  if r ∈ rs then v r else x r

@[simp] theorem restored_nil (v x : Nat → BitVec 64) : restored [] v x = x := by
  funext r
  simp [restored]

theorem restored_update (rs : List Nat) (v x : Nat → BitVec 64) (r : Nat) :
    restored rs v (Function.update x r (v r)) = restored (r :: rs) v x := by
  funext q
  by_cases eq : q = r
  · subst eq
    simp [restored]
  · simp [restored, eq]

/-- Restore the registers `rs`, of which the base register is none. -/
theorem run_map_ld (view : View mmu tables m satp va pa n) (space : csr .satp = satp)
    (here : x base = va) (places : ∀ r ∈ rs, 8 ∣ a r ∧ a r + 8 ≤ n) (nonzero : 0 ∉ rs)
    (notBase : base ∉ rs) :
    run mmu (rs.map (fun r => .ld r (a r) base) ++ is) ⟨x, f, csr, m⟩ =
      run mmu is ⟨restored rs (fun r => load64 m (pa + a r)) x, f, csr, m⟩ := by
  induction rs generalizing x with
  | nil => rw [List.map_nil, List.nil_append, restored_nil]
  | cons r rs ih =>
    obtain ⟨aligned, inside⟩ := places r (by simp)
    simp only [List.mem_cons, not_or] at nonzero notBase
    rw [List.map_cons, List.cons_append,
      run_ld view space here aligned inside (Ne.symm nonzero.1), ← restored_update]
    exact ih ((Function.update_of_ne notBase.1 _ _).trans here)
      (fun r mem => places r (by simp [mem])) nonzero.2 notBase.2

theorem run_map_fld (view : View mmu tables m satp va pa n) (space : csr .satp = satp)
    (here : x base = va) (places : ∀ r ∈ rs, 8 ∣ a r ∧ a r + 8 ≤ n) :
    run mmu (rs.map (fun r => .fld r (a r) base) ++ is) ⟨x, f, csr, m⟩ =
      run mmu is ⟨x, restored rs (fun r => load64 m (pa + a r)) f, csr, m⟩ := by
  induction rs generalizing f with
  | nil => rw [List.map_nil, List.nil_append, restored_nil]
  | cons r rs ih =>
    obtain ⟨aligned, inside⟩ := places r (by simp)
    rw [List.map_cons, List.cons_append, run_fld view space here aligned inside, ← restored_update]
    exact ih fun r mem => places r (by simp [mem])

end

end Riscv
