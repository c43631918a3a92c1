import Mathlib.Algebra.GroupWithZero.Nat
import Mathlib.Data.Nat.Init
import Mathlib.Tactic.Common

/-!
# Aligning 64-bit numbers

Masks of low bits, and what masking them away does to a number.
-/

namespace Align

/-- The mask of the `k` low bits. -/
def lowMask (k : Nat) : BitVec 64 := (1#64 <<< k) - 1#64

theorem lowMask_toNat {k : Nat} (hk : k < 64) : (lowMask k).toNat = 2 ^ k - 1 := by
  have pow : 2 ^ k < 2 ^ 64 := Nat.pow_lt_pow_right (by omega) hk
  have pos : 0 < 2 ^ k := Nat.two_pow_pos k
  have one : (1#64).toNat = 1 := rfl
  have shifted : (1#64 <<< k).toNat = 2 ^ k := by
    rw [BitVec.toNat_shiftLeft, one, Nat.shiftLeft_eq, Nat.one_mul, Nat.mod_eq_of_lt pow]
  unfold lowMask
  rw [BitVec.toNat_sub, shifted, one]
  omega

theorem lowMask_getLsbD {k : Nat} (hk : k < 64) (i : Nat) :
    (lowMask k).getLsbD i = decide (i < k) := by
  unfold BitVec.getLsbD
  rw [lowMask_toNat hk, Nat.testBit_two_pow_sub_one]

/-- Clearing the low `k` bits rounds down to a multiple of `2 ^ k`. -/
theorem and_not_lowMask_toNat (x : BitVec 64) {k : Nat} (hk : k < 64) :
    (x &&& ~~~lowMask k).toNat = x.toNat / 2 ^ k * 2 ^ k := by
  have shifts : x &&& ~~~lowMask k = (x >>> k) <<< k := by
    apply BitVec.eq_of_getLsbD_eq
    intro i hi
    simp only [BitVec.getLsbD_and, BitVec.getLsbD_not, lowMask_getLsbD hk, BitVec.getLsbD_shiftLeft,
      BitVec.getLsbD_ushiftRight]
    by_cases h : i < k
    · simp [h]
    · simp [h, hi, show k + (i - k) = i by omega]
  have le : x.toNat / 2 ^ k * 2 ^ k ≤ x.toNat := Nat.div_mul_le_self _ _
  rw [shifts, BitVec.toNat_shiftLeft, BitVec.toNat_ushiftRight, Nat.shiftLeft_eq,
    Nat.shiftRight_eq_div_pow]
  exact Nat.mod_eq_of_lt (by omega)

/-- Adding the mask first rounds up, when nothing overflows. -/
theorem add_and_not_lowMask_toNat (x : BitVec 64) {k : Nat} (hk : k < 64)
    (fits : x.toNat + 2 ^ k ≤ 2 ^ 64) :
    ((x + lowMask k) &&& ~~~lowMask k).toNat = (x.toNat + (2 ^ k - 1)) / 2 ^ k * 2 ^ k := by
  have pos : 0 < 2 ^ k := Nat.two_pow_pos k
  rw [and_not_lowMask_toNat _ hk, BitVec.toNat_add, lowMask_toNat hk, Nat.mod_eq_of_lt (by omega)]

end Align
