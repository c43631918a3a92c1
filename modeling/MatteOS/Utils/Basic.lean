import Mathlib.Algebra.GroupWithZero.Nat
import Mathlib.Tactic.Common

/-!
# Numbers and their digits

`itoa` and `atoi`. The first gives the characters that it leaves before the NUL, and its callers use
the bases 2, 10 and 16. The other takes hexadecimal digits in any base.
-/

namespace MatteOS.Utils

/-- The character of the digit `tmp`. -/
def digitChar (tmp : Nat) : BitVec 8 :=
  if tmp < 10 then BitVec.ofNat 8 (tmp + 0x30) else BitVec.ofNat 8 (tmp + 0x61 - 10)

/-- The first loop of `itoa`: the digits of `n` from the last one on. -/
def itoaLoop (base n : Nat) : List (BitVec 8) :=
  digitChar (n % base) ::
    if _ : 1 < base ∧ n / base ≠ 0 then itoaLoop base (n / base) else []
termination_by n
decreasing_by
  rename_i more
  exact Nat.div_lt_self (Nat.pos_of_ne_zero fun zero => more.2 (by simp [zero])) more.1

/-- `itoa`, whose second loop turns the characters around. -/
def itoa (n : BitVec 64) (base : Nat) : List (BitVec 8) := (itoaLoop base n.toNat).reverse

/-- The value that `atoi` gives a character, where it does not stop. -/
def digitValue (c : BitVec 8) : Option Nat :=
  if 0x30 ≤ c ∧ c ≤ 0x39 then some (c.toNat - 0x30)
  else if 0x61 ≤ c ∧ c ≤ 0x66 then some (c.toNat - 0x61 + 10)
  else if 0x41 ≤ c ∧ c ≤ 0x46 then some (c.toNat - 0x41 + 10)
  else none

/-- The loop of `atoi`, from a character on. -/
def atoiLoop (base : BitVec 64) : List (BitVec 8) → BitVec 64 → BitVec 64
  | [], result => result
  | c :: str, result =>
    match digitValue c with
    | some value => atoiLoop base str (result * base + BitVec.ofNat 64 value)
    | none => result

/-- `atoi`, of a C string without its NUL. -/
def atoi (str : List (BitVec 8)) (base : BitVec 64) : BitVec 64 :=
  match str with
  | [] => 0
  | c :: rest =>
    if c = 0x2D then -1 * atoiLoop base rest 0 else 1 * atoiLoop base (c :: rest) 0

end MatteOS.Utils
