import MatteOS.Utils.StringValue
import Mathlib.Tactic.Ring

/-!
# What `atoi` reads

`atoi` goes on up to the first character that is no hexadecimal digit, whatever the base. So its
value is that of the digits of the base and of the digits too large for the base behind them
(`atoiLoop_eq`), and it is the number at the start of the string if there are none of those, or if
they cancel in 64 bits (`atoi_eq_number_iff`).
-/

namespace MatteOS.Utils

/-! ## Digits -/

/-- A hexadecimal digit. -/
def IsHexDigit (c : BitVec 8) : Bool := (digitValue c).isSome

/-- A digit of a base up to 16. -/
def IsDigitOf (base : Nat) (c : BitVec 8) : Bool := (digitValue c).any (· < base)

/-- The value of a row of digits behind digits of the value `n`. -/
def valueFrom (base n : Nat) (digits : List (BitVec 8)) : Nat :=
  digits.foldl (fun n c => n * base + (digitValue c).getD 0) n

def value (base : Nat) (digits : List (BitVec 8)) : Nat := valueFrom base 0 digits

theorem IsDigitOf.isHexDigit {base : Nat} {c : BitVec 8} (digit : IsDigitOf base c = true) :
    IsHexDigit c = true := by
  obtain ⟨some, -⟩ := (Option.any_eq_true_iff_get _ _).1 digit
  exact some

theorem valueFrom_append (base n : Nat) (digits more : List (BitVec 8)) :
    valueFrom base n (digits ++ more) = valueFrom base (valueFrom base n digits) more :=
  List.foldl_append

theorem valueFrom_eq (base n : Nat) (digits : List (BitVec 8)) :
    valueFrom base n digits = n * base ^ digits.length + value base digits := by
  induction digits generalizing n with
  | nil => simp [valueFrom, value]
  | cons c digits ih =>
    have next : ∀ m, valueFrom base m (c :: digits) =
        valueFrom base (m * base + (digitValue c).getD 0) digits := fun _ => rfl
    rw [value, next, next, ih, ih (0 * base + _), List.length_cons, pow_succ]
    ring

/-! ## Numbers -/

/-- What follows an optional sign. -/
def unsigned (str : List (BitVec 8)) : List (BitVec 8) :=
  if str.head? = some 0x2D then str.tail else str

/-- The digits of the base at the start of a string, behind an optional sign. -/
def numeral (base : Nat) (str : List (BitVec 8)) : List (BitVec 8) :=
  (unsigned str).takeWhile (IsDigitOf base)

/-- The hexadecimal digits that follow the digits of the base. -/
def excess (base : Nat) (str : List (BitVec 8)) : List (BitVec 8) :=
  ((unsigned str).dropWhile (IsDigitOf base)).takeWhile IsHexDigit

/-- A number with the sign of a string, in 64 bits. -/
def signed (str : List (BitVec 8)) (n : Nat) : BitVec 64 :=
  if str.head? = some 0x2D then -BitVec.ofNat 64 n else BitVec.ofNat 64 n

/-- The number at the start of a string. -/
def number (base : Nat) (str : List (BitVec 8)) : BitVec 64 :=
  signed str (value base (numeral base str))

/-! ## The loop -/

/-- The loop reads all hexadecimal digits. -/
theorem atoiLoop_eq (base : BitVec 64) (str : List (BitVec 8)) (n : Nat) :
    atoiLoop base str (BitVec.ofNat 64 n) =
      BitVec.ofNat 64 (valueFrom base.toNat n (str.takeWhile IsHexDigit)) := by
  induction str generalizing n with
  | nil => rfl
  | cons c str ih =>
    cases digit : digitValue c with
    | none => simp [atoiLoop, digit, IsHexDigit, valueFrom]
    | some v =>
      have hex : IsHexDigit c = true := by simp [IsHexDigit, digit]
      have next : BitVec.ofNat 64 n * base + BitVec.ofNat 64 v =
          BitVec.ofNat 64 (n * base.toNat + v) := by
        rw [BitVec.ofNat_add, BitVec.ofNat_mul, BitVec.ofNat_toNat, BitVec.setWidth_eq]
      rw [List.takeWhile_cons_of_pos hex]
      simp only [atoiLoop, digit, next, ih]
      simp only [valueFrom, List.foldl_cons, digit, Option.getD_some]

/-- The hexadecimal digits at the start are those of the base, and those that follow them. -/
theorem takeWhile_isHexDigit (base : Nat) (str : List (BitVec 8)) :
    str.takeWhile IsHexDigit = str.takeWhile (IsDigitOf base) ++
      (str.dropWhile (IsDigitOf base)).takeWhile IsHexDigit := by
  induction str with
  | nil => rfl
  | cons c str ih =>
    by_cases digit : IsDigitOf base c = true
    · rw [List.takeWhile_cons_of_pos digit, List.dropWhile_cons_of_pos digit,
        List.takeWhile_cons_of_pos (IsDigitOf.isHexDigit digit), ih, List.cons_append]
    · rw [List.takeWhile_cons_of_neg digit, List.dropWhile_cons_of_neg digit, List.nil_append]

theorem atoi_eq_signed (str : List (BitVec 8)) (base : BitVec 64) :
    atoi str base =
      signed str (value base.toNat ((unsigned str).takeWhile IsHexDigit)) := by
  cases str with
  | nil => rfl
  | cons c rest =>
    have digits := atoiLoop_eq base (unsigned (c :: rest)) 0
    have sign : (c :: rest).head? = some 0x2D ↔ c = 0x2D := Option.some_inj
    by_cases minus : c = 0x2D
    · have behind : unsigned (c :: rest) = rest := if_pos (sign.2 minus)
      rw [behind] at digits ⊢
      rw [atoi, if_pos minus, signed, if_pos (sign.2 minus)]
      refine Eq.trans ?_ (congrArg _ digits)
      exact (BitVec.neg_mul 1 _).trans (congrArg _ (BitVec.one_mul _))
    · have whole : unsigned (c :: rest) = c :: rest := if_neg (mt sign.1 minus)
      rw [whole] at digits ⊢
      rw [atoi, if_neg minus, signed, if_neg (mt sign.1 minus)]
      exact (BitVec.one_mul _).trans digits

theorem signed_inj (str : List (BitVec 8)) (n m : Nat) :
    signed str n = signed str m ↔ n % 2 ^ 64 = m % 2 ^ 64 := by
  have words : BitVec.ofNat 64 n = BitVec.ofNat 64 m ↔ n % 2 ^ 64 = m % 2 ^ 64 := by
    rw [← BitVec.toNat_inj, BitVec.toNat_ofNat, BitVec.toNat_ofNat]
  rw [signed, signed]
  split
  · rw [BitVec.neg_inj, words]
  · exact words

/-- In base 0 no character is a digit. -/
theorem pow_pos_or_value_eq_zero (base k : Nat) (str : List (BitVec 8)) :
    0 < base ^ k ∨ value base (numeral base str) = 0 := by
  rcases Nat.eq_zero_or_pos base with rfl | positive
  · right
    have none : numeral 0 str = [] := by
      rw [numeral]
      cases unsigned str with
      | nil => rfl
      | cons c rest => exact List.takeWhile_cons_of_neg (by simp [IsDigitOf])
    rw [none]
    rfl
  · exact .inl (Nat.pow_pos positive)

/-- **What `atoi` reads** is the number at the start of the string, unless it is followed by
hexadecimal digits that are too large for the base, and that do not cancel in 64 bits. -/
theorem atoi_eq_number_iff (str : List (BitVec 8)) (base : BitVec 64) :
    atoi str base = number base.toNat str ↔
      excess base.toNat str = [] ∨
        2 ^ 64 ∣ value base.toNat (numeral base.toNat str) *
          (base.toNat ^ (excess base.toNat str).length - 1) +
            value base.toNat (excess base.toNat str) := by
  have read : value base.toNat ((unsigned str).takeWhile IsHexDigit) =
      value base.toNat (numeral base.toNat str) *
        base.toNat ^ (excess base.toNat str).length +
          value base.toNat (excess base.toNat str) := by
    rw [takeWhile_isHexDigit base.toNat, value, valueFrom_append, valueFrom_eq _ (valueFrom _ _ _)]
    rfl
  have grown : value base.toNat (numeral base.toNat str) *
      base.toNat ^ (excess base.toNat str).length + value base.toNat (excess base.toNat str) =
      value base.toNat (numeral base.toNat str) +
        (value base.toNat (numeral base.toNat str) *
          (base.toNat ^ (excess base.toNat str).length - 1) +
            value base.toNat (excess base.toNat str)) := by
    rw [← Nat.add_assoc, Nat.add_comm (value _ (numeral _ _)), ← Nat.mul_succ]
    rcases pow_pos_or_value_eq_zero base.toNat (excess base.toNat str).length str with
      positive | zero
    · rw [Nat.succ_eq_add_one, Nat.sub_add_cancel positive]
    · rw [zero, Nat.zero_mul, Nat.zero_mul]
  have cancels : ∀ n m : Nat, (n + m) % 2 ^ 64 = n % 2 ^ 64 ↔ 2 ^ 64 ∣ m := by omega
  rw [atoi_eq_signed, number, signed_inj, read, grown, cancels]
  refine ⟨.inr, fun either => either.elim (fun none => ?_) id⟩
  rw [none]
  exact Nat.dvd_zero _

/-- In base 16 no digit is too large. -/
theorem excess_sixteen (str : List (BitVec 8)) : excess 16 str = [] := by
  have same : ∀ c, IsHexDigit c = true → IsDigitOf 16 c = true := by decide
  rw [excess]
  induction unsigned str with
  | nil => rfl
  | cons c rest ih =>
    by_cases digit : IsDigitOf 16 c = true
    · rwa [List.dropWhile_cons_of_pos digit]
    · rw [List.dropWhile_cons_of_neg digit]
      exact List.takeWhile_cons_of_neg (mt (same c) digit)

/-- The string `1f` is 25 in base 10. -/
theorem not_atoi_eq_number_letter :
    atoi [0x31, 0x66] 10 ≠ number 10 [0x31, 0x66] ∧
      (StringValue.ofCString [0x31, 0x66, 0] (by decide)).toUint 10 ≠ number 10 [0x31, 0x66] := by
  decide

end MatteOS.Utils
