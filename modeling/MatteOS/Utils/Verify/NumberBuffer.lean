import MatteOS.Utils.NumberBuffer
import MatteOS.Utils.Verify.Numbers
import Mathlib.Data.List.Basic
import Mathlib.Data.List.Induction
import Mathlib.Data.List.TakeWhile

/-!
# Numbers in buffers

Where the buffer has room for its digits and the NUL, `itoa` leaves the number in its canonical form,
which `atoi` reads back (`atoi_itoa`); where it has not, the first loop or the NUL run out of it
(`itoa_returns_iff`).
-/

namespace MatteOS.Utils

/-! ## The digits of a number -/

theorem itoaLoop_last {base n : Nat} (last : n < base) : itoaLoop base n = [digitChar n] := by
  rw [itoaLoop, Nat.mod_eq_of_lt last, dif_neg]
  intro more
  exact more.2 (Nat.div_eq_of_lt last)

theorem itoaLoop_step {base n : Nat} (two : 1 < base) (more : base ≤ n) :
    itoaLoop base n = digitChar (n % base) :: itoaLoop base (n / base) := by
  have rest : n / base ≠ 0 := Nat.ne_of_gt (Nat.div_pos more (by omega))
  rw [itoaLoop, dif_pos ⟨two, rest⟩]

/-- Induction over the digits of a number, from the last one on. -/
theorem digits_induction {base : Nat} (two : 1 < base) {motive : Nat → Prop}
    (last : ∀ n < base, motive n) (step : ∀ n, base ≤ n → motive (n / base) → motive n) (n : Nat) :
    motive n := by
  induction n using Nat.strong_induction_on with
  | _ n ih =>
    rcases Nat.lt_or_ge n base with lt | ge
    · exact last n lt
    · exact step n ge (ih _ (Nat.div_lt_self (by omega) two))

theorem itoaLoop_ne_nil (base n : Nat) : itoaLoop base n ≠ [] := by
  rw [itoaLoop]
  exact List.cons_ne_nil _ _

/-- How many digits there are. -/
theorem length_itoaLoop_le_iff {base : Nat} (two : 1 < base) (n k : Nat) :
    (itoaLoop base n).length ≤ k + 1 ↔ n < base ^ (k + 1) := by
  induction n using digits_induction two generalizing k with
  | last n lt =>
    rw [itoaLoop_last lt, List.length_singleton]
    refine iff_of_true (by omega) (Nat.lt_of_lt_of_le lt ?_)
    exact Nat.le_self_pow (Nat.succ_ne_zero k) base
  | step n ge ih =>
    rw [itoaLoop_step two ge, List.length_cons]
    cases k with
    | zero =>
      have some := List.length_pos_iff.2 (itoaLoop_ne_nil base (n / base))
      rw [Nat.pow_one]
      omega
    | succ k =>
      rw [Nat.succ_le_succ_iff, ih k, Nat.div_lt_iff_lt_mul (by omega), ← Nat.pow_succ]

theorem digitValue_digitChar : ∀ d < 16, digitValue (digitChar d) = some d := by decide

theorem value_append_digit {base d : Nat} (digit : d < 16) (digits : List (BitVec 8)) :
    value base (digits ++ [digitChar d]) = value base digits * base + d := by
  rw [value, valueFrom_append]
  simp only [valueFrom, List.foldl_cons, List.foldl_nil, digitValue_digitChar d digit,
    Option.getD_some, value]

/-! ## Canonical numerals -/

/-- The lower-case digits of a base. -/
def numerals (base : Nat) : List (BitVec 8) := (literal "0123456789abcdef").take base

/-- The numeral of a number: lower-case digits of the base, the most significant one first and not
zero unless it is the only one. -/
structure Canonical (base n : Nat) (digits : List (BitVec 8)) : Prop where
  digit : ∀ c ∈ digits, c ∈ numerals base
  value_eq : value base digits = n
  nonempty : digits ≠ []
  leading : digits.head? = some 0x30 → digits = [0x30]

theorem digitChar_mem_numerals {base d : Nat} (most : base ≤ 16) (digit : d < base) :
    digitChar d ∈ numerals base := by
  have all : ∀ base ≤ 16, ∀ d < base, digitChar d ∈ numerals base := by decide
  exact all base most d digit

/-- The digits of `itoa` are the numeral of the number. -/
theorem canonical_itoaLoop {base : Nat} (two : 1 < base) (most : base ≤ 16) (n : Nat) :
    Canonical base n (itoaLoop base n).reverse := by
  induction n using digits_induction two with
  | last n lt =>
    have small : n < 16 := Nat.lt_of_lt_of_le lt most
    rw [itoaLoop_last lt, List.reverse_singleton]
    refine ⟨List.forall_mem_singleton.2 (digitChar_mem_numerals most lt), ?_, by simp, ?_⟩
    · refine (value_append_digit small []).trans ?_
      rw [value, valueFrom, List.foldl_nil, Nat.zero_mul, Nat.zero_add]
    · intro leading
      rw [List.head?_cons, Option.some_inj] at leading
      rw [leading]
  | step n ge ih =>
    have lt : n % base < base := Nat.mod_lt n (by omega)
    have first : (itoaLoop base (n / base)).reverse ≠ [] := ih.nonempty
    rw [itoaLoop_step two ge, List.reverse_cons]
    refine ⟨List.forall_mem_append.2 ⟨ih.digit, ?_⟩, ?_, by simp, ?_⟩
    · exact List.forall_mem_singleton.2 (digitChar_mem_numerals most lt)
    · rw [value_append_digit (by omega), ih.value_eq]
      exact Nat.div_add_mod' n base
    · intro leading
      rw [List.head?_append_of_ne_nil _ first] at leading
      have zero : value base [0x30] = n / base := (ih.leading leading) ▸ ih.value_eq
      have none : value base [0x30] = 0 := by simp [value, valueFrom, digitValue]
      have some : 0 < n / base := Nat.div_pos ge (by omega)
      omega

theorem numerals_facts {base : Nat} {c : BitVec 8} (digit : c ∈ numerals base) :
    IsHexDigit c = true ∧ c ≠ 0x2D ∧ c ≠ 0 := by
  have all : ∀ c ∈ literal "0123456789abcdef", IsHexDigit c = true ∧ c ≠ 0x2D ∧ c ≠ 0 := by decide
  exact all c (List.mem_of_mem_take digit)

/-- A numeral is read back. -/
theorem Canonical.atoi_eq {base : BitVec 64} {n : Nat} {digits : List (BitVec 8)}
    (canonical : Canonical base.toNat n digits) : atoi digits base = BitVec.ofNat 64 n := by
  have hex : digits.takeWhile IsHexDigit = digits :=
    List.takeWhile_eq_self_iff.2 fun c mem => (numerals_facts (canonical.digit c mem)).1
  have positive : digits.head? ≠ some 0x2D := by
    intro minus
    exact (numerals_facts (canonical.digit _ (List.mem_of_mem_head? minus))).2.1 rfl
  have whole : unsigned digits = digits := if_neg positive
  rw [atoi_eq_signed, whole, hex, canonical.value_eq]
  exact if_neg positive

/-! ## The loops of `itoa` -/

namespace Buffer

variable {size : Nat}

theorem store_eq {buf : Buffer size} {i : Nat} (inside : i < size) (c : BitVec 8) :
    buf.store i c = .ok (buf.set i c) := if_pos inside

theorem load_eq {buf : Buffer size} {i : Nat} {c : BitVec 8} (char : buf.bytes[i]? = some c) :
    buf.load i = .ok c := congrArg orUndefined char

/-- The second loop turns around what lies between the indices. -/
theorem turnAround_returns (chars before behind : List (BitVec 8)) {buf : Buffer size}
    (bytes : buf.bytes = before ++ chars ++ behind) :
    Returns (buf.turnAround before.length (before.length + chars.length - 1)) fun buf =>
      buf.bytes = before ++ chars.reverse ++ behind := by
  induction chars using List.bidirectionalRec generalizing before behind buf with
  | nil =>
    rw [turnAround, dif_neg (by simp)]
    exact returns_ok.2 bytes
  | singleton c =>
    rw [turnAround, dif_neg (by simp)]
    exact returns_ok.2 bytes
  | cons_append first chars last ih =>
    have long : before.length + (first :: (chars ++ [last])).length - 1 =
        before.length + chars.length + 1 := by simp; omega
    have spread : buf.bytes = before ++ first :: (chars ++ last :: behind) := by
      rw [bytes]
      simp
    have fits : buf.bytes.length = size := buf.length_bytes
    rw [spread, List.length_append, List.length_cons, List.length_append, List.length_cons] at fits
    have left : buf.bytes[before.length]? = some first := by
      rw [spread]
      simp
    have right : buf.bytes[before.length + chars.length + 1]? = some last := by
      rw [spread]
      simp [Nat.add_assoc]
    have turned : ((buf.set before.length last).set (before.length + chars.length + 1) first).bytes =
        (before ++ [last]) ++ chars ++ first :: behind := by
      rw [bytes_set, bytes_set, spread]
      simp [Nat.add_assoc]
    rw [long, turnAround, dif_pos (by omega), load_eq left, ok_bind, load_eq right, ok_bind,
      store_eq (by omega), ok_bind, store_eq (by omega), ok_bind]
    have inner := ih _ _ turned
    rw [List.length_append, List.length_singleton] at inner
    have last' : before.length + chars.length + 1 - 1 = before.length + 1 + chars.length - 1 := by
      omega
    rw [last']
    simpa using inner

/-- A round of the first loop inside the buffer. -/
theorem putDigits_round {base : BitVec 64} (two : 1 < base.toNat) {n : BitVec 64}
    {buf : Buffer size} {i : Nat} (inside : i < size) :
    putDigits base buf i n =
      if base.toNat ≤ n.toNat then
        putDigits base (buf.set i (digitChar (n.toNat % base.toNat))) (i + 1) (n / base)
      else .ok (buf.set i (digitChar (n.toNat % base.toNat)), i + 1) := by
  have positive : base ≠ 0 := by
    rintro rfl
    exact absurd two (by decide)
  have more : n / base ≠ 0 ↔ base.toNat ≤ n.toNat := by
    rw [Ne, ← BitVec.toNat_inj, BitVec.toNat_udiv]
    exact Nat.div_ne_zero_iff.trans (and_iff_right (by omega))
  rw [putDigits, if_neg positive, dif_pos inside]
  dsimp only
  rw [BitVec.toNat_umod]
  exact if_congr more rfl rfl

/-- Outside the buffer there are no digits. -/
theorem putDigits_outside {base n : BitVec 64} {buf : Buffer size} {i : Nat} (outside : size ≤ i) :
    putDigits base buf i n = .error .undefined := by
  rw [putDigits, dif_neg (Nat.not_lt.2 outside), ite_self]

/-- A character, and what is put behind it. -/
theorem set_bytes (buf : Buffer size) {i k : Nat} (inside : i < size) (c : BitVec 8)
    (chars : List (BitVec 8)) (behind : i < k) :
    (buf.set i c).bytes.take (i + 1) ++ chars ++ (buf.set i c).bytes.drop k =
      buf.bytes.take i ++ (c :: chars) ++ buf.bytes.drop k := by
  have long : i < buf.bytes.length := buf.length_bytes.symm ▸ inside
  rw [bytes_set, List.drop_set_of_lt behind, List.take_succ_eq_append_getElem (by simpa using long),
    List.take_set_of_le (Nat.le_refl i), List.getElem_set_self]
  simp

/-- The first loop puts the digits of the number from the index on, if they end in the buffer. -/
theorem putDigits_returns {base : BitVec 64} (two : 1 < base.toNat) {n : BitVec 64}
    (buf : Buffer size) {i : Nat} (room : i + (itoaLoop base.toNat n.toNat).length ≤ size) :
    Returns (putDigits base buf i n) fun put =>
      put.2 = i + (itoaLoop base.toNat n.toNat).length ∧
        put.1.bytes = buf.bytes.take i ++ itoaLoop base.toNat n.toNat ++ buf.bytes.drop put.2 := by
  generalize value : n.toNat = m at room ⊢
  induction m using digits_induction two generalizing n buf i with
  | last m lt =>
    rw [itoaLoop_last lt] at room ⊢
    rw [putDigits_round two room, value, if_neg (Nat.not_le.2 lt), Nat.mod_eq_of_lt lt, returns_ok]
    refine ⟨rfl, ?_⟩
    have put := set_bytes buf room (digitChar m) [] (Nat.lt_succ_self i)
    rw [← put, List.append_nil, List.take_append_drop]
  | step m ge ih =>
    rw [itoaLoop_step two ge, List.length_cons] at room ⊢
    have inside : i < size := by omega
    rw [putDigits_round two inside, value, if_pos ge]
    have rest : (n / base).toNat = m / base.toNat := by rw [BitVec.toNat_udiv, value]
    have room' : i + 1 + (itoaLoop base.toNat (m / base.toNat)).length ≤ size := by omega
    obtain ⟨put, run, behind, bytes⟩ :=
      ih (buf.set i (digitChar (m % base.toNat))) rest room'
    refine ⟨put, run, by omega, ?_⟩
    rw [bytes, set_bytes buf inside _ _ (by omega)]

theorem putDigits_error {base : BitVec 64} (two : 1 < base.toNat) {n : BitVec 64}
    {buf : Buffer size} {i : Nat} (full : size < i + (itoaLoop base.toNat n.toNat).length) :
    putDigits base buf i n = .error .undefined := by
  generalize value : n.toNat = m at full
  induction m using digits_induction two generalizing n buf i with
  | last m lt =>
    rw [itoaLoop_last lt, List.length_singleton] at full
    exact putDigits_outside (by omega)
  | step m ge ih =>
    rw [itoaLoop_step two ge, List.length_cons] at full
    rcases Nat.lt_or_ge i size with inside | outside
    · rw [putDigits_round two inside, value, if_pos ge]
      exact ih (by rw [BitVec.toNat_udiv, value]) (by omega)
    · exact putDigits_outside outside

/-! ## `itoa` -/

section Itoa

variable {base : BitVec 32} (two : 1 < base.toNat) (positive : base.toNat < 2 ^ 31) (n : BitVec 64)

include positive in
theorem signExtend_base : (base.signExtend 64).toNat = base.toNat := by
  have msb : base.msb = false := BitVec.msb_eq_false_iff_two_mul_lt.2 (by omega)
  rw [BitVec.signExtend_eq_setWidth_of_msb_false msb, BitVec.toNat_setWidth]
  omega

include two positive in
/-- With room for the digits and the NUL, `itoa` leaves them at the start of the buffer. -/
theorem itoa_returns (buf : Buffer size) (room : (Utils.itoa n base.toNat).length < size) :
    Returns (buf.itoa n base) fun buf' => buf'.bytes = Utils.itoa n base.toNat ++
      0 :: buf.bytes.drop ((Utils.itoa n base.toNat).length + 1) := by
  have width := signExtend_base positive
  rw [Utils.itoa, List.length_reverse] at room ⊢
  rw [← width] at two room ⊢
  have digits : 0 + (itoaLoop (base.signExtend 64).toNat n.toNat).length ≤ size := by omega
  obtain ⟨⟨put, i⟩, run, behind, bytes⟩ := putDigits_returns two buf digits
  rw [Nat.zero_add] at behind
  subst behind
  dsimp only at bytes
  have first : (itoaLoop (base.signExtend 64).toNat n.toNat).length < buf.bytes.length := by
    rwa [buf.length_bytes]
  have stored : (put.set (itoaLoop (base.signExtend 64).toNat n.toNat).length 0).bytes =
      [] ++ itoaLoop (base.signExtend 64).toNat n.toNat ++
        0 :: buf.bytes.drop ((itoaLoop (base.signExtend 64).toNat n.toNat).length + 1) := by
    rw [bytes_set, bytes, List.take_zero, List.nil_append, List.drop_eq_getElem_cons first,
      List.set_append_right _ _ (Nat.le_refl _), Nat.sub_self]
    rfl
  have turned := turnAround_returns _ _ _ stored
  rw [List.length_nil, Nat.zero_add] at turned
  rw [itoa, run, ok_bind]
  dsimp only
  rwa [store_eq room, ok_bind]

include two positive in
/-- Without that room it writes behind the buffer. -/
theorem itoa_error (buf : Buffer size) (full : size ≤ (Utils.itoa n base.toNat).length) :
    buf.itoa n base = .error .undefined := by
  have width := signExtend_base positive
  rw [Utils.itoa, List.length_reverse] at full
  rw [← width] at two full
  rcases Nat.lt_or_eq_of_le full with past | filled
  · rw [itoa, putDigits_error two (by omega)]
    rfl
  · have digits : 0 + (itoaLoop (base.signExtend 64).toNat n.toNat).length ≤ size := by omega
    obtain ⟨⟨put, i⟩, run, behind, -⟩ := putDigits_returns two buf digits
    rw [itoa, run, ok_bind]
    dsimp only at behind ⊢
    rw [store, if_neg (by omega)]
    rfl

include two positive in
/-- `itoa` stays in the buffer where the number and the NUL fit. -/
theorem itoa_returns_iff (buf : Buffer size) :
    (∃ buf', buf.itoa n base = .ok buf') ↔ 1 < size ∧ n.toNat < base.toNat ^ (size - 1) := by
  have fits : (Utils.itoa n base.toNat).length < size ↔
      1 < size ∧ n.toNat < base.toNat ^ (size - 1) := by
    have some := List.length_pos_iff.2 (itoaLoop_ne_nil base.toNat n.toNat)
    rw [Utils.itoa, List.length_reverse]
    rcases Nat.lt_or_ge 1 size with more | less
    · obtain ⟨k, rfl⟩ : ∃ k, size = k + 2 := ⟨size - 2, by omega⟩
      rw [and_iff_right more]
      exact Nat.lt_succ_iff.trans (length_itoaLoop_le_iff two n.toNat k)
    · refine iff_of_false (by omega) fun ⟨more, _⟩ => absurd more (by omega)
  rw [← fits]
  constructor
  · rintro ⟨buf', run⟩
    by_contra full
    rw [itoa_error two positive n buf (Nat.not_lt.1 full)] at run
    cases run
  · intro room
    obtain ⟨buf', run, -⟩ := itoa_returns two positive n buf room
    exact ⟨buf', run⟩

include two in
/-- What a reader of the buffer gets. -/
theorem cstring_itoa {buf' : Buffer size} (most : base.toNat ≤ 16) {behind : List (BitVec 8)}
    (bytes : buf'.bytes = Utils.itoa n base.toNat ++ 0 :: behind) :
    buf'.cstring = Utils.itoa n base.toNat := by
  have canonical := canonical_itoaLoop two most n.toNat
  have chars : ∀ c ∈ Utils.itoa n base.toNat, (decide (c ≠ 0)) = true := fun c mem =>
    decide_eq_true (numerals_facts (canonical.digit c mem)).2.2
  rw [cstring, bytes, List.takeWhile_append_of_pos chars, List.takeWhile_cons_of_neg (by simp),
    List.append_nil]

end Itoa

/-- **`itoa` and `atoi` are inverse.** With room for the number, the buffer holds its numeral and a
NUL, and `atoi` reads the number back. -/
theorem atoi_itoa (buf : Buffer size) (n : BitVec 64) (base : BitVec 32) (least : 2 ≤ base.toNat)
    (most : base.toNat ≤ 16) (more : 1 < size) (room : n.toNat < base.toNat ^ (size - 1)) :
    Returns (buf.itoa n base) fun buf' =>
      Canonical base.toNat n.toNat buf'.cstring ∧
      buf'.bytes = buf'.cstring ++ 0 :: buf.bytes.drop (buf'.cstring.length + 1) ∧
      atoi buf'.cstring (base.signExtend 64) = n := by
  have positive : base.toNat < 2 ^ 31 := by omega
  obtain ⟨_, fits⟩ := (itoa_returns_iff least positive n buf).2 ⟨more, room⟩
  have digits : (Utils.itoa n base.toNat).length < size := by
    by_contra full
    rw [itoa_error least positive n buf (Nat.not_lt.1 full)] at fits
    cases fits
  obtain ⟨buf', run, bytes⟩ := itoa_returns least positive n buf digits
  have read := cstring_itoa least n most bytes
  have canonical := canonical_itoaLoop least most n.toNat
  refine ⟨buf', run, ?_⟩
  dsimp only
  rw [read]
  refine ⟨canonical, bytes, ?_⟩
  rw [← signExtend_base positive] at canonical
  have value := canonical.atoi_eq
  rw [signExtend_base positive, BitVec.ofNat_toNat, BitVec.setWidth_eq] at value
  exact value

/-- All 64 digits of the largest number in base 2. -/
theorem atoi_itoa_largest :
    Returns (Buffer.itoa ⟨List.replicate 65 0xFF, rfl⟩ (-1) 2) fun buf' =>
      Canonical 2 (2 ^ 64 - 1) buf'.cstring ∧
      buf'.bytes = buf'.cstring ++ 0 :: (List.replicate 65 0xFF).drop (buf'.cstring.length + 1) ∧
      atoi buf'.cstring 2 = -1 :=
  atoi_itoa _ (-1) 2 (by decide) (by decide) (by decide) (by decide)

end Buffer

/-! ## The callers -/

/-- `Formatter.toString` is `to_string` with its buffer, whatever the buffer holds. -/
theorem toStringFlags_eq (buffer : Buffer 64) (value : BitVec 64) (flags : List (BitVec 8)) :
    toStringFlags buffer value flags = Formatter.toString value flags := by
  obtain ⟨two, most⟩ : 1 < Formatter.base flags ∧ Formatter.base flags ≤ 16 := by
    unfold Formatter.base
    split_ifs <;> decide
  have width : (BitVec.ofNat 32 (Formatter.base flags)).toNat = Formatter.base flags :=
    BitVec.toNat_ofNat _ 32 ▸ Nat.mod_eq_of_lt (by omega)
  rw [toStringFlags, Formatter.toString]
  generalize BitVec.ofNat 32 (Formatter.base flags) = base at width ⊢
  rw [← width] at two most ⊢
  split
  next room =>
    obtain ⟨buf', run, bytes⟩ := Buffer.itoa_returns two (by omega) value buffer room
    rw [run, ok_bind, Buffer.cstring_itoa two value most bytes]
    rfl
  next full =>
    rw [Buffer.itoa_error two (by omega) value buffer (by omega)]
    rfl

end MatteOS.Utils
