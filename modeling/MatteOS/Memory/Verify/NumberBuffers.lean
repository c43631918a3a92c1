import MatteOS.Memory.PageTable
import MatteOS.Utils.Verify.NumberBuffer

/-!
# The buffers of the callers of `itoa`

A buffer of 64 bytes holds 63 digits, which is one too few for the largest numbers in base 2; the 20
bytes of `from_int` hold 19, and a negative `int` becomes a number of 20 digits.
-/

namespace MatteOS.Memory

open Utils ByteMemory

/-- A call of a function that has `itoa` write into a buffer of its own. -/
inductive NumberCall where
  | toStringS64 (value : BitVec 64)
  | toStringSize (value : BitVec 64)
  | toStringFlags (value : BitVec 64) (flags : List (BitVec 8))
  | printNumber (number : BitVec 64) (base : BitVec 32)
  | debugOutput (m : Memory) (table : Nat)
  | fromInt (value : BitVec 32)
  | fromU64 (value : BitVec 64)

namespace NumberCall

/-- What the call puts out, with buffers that hold any bytes before. -/
def run (raw : ∀ size, Buffer size) : NumberCall → Except Fault (List (BitVec 8))
  | toStringS64 value => Utils.toStringS64 (raw 64) value
  | toStringSize value => Utils.toStringSize (raw 64) value
  | toStringFlags value flags => Utils.toStringFlags (raw 64) value flags
  | printNumber number base => Utils.printNumber (raw 64) number base
  | debugOutput m table => Memory.debugOutput m table (raw 64)
  | fromInt value => Utils.fromInt (raw 20) value
  | fromU64 value => Utils.fromU64 (raw 22) value

/-- The flags and the bases that there are. -/
def Listed : NumberCall → Prop
  | toStringFlags _ flags => flags = [] ∨ flags = literal "2" ∨ flags = literal "16"
  | printNumber _ base => base = 2 ∨ base = 10 ∨ base = 16
  | _ => True

/-- In base 2 the number is less than `2 ^ 63`, and an `int` is not negative. -/
def Fits : NumberCall → Prop
  | toStringFlags value flags => flags = literal "2" → value.toNat < 2 ^ 63
  | printNumber number base => base = 2 → number.toNat < 2 ^ 63
  | debugOutput m table => ∀ i : BitVec 9, (loadEntry m (entryAddress table i)).isValid →
      (loadEntry m (entryAddress table i)).getValue.toNat < 2 ^ 63
  | fromInt value => 0 ≤ value.toInt
  | _ => True

end NumberCall

/-! ## Rounds -/

/-- What returns after a call returns where the call does. -/
theorem exists_bind_pure {α β : Type} {run : Except Fault α} (f : α → β) :
    (∃ b, (do let a ← run; return f a : Except Fault β) = .ok b) ↔ ∃ a, run = .ok a := by
  constructor
  · rintro ⟨b, ran⟩
    obtain ⟨a, first, -⟩ := bind_eq_ok ran
    exact ⟨a, first⟩
  · rintro ⟨a, rfl⟩
    exact ⟨f a, rfl⟩

/-- A loop goes through if each of its rounds does. -/
theorem exists_foldlM {α β : Type} {round : β → α → Except Fault β} {P : α → Prop}
    (each : ∀ b a, (∃ b', round b a = .ok b') ↔ P a) (rounds : List α) (b : β) :
    (∃ b', rounds.foldlM round b = .ok b') ↔ ∀ a ∈ rounds, P a := by
  induction rounds generalizing b with
  | nil => exact iff_of_true ⟨b, rfl⟩ fun a mem => absurd mem List.not_mem_nil
  | cons a rounds ih =>
    rw [List.foldlM_cons, List.forall_mem_cons]
    constructor
    · rintro ⟨b', run⟩
      obtain ⟨c, first, rest⟩ := bind_eq_ok run
      exact ⟨(each b a).1 ⟨c, first⟩, (ih c).1 ⟨b', rest⟩⟩
    · rintro ⟨first, rest⟩
      obtain ⟨c, run⟩ := (each b a).2 first
      rw [run, ok_bind]
      exact (ih c).2 rest

/-! ## The buffers -/

section Sizes

variable {n : BitVec 64}

theorem itoa_ten_returns {size : Nat} (buf : Buffer size) (more : 20 < size) :
    ∃ buf', buf.itoa n 10 = .ok buf' := by
  refine (Buffer.itoa_returns_iff (by decide) (by decide) n buf).2 ⟨by omega, ?_⟩
  calc n.toNat < 10 ^ 20 := Nat.lt_of_lt_of_le n.isLt (by decide)
    _ ≤ 10 ^ (size - 1) := Nat.pow_le_pow_right (by decide) (by omega)

theorem itoa_sixteen_returns (buf : Buffer 64) : ∃ buf', buf.itoa n 16 = .ok buf' := by
  refine (Buffer.itoa_returns_iff (by decide) (by decide) n buf).2 ⟨by decide, ?_⟩
  exact Nat.lt_of_lt_of_le n.isLt (by decide)

theorem itoa_two_returns_iff (buf : Buffer 64) :
    (∃ buf', buf.itoa n 2 = .ok buf') ↔ n.toNat < 2 ^ 63 :=
  (Buffer.itoa_returns_iff (by decide) (by decide) n buf).trans (and_iff_right (by decide))

theorem itoa_int_returns_iff (value : BitVec 32) (buf : Buffer 20) :
    (∃ buf', buf.itoa (value.signExtend 64) 10 = .ok buf') ↔ 0 ≤ value.toInt := by
  refine (Buffer.itoa_returns_iff (by decide) (by decide) _ buf).trans ?_
  have most : (10 : BitVec 32).toNat ^ (20 - 1) = 10000000000000000000 := rfl
  rw [and_iff_right (by decide), most, BitVec.toNat_signExtend, BitVec.toInt_eq_msb_cond]
  have word := value.isLt
  have high := BitVec.msb_eq_true_iff_two_mul_ge (x := value)
  cases msb : value.msb with
  | false =>
    simp only [msb, Bool.false_eq_true, if_false, BitVec.toNat_setWidth, false_iff] at high ⊢
    refine iff_of_true ?_ (Int.natCast_nonneg _)
    omega
  | true =>
    simp only [msb, if_true, BitVec.toNat_setWidth, true_iff] at high ⊢
    refine iff_of_false ?_ (by omega)
    omega

/-- A round of `debug_output` stays in the buffer. -/
theorem debugEntry_returns_iff (m : Memory) (table : Nat)
    (printed : List (BitVec 8) × Buffer 64) (i : Nat) :
    (∃ printed', debugEntry m table printed i = .ok printed') ↔
      ((loadEntry m (entryAddress table (BitVec.ofNat 9 i))).isValid →
        (loadEntry m (entryAddress table (BitVec.ofNat 9 i))).getValue.toNat < 2 ^ 63) := by
  obtain ⟨index, first⟩ := itoa_ten_returns (n := BitVec.ofNat 64 i) printed.2 (by decide)
  rw [debugEntry]
  split
  next valid =>
    rw [first, ok_bind, exists_bind_pure, itoa_two_returns_iff]
    exact ⟨fun less _ => less, fun fits => fits valid⟩
  next invalid => exact iff_of_true ⟨printed, rfl⟩ fun valid => absurd valid invalid

end Sizes

/-- **The buffers of the callers.** A call writes only into its buffer if and only if the number it
puts into base 2 is less than `2 ^ 63`, and the `int` of `from_int` is not negative. -/
theorem run_returns_iff (raw : ∀ size, Buffer size) (call : NumberCall) (listed : call.Listed) :
    (∃ output, call.run raw = .ok output) ↔ call.Fits := by
  cases call with
  | toStringS64 value =>
    exact iff_of_true ((exists_bind_pure _).2 (itoa_ten_returns _ (by decide))) trivial
  | toStringSize value =>
    exact iff_of_true ((exists_bind_pure _).2 (itoa_ten_returns _ (by decide))) trivial
  | toStringFlags value flags =>
    refine (exists_bind_pure _).trans ?_
    rcases listed with rfl | rfl | rfl
    · exact iff_of_true (itoa_ten_returns _ (by decide)) fun two => absurd two (by decide)
    · exact (itoa_two_returns_iff _).trans ⟨fun less _ => less, fun fits => fits rfl⟩
    · exact iff_of_true (itoa_sixteen_returns _) fun two => absurd two (by decide)
  | printNumber number base =>
    refine (exists_bind_pure _).trans ?_
    rcases listed with rfl | rfl | rfl
    · exact (itoa_two_returns_iff _).trans ⟨fun less _ => less, fun fits => fits rfl⟩
    · exact iff_of_true (itoa_ten_returns _ (by decide)) fun two => absurd two (by decide)
    · exact iff_of_true (itoa_sixteen_returns _) fun two => absurd two (by decide)
  | debugOutput m table =>
    refine (exists_bind_pure _).trans ((exists_foldlM (debugEntry_returns_iff m table) _ _).trans ?_)
    constructor
    · intro entries i
      have entry := entries i.toNat (List.mem_range.2 i.isLt)
      rwa [BitVec.ofNat_toNat, BitVec.setWidth_eq] at entry
    · intro fits i _
      exact fits (BitVec.ofNat 9 i)
  | fromInt value => exact (exists_bind_pure _).trans (itoa_int_returns_iff value _)
  | fromU64 value =>
    exact iff_of_true ((exists_bind_pure _).2 (itoa_ten_returns _ (by decide))) trivial

/-- Buffers that are all zero. -/
def zeroed (size : Nat) : Buffer size := ⟨List.replicate size 0, List.length_replicate⟩

/-- A small number in base 2. -/
theorem run_returns_iff_small :
    (∃ output, (NumberCall.printNumber 7 2).run zeroed = .ok output) ↔
      (NumberCall.printNumber 7 2).Fits :=
  run_returns_iff zeroed (.printNumber 7 2) (.inl rfl)

/-- The largest number in base 2 and `-1` in decimal run out of their buffers. -/
theorem not_returns_largest :
    ((NumberCall.printNumber (-1) 2).Listed ∧
      ¬∃ output, (NumberCall.printNumber (-1) 2).run zeroed = .ok output) ∧
    (NumberCall.fromInt (-1)).Listed ∧
      ¬∃ output, (NumberCall.fromInt (-1)).run zeroed = .ok output := by
  refine ⟨⟨.inl rfl, ?_⟩, trivial, ?_⟩
  · rintro ⟨output, run⟩
    obtain ⟨buf', digits, -⟩ := bind_eq_ok run
    exact absurd ((itoa_two_returns_iff _).1 ⟨buf', digits⟩) (by decide)
  · rintro ⟨output, run⟩
    obtain ⟨buf', digits, -⟩ := bind_eq_ok run
    exact absurd ((itoa_int_returns_iff _ _).1 ⟨buf', digits⟩) (by decide)

end MatteOS.Memory
