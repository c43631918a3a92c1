import MatteOS.Utils.Basic
import MatteOS.Utils.HashMap

/-!
# Strings

`Utils::String`, which has its characters in a `StringValue`, and `StringView`. The buffer of a
value has a NUL at or behind the length, so that the loops over C strings end in it. Lengths are
such as the `int` of `memcpy` counts.
-/

namespace MatteOS.Utils

/-- A `StringValue`: the buffer and the length, which are apart. -/
structure StringValue where
  buffer : List (BitVec 8)
  length : Nat
  terminated : 0 ∈ buffer.drop length

namespace StringValue

/-- `String::calculate_size`: the length of the C string at the start of the bytes. -/
def calculateSize : List (BitVec 8) → Nat
  | [] => 0
  | c :: cstring => if c ≠ 0 then calculateSize cstring + 1 else 0

@[simp] theorem calculateSize_nul (rest : List (BitVec 8)) : calculateSize (0#8 :: rest) = 0 := rfl

theorem calculateSize_cons {c : BitVec 8} (char : c ≠ 0) (cstring : List (BitVec 8)) :
    calculateSize (c :: cstring) = calculateSize cstring + 1 := if_pos char

/-! ## Construction -/

theorem mem_drop_append_nul {bytes : List (BitVec 8)} {nuls : List (BitVec 8)} {length : Nat}
    (enough : length ≤ bytes.length) (nul : 0 ∈ nuls) : 0 ∈ (bytes ++ nuls).drop length := by
  rw [List.drop_append_of_le_length enough]
  exact List.mem_append_right _ nul

/-- `StringValue::create`, of a source of at least `length` bytes. -/
def create (source : List (BitVec 8)) (length : Nat) (enough : length ≤ source.length) :
    StringValue where
  buffer := source.take length ++ [0]
  length := length
  terminated := mem_drop_append_nul (Nat.le_of_eq (List.length_take_of_le enough).symm) (by simp)

/-- What `to_cstring` points to has more bytes than the string is long. -/
theorem length_lt (s : StringValue) : s.length < s.buffer.length := by
  have present := List.length_pos_of_mem s.terminated
  rw [List.length_drop] at present
  omega

theorem calculateSize_lt {cstring : List (BitVec 8)} (terminated : 0 ∈ cstring) :
    calculateSize cstring < cstring.length ∧ 0 ∈ cstring.drop (calculateSize cstring) := by
  induction cstring with
  | nil => cases terminated
  | cons c cstring ih =>
    by_cases nul : c = 0
    · simp [nul]
    · obtain ⟨lt, rest⟩ := ih ((List.mem_cons.1 terminated).resolve_left (Ne.symm nul))
      rw [calculateSize_cons nul, List.length_cons, List.drop_succ_cons]
      exact ⟨Nat.succ_lt_succ lt, rest⟩

/-- `String(const char*)` -/
def ofCString (cstring : List (BitVec 8)) (terminated : 0 ∈ cstring) : StringValue :=
  create cstring (calculateSize cstring) (Nat.le_of_lt (calculateSize_lt terminated).1)

/-- `String()` -/
def empty : StringValue := ofCString [0] (by simp)

/-- `String(const char*, size_t)` -/
def ofLength (source : List (BitVec 8)) (length : Nat) (enough : length ≤ source.length) :
    StringValue :=
  create source length enough

/-- `String::adopt`, which takes the buffer as it is. -/
def adopt (cstring : List (BitVec 8)) (terminated : 0 ∈ cstring) : StringValue where
  buffer := cstring
  length := calculateSize cstring
  terminated := (calculateSize_lt terminated).2

/-- The bytes of UTF-16 units, in memory order. -/
def unitBytes : List (BitVec 8 × BitVec 8) → List (BitVec 8)
  | [] => []
  | (low, high) :: units => low :: high :: unitBytes units

theorem length_unitBytes (units : List (BitVec 8 × BitVec 8)) :
    (unitBytes units).length = 2 * units.length := by
  induction units with
  | nil => rfl
  | cons unit units ih =>
    simp only [unitBytes, List.length_cons, ih]
    omega

/-- `String::from_utf16`, whose length is the number of the units. -/
def fromUtf16 (units : List (BitVec 8 × BitVec 8)) : StringValue where
  buffer := unitBytes units ++ [0, 0]
  length := units.length
  terminated := mem_drop_append_nul (by rw [length_unitBytes]; omega) (by simp)

/-- `String(const String&)`, and `operator=(const String&)` from another string. -/
def copy (other : StringValue) : StringValue :=
  create other.buffer other.length (Nat.le_of_lt other.length_lt)

/-- `String::to_uint` -/
def toUint (s : StringValue) (base : BitVec 64) : BitVec 64 :=
  atoi (s.buffer.takeWhile (· ≠ 0)) base

/-! ## Comparison -/

/-- The comparison of the first `length` characters. -/
def sameChars (length : Nat) (value other : List (BitVec 8)) : Bool :=
  (List.range length).all fun i => value.getD i 0 == other.getD i 0

/-- `String::equals(const char*)` -/
def equalsCString (s : StringValue) (other : List (BitVec 8)) : Bool :=
  if s.length ≠ calculateSize other then false else sameChars s.length s.buffer other

/-- `String::equals(const String&)`, and `operator==`. -/
def equals (s other : StringValue) : Bool := s.equalsCString other.buffer

/-- `to_hash_input(const String&)` -/
def hashInput (s : StringValue) : List (BitVec 8) := s.buffer.take s.length

end StringValue

/-- A `StringView`, which shares the value of a string. -/
structure StringView where
  value : StringValue
  offset : Nat

namespace StringView

/-- `StringView(const String&)` -/
def ofString (s : StringValue) : StringView := { value := s, offset := 0 }

/-- `StringView::value` -/
def chars (view : StringView) : List (BitVec 8) := view.value.buffer.drop view.offset

/-- `StringView::equals(const char*)`, which compares from the start of the value. -/
def equalsCString (view : StringView) (other : List (BitVec 8)) : Bool :=
  if view.value.length ≠ StringValue.calculateSize other then false
  else StringValue.sameChars view.value.length view.value.buffer other

/-- `StringView::equals(const String&)` -/
def equalsString (view : StringView) (other : StringValue) : Bool := view.equalsCString other.buffer

/-- `StringView::equals(const StringView&)` -/
def equals (view other : StringView) : Bool := view.equalsCString other.chars

end StringView

/-- `String::equals(const StringView&)` -/
def StringValue.equalsView (s : StringValue) (other : StringView) : Bool :=
  s.equalsCString other.chars

end MatteOS.Utils
