import MatteOS.Utils.StringView
import MatteOS.Utils.Verify.StringEquality

/-!
# Suffixes of strings

What a view is to be that denotes a suffix (`Denotes`). A view with an offset has the value and the
length of the suffix (`cstring_chars`), but only a view of the whole string is compared and converted
as what it denotes (`offset_denotes_iff`).
-/

namespace MatteOS.Utils

open StringValue

/-- Two strings are equal but for the case of their letters. -/
def SameLetters (a b : List (BitVec 8)) : Prop := a.map toLower = b.map toLower

/-- The view is the string `suffix` in every operation. -/
structure Denotes (view : StringView) (suffix : List (BitVec 8)) : Prop where
  length : view.length = suffix.length
  value : cstring view.chars = suffix
  index : ∀ i < suffix.length, view.index i = orUndefined suffix[i]?
  equalsCString : ∀ other, view.equalsCString other = true ↔ suffix = cstring other
  equalsString : ∀ other : StringValue, other.Clean →
    (view.equalsString other = true ↔ suffix = other.content)
  equals : ∀ other : StringView, view.equals other = true ↔ suffix = cstring other.chars
  ignoreCaseCString : ∀ other, view.equalsIgnoreCaseCString other = true ↔
    SameLetters suffix (cstring other)
  ignoreCaseString : ∀ other : StringValue, other.Clean →
    (view.equalsIgnoreCaseString other = true ↔ SameLetters suffix other.content)
  ignoreCase : ∀ other : StringView, view.equalsIgnoreCase other = true ↔
    SameLetters suffix (cstring other.chars)
  toString : view.toString.content = suffix

/-! ## The operations -/

section

variable {s : StringValue} {k : Nat}

theorem sameLetters_eq (n : Nat) (value other : List (BitVec 8)) :
    sameLetters n value other = sameChars n (value.map toLower) (other.map toLower) := by
  have letters : ∀ (chars : List (BitVec 8)) (i : Nat),
      (chars.map toLower).getD i 0 = toLower (chars.getD i 0) := by
    intro chars i
    rw [List.getD_eq_getElem?_getD, List.getD_eq_getElem?_getD, List.getElem?_map]
    cases chars[i]? <;> rfl
  rw [sameLetters, sameChars]
  simp only [letters]

/-- The comparison is one with the value that the view shares, from its first character on. -/
theorem equalsIgnoreCaseCString_iff (view : StringView) (other : List (BitVec 8)) :
    view.equalsIgnoreCaseCString other = true ↔
      SameLetters view.value.content (cstring other) := by
  have le := calculateSize_le other
  have long : (cstring other).length = calculateSize other := List.length_take_of_le le
  unfold StringView.equalsIgnoreCaseCString
  split_ifs with differ
  · refine ⟨False.elim, fun same => absurd ?_ differ⟩
    have lengths := congrArg List.length same
    rwa [List.length_map, List.length_map, length_content, long] at lengths
  · have length := not_ne_iff.1 differ
    have inside := Nat.le_of_lt view.value.length_lt
    rw [sameLetters_eq, sameChars_iff (by rwa [List.length_map]) (by rwa [List.length_map, length]),
      ← List.map_take, ← List.map_take, SameLetters, content, cstring, length]

/-- The value of a view with an offset is the suffix. -/
theorem cstring_chars (clean : s.Clean) (le : k ≤ s.length) :
    cstring ((StringView.ofString s).offsetBy k).chars = s.content.drop k := by
  have chars : ((StringView.ofString s).offsetBy k).chars = s.buffer.drop k := rfl
  have suffix : (s.buffer.drop k).take (s.length - k) = s.content.drop k := by
    rw [content, List.drop_take]
  have inside : s.length - k < (s.buffer.drop k).length := by
    have lt := s.length_lt
    rw [List.length_drop]
    omega
  have size : calculateSize (s.buffer.drop k) = s.length - k := by
    refine (calculateSize_eq_iff inside).2 ⟨?_, ?_⟩
    · rw [suffix]
      exact fun nul => clean.1 (List.mem_of_mem_drop nul)
    · rw [List.getElem?_drop, Nat.add_sub_cancel' le]
      exact clean.2
  rw [chars, cstring, size, suffix]

theorem length_offsetBy (le : k ≤ s.length) :
    ((StringView.ofString s).offsetBy k).length = (s.content.drop k).length := by
  rw [List.length_drop, length_content]
  exact if_pos le

end

/-- The view of a whole string denotes it. -/
theorem denotes_ofString {s : StringValue} (clean : s.Clean) : Denotes (.ofString s) s.content where
  length := length_offsetBy (Nat.zero_le _)
  value := cstring_chars clean (Nat.zero_le _)
  index i lt := by
    have char : s.content[i]? = s.buffer[0 + i]? := by
      rw [length_content] at lt
      rw [Nat.zero_add, content, List.getElem?_take_of_lt lt]
    exact congrArg orUndefined char.symm
  equalsCString other := equalsCString_iff s other
  equalsString other cleanOther := by
    rw [← cstring_eq_content cleanOther]
    exact equalsCString_iff s other.buffer
  equals other := equalsCString_iff s other.chars
  ignoreCaseCString other := equalsIgnoreCaseCString_iff (.ofString s) other
  ignoreCaseString other cleanOther := by
    rw [← cstring_eq_content cleanOther]
    exact equalsIgnoreCaseCString_iff (.ofString s) other.buffer
  ignoreCase other := equalsIgnoreCaseCString_iff (.ofString s) other.chars
  toString := rfl

/-- The conversion takes the whole value, so that a view denotes no shorter suffix. -/
theorem Denotes.offset_eq_zero {view : StringView} {k : Nat}
    (denotes : Denotes view (view.value.content.drop k)) (le : k ≤ view.value.length) : k = 0 := by
  have lengths := congrArg List.length denotes.toString
  rw [StringView.toString, List.length_drop, length_content] at lengths
  omega

/-- **Views of suffixes.** A view with an offset, and one with an offset that is taken from it, are
the suffixes of the string if and only if the offsets are zero. -/
theorem offset_denotes_iff (s : StringValue) (clean : s.Clean) (k m : Nat) (le : k ≤ s.length)
    (le' : m ≤ ((StringView.ofString s).offsetBy k).length) :
    Denotes ((StringView.ofString s).offsetBy k) (s.content.drop k) ∧
      Denotes (((StringView.ofString s).offsetBy k).offsetBy m) ((s.content.drop k).drop m) ↔
    k = 0 ∧ m = 0 := by
  constructor
  · rintro ⟨first, second⟩
    rw [length_offsetBy le, List.length_drop, length_content] at le'
    rw [List.drop_drop] at second
    have zero := second.offset_eq_zero (show k + m ≤ s.length by omega)
    omega
  · rintro ⟨rfl, rfl⟩
    exact ⟨denotes_ofString clean, denotes_ofString clean⟩

/-- The string `ab` -/
def letters : StringValue := .ofCString [0x61, 0x62, 0] (by decide)

/-- The second character, and what is behind it. -/
theorem offset_denotes_iff_letters :
    Denotes ((StringView.ofString letters).offsetBy 1) (letters.content.drop 1) ∧
      Denotes (((StringView.ofString letters).offsetBy 1).offsetBy 1)
        ((letters.content.drop 1).drop 1) ↔ 1 = 0 ∧ 1 = 0 :=
  offset_denotes_iff letters (clean_ofCString _) 1 1 (by decide) (by decide)

/-- The second character of `ab` does not equal the string `b` as a view, but `ab` still does. -/
theorem not_denotes_second :
    ((StringView.ofString letters).offsetBy 1).equalsCString [0x62, 0] = false ∧
      ((StringView.ofString letters).offsetBy 1).equalsCString [0x61, 0x62, 0] = true ∧
      ¬Denotes ((StringView.ofString letters).offsetBy 1) (letters.content.drop 1) := by
  refine ⟨by decide, by decide, fun denotes => ?_⟩
  have second := (denotes.equalsCString [0x62, 0]).2 (by decide)
  revert second
  decide

end MatteOS.Utils
