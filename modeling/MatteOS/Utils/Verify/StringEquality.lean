import MatteOS.Utils.StringValue
import MatteOS.Utils.Strings

/-!
# Equality of strings

A string is what its length and its first bytes are (`content`). `equals` compares it with the C
string of the other one (`equals_iff`), so that it is equality, with all that follows, for the
strings whose C strings are their contents and only for these (`equalityLaws_iff`).
-/

namespace MatteOS.Utils

namespace StringValue

/-- The bytes of the string: as many as its length says. -/
def content (s : StringValue) : List (BitVec 8) := s.buffer.take s.length

theorem length_content (s : StringValue) : s.content.length = s.length :=
  List.length_take_of_le (Nat.le_of_lt s.length_lt)

/-- The C string at the start of the bytes. -/
def cstring (bytes : List (BitVec 8)) : List (BitVec 8) := bytes.take (calculateSize bytes)

/-- There is no NUL among the bytes of the string, and one behind them. -/
def Clean (s : StringValue) : Prop := 0 ∉ s.content ∧ s.buffer[s.length]? = some 0

theorem calculateSize_le (bytes : List (BitVec 8)) : calculateSize bytes ≤ bytes.length := by
  induction bytes with
  | nil => simp [calculateSize]
  | cons c bytes ih =>
    by_cases nul : c = 0
    · simp [nul]
    · simpa [calculateSize_cons nul] using ih

/-- A C string is as long as the bytes before the first NUL. -/
theorem calculateSize_eq_iff {bytes : List (BitVec 8)} {n : Nat} (inside : n < bytes.length) :
    calculateSize bytes = n ↔ 0 ∉ bytes.take n ∧ bytes[n]? = some 0 := by
  induction bytes generalizing n with
  | nil => simp at inside
  | cons c bytes ih =>
    cases n with
    | zero =>
      by_cases nul : c = 0
      · simp [nul]
      · simpa [calculateSize_cons nul] using nul
    | succ n =>
      have inside' : n < bytes.length := by simpa using inside
      by_cases nul : c = 0
      · simp [nul]
      · rw [calculateSize_cons nul, Nat.add_right_cancel_iff, ih inside', List.take_succ_cons,
          List.mem_cons, not_or, List.getElem?_cons_succ]
        exact ⟨fun h => ⟨⟨Ne.symm nul, h.1⟩, h.2⟩, fun h => ⟨h.1.2, h.2⟩⟩

theorem clean_iff (s : StringValue) : s.Clean ↔ calculateSize s.buffer = s.length :=
  (calculateSize_eq_iff s.length_lt).symm

theorem content_create {source : List (BitVec 8)} {length : Nat} (enough : length ≤ source.length) :
    (create source length enough).content = source.take length := by
  have long : (source.take length).length = length := List.length_take_of_le enough
  exact List.take_left' long

/-- A string that was created is clean if it has no NUL. -/
theorem clean_create {source : List (BitVec 8)} {length : Nat} (enough : length ≤ source.length) :
    (create source length enough).Clean ↔ 0 ∉ source.take length := by
  have long : (source.take length).length = length := List.length_take_of_le enough
  have behind : (create source length enough).buffer[length]? = some 0 := by
    rw [create, List.getElem?_append_right (Nat.le_of_eq long), long, Nat.sub_self]
    rfl
  rw [Clean, content_create]
  exact and_iff_left behind

theorem clean_ofCString {bytes : List (BitVec 8)} (terminated : 0 ∈ bytes) :
    (ofCString bytes terminated).Clean := by
  obtain ⟨inside, -⟩ := calculateSize_lt terminated
  exact (clean_create (Nat.le_of_lt inside)).2 ((calculateSize_eq_iff inside).1 rfl).1

/-! ## What `equals` compares -/

theorem sameChars_iff {n : Nat} {value other : List (BitVec 8)} (le : n ≤ value.length)
    (le' : n ≤ other.length) : sameChars n value other = true ↔ value.take n = other.take n := by
  simp only [sameChars, List.all_eq_true, List.mem_range, beq_iff_eq, List.getD_eq_getElem?_getD]
  constructor
  · intro same
    have long := List.length_take_of_le le
    refine List.ext_getElem (long.trans (List.length_take_of_le le').symm) fun i lt _ => ?_
    have char := same i (long ▸ lt)
    rw [List.getElem?_eq_getElem (by omega), List.getElem?_eq_getElem (by omega)] at char
    simpa using char
  · intro same i before
    have char := congrArg (·[i]?) same
    simp only [List.getElem?_take_of_lt before] at char
    rw [char]

/-- `equals` compares a string with the C string of the other. -/
theorem equalsCString_iff (s : StringValue) (other : List (BitVec 8)) :
    s.equalsCString other = true ↔ s.content = cstring other := by
  have le := calculateSize_le other
  have long : (cstring other).length = calculateSize other := List.length_take_of_le le
  unfold equalsCString
  split_ifs with differ
  · refine ⟨False.elim, fun same => absurd ?_ differ⟩
    rw [← s.length_content, same, long]
  · have length := not_ne_iff.1 differ
    rw [sameChars_iff (Nat.le_of_lt s.length_lt) (length ▸ le), content, cstring, length]

theorem equals_iff (a b : StringValue) : a.equals b = true ↔ a.content = cstring b.buffer :=
  equalsCString_iff a b.buffer

theorem cstring_eq_content {s : StringValue} (clean : s.Clean) :
    cstring s.buffer = s.content := by
  rw [cstring, s.clean_iff.1 clean, content]

theorem copy_content (s : StringValue) : s.copy.content = s.content := content_create _

theorem copy_clean {s : StringValue} (clean : s.Clean) : s.copy.Clean :=
  (clean_create _).2 clean.1

/-- On strings that are created the comparison is that of the bytes with those up to the first
NUL. -/
theorem equals_create (a : StringValue) {source : List (BitVec 8)} {length : Nat}
    (enough : length ≤ source.length) :
    a.equals (create source length enough) = Strings.equals a.content (source.take length) := by
  have first : ∀ bytes : List (BitVec 8),
      cstring (bytes ++ [0]) = bytes.takeWhile (· != 0) := by
    intro bytes
    induction bytes with
    | nil => rfl
    | cons c bytes ih =>
      by_cases nul : c = 0
      · simp [cstring, nul]
      · have keep : (c != 0) = true := bne_iff_ne.2 nul
        rw [List.takeWhile_cons, if_pos keep, ← ih, cstring, List.cons_append,
          calculateSize_cons nul, List.take_succ_cons, cstring]
  rw [Bool.eq_iff_iff, equals_iff, Strings.equals, beq_iff_eq, create, first]

end StringValue

/-! ## The laws -/

open StringValue

/-- What is expected of the comparison of two strings. -/
structure EqualityLaws (a b : StringValue) : Prop where
  content : a.equals b = true ↔ a.length = b.length ∧ a.content = b.content
  reflexive : a.equals a = true ∧ b.equals b = true
  symmetric : a.equals b = b.equals a
  copy : a.copy.equals a = true ∧ a.equals a.copy = true
  view : (StringView.ofString a).equalsString b = a.equals b ∧
    a.equalsView (.ofString b) = a.equals b ∧
    (StringView.ofString a).equals (.ofString b) = a.equals b
  hash : a.equals b = true → HashFunctions.djb2 a.hashInput = HashFunctions.djb2 b.hashInput

/-- **Equality of strings.** The comparison of two strings has its laws if and only if both are
clean. -/
theorem equalityLaws_iff (a b : StringValue) : EqualityLaws a b ↔ a.Clean ∧ b.Clean := by
  constructor
  · intro laws
    obtain ⟨self, self'⟩ := laws.reflexive
    have clean : ∀ s : StringValue, s.equals s = true → s.Clean := by
      intro s same
      have size := congrArg List.length ((equals_iff s s).1 same)
      rw [length_content, cstring, List.length_take_of_le (calculateSize_le _)] at size
      exact s.clean_iff.2 size.symm
    exact ⟨clean a self, clean b self'⟩
  · rintro ⟨cleanA, cleanB⟩
    have equalsA : ∀ s : StringValue, s.equals a = true ↔ s.content = a.content := fun s => by
      rw [equals_iff, cstring_eq_content cleanA]
    have equalsB : ∀ s : StringValue, s.equals b = true ↔ s.content = b.content := fun s => by
      rw [equals_iff, cstring_eq_content cleanB]
    refine
      { content := ?_
        reflexive := ⟨(equalsA a).2 rfl, (equalsB b).2 rfl⟩
        symmetric := Bool.eq_iff_iff.2 ((equalsB a).trans (eq_comm.trans (equalsA b).symm))
        copy := ⟨(equalsA _).2 a.copy_content, ?_⟩
        view := ⟨rfl, rfl, rfl⟩
        hash := fun same => congrArg HashFunctions.djb2 ((equalsB a).1 same) }
    · refine (equalsB a).trans ⟨fun same => ⟨?_, same⟩, And.right⟩
      rw [← a.length_content, same, b.length_content]
    · rw [equals_iff, cstring_eq_content (copy_clean cleanA), a.copy_content]

/-- A string of three bytes with a NUL in the middle is not equal to itself. -/
theorem not_equalityLaws_nul :
    ¬EqualityLaws (ofLength [0x61, 0, 0x62] 3 (by decide)) (ofLength [0x61, 0, 0x62] 3 (by decide)) := by
  intro laws
  have self := laws.reflexive.1
  revert self
  decide

end MatteOS.Utils
