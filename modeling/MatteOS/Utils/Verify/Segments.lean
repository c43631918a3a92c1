import MatteOS.Utils.Verify.Strings

/-!
# The segments of a string

`split` drops what stands before a separator at the end of the string. It gives all segments
exactly if the string does not end with a segment and one separator (`split_eq_segments_iff`).
-/

namespace MatteOS.Utils.Strings

variable {separator : BitVec 8}

/-- The longest substrings without separators, in order, less the empty ones. -/
def segments (separator : BitVec 8) (value : List (BitVec 8)) : List (List (BitVec 8)) :=
  (value.splitOn separator).filter fun segment => !segment.isEmpty

@[simp] theorem segments_nil : segments separator [] = [] := rfl

theorem segments_append_cons (front rest : List (BitVec 8)) :
    segments separator (front ++ separator :: rest) =
      segments separator front ++ segments separator rest := by
  rw [segments, List.splitOn_append_cons_self, List.filter_append]
  rfl

theorem segments_of_not_mem {segment : List (BitVec 8)} (none : separator ∉ segment) :
    segments separator segment = if segment = [] then [] else [segment] := by
  rw [segments, List.splitOn_eq_singleton none]
  cases segment <;> rfl

/-- A segment is not empty and has no separator. -/
theorem isPart_of_mem_segments {value name : List (BitVec 8)} (mem : name ∈ segments separator value) :
    IsPart separator name := by
  by_cases sep : separator ∈ value
  · obtain ⟨front, rest, cut⟩ := List.append_of_mem sep
    have length := congrArg List.length cut
    rw [List.length_append, List.length_cons] at length
    rw [cut, segments_append_cons, List.mem_append] at mem
    rcases mem with mem | mem
    · have shorter : front.length < value.length := by omega
      exact isPart_of_mem_segments mem
    · have shorter : rest.length < value.length := by omega
      exact isPart_of_mem_segments mem
  · rw [segments_of_not_mem sep] at mem
    split at mem
    · cases mem
    · rename_i nonempty
      obtain rfl := List.mem_singleton.1 mem
      exact ⟨nonempty, sep⟩
termination_by value.length

/-- The characters of a segment are characters of the string. -/
theorem mem_of_mem_segments {value name : List (BitVec 8)} {char : BitVec 8}
    (mem : name ∈ segments separator value) (inside : char ∈ name) : char ∈ value := by
  by_cases sep : separator ∈ value
  · obtain ⟨front, rest, cut⟩ := List.append_of_mem sep
    have length := congrArg List.length cut
    rw [List.length_append, List.length_cons] at length
    rw [cut, segments_append_cons, List.mem_append] at mem
    rw [cut]
    rcases mem with mem | mem
    · have shorter : front.length < value.length := by omega
      exact List.mem_append_left _ (mem_of_mem_segments mem inside)
    · have shorter : rest.length < value.length := by omega
      exact List.mem_append_right _ (List.mem_cons_of_mem _ (mem_of_mem_segments mem inside))
  · rw [segments_of_not_mem sep] at mem
    split at mem
    · cases mem
    · obtain rfl := List.mem_singleton.1 mem
      exact inside
termination_by value.length

/-- Segments with a separator between each two. -/
theorem segments_intercalate {names : List (List (BitVec 8))}
    (valid : ∀ name ∈ names, IsPart separator name) :
    segments separator ([separator].intercalate names) = names := by
  cases names with
  | nil => rfl
  | cons name names =>
    rw [segments, List.splitOn_intercalate separator (fun name mem => (valid name mem).no_separator)
      (List.cons_ne_nil _ _), List.filter_eq_self]
    intro name mem
    simpa using (valid name mem).ne_nil

/-! ## Rounds -/

/-- What the rounds before `i` have found: all segments before `last_index`, which is 0 or the index
behind a separator. -/
structure Found (separator : BitVec 8) (value : List (BitVec 8)) (i : Nat) (s : SplitState) :
    Prop where
  inv : SplitInv separator value i s
  segments : ∀ rest, segments separator (value.take s.2 ++ rest) = s.1 ++ segments separator rest
  behind : s.2 = 0 ∨ value.getD (s.2 - 1) 0 = separator

section

variable {value : List (BitVec 8)} {i : Nat} {result : List (List (BitVec 8))} {lastIndex : Nat}

theorem Found.not_mem (found : Found separator value i (result, lastIndex)) :
    separator ∉ (value.drop lastIndex).take (i - lastIndex) := by
  intro mem
  obtain ⟨k, hk, here⟩ := List.mem_iff_getElem.1 mem
  have small := hk
  simp only [List.length_take, List.length_drop] at small
  rw [List.getElem_take, List.getElem_drop] at here
  apply found.inv.none (lastIndex + k) (Nat.le_add_right _ _) (show lastIndex + k < i by omega)
  rw [List.getD_eq_getElem _ _ (by omega), here]

/-- The string up to `i` and from `i` on. -/
theorem Found.cut (found : Found separator value i (result, lastIndex)) :
    value = value.take lastIndex ++ ((value.drop lastIndex).take (i - lastIndex) ++ value.drop i) := by
  have le : lastIndex ≤ i := found.inv.lastIndex
  have rest : value.drop i = (value.drop lastIndex).drop (i - lastIndex) := by
    rw [List.drop_drop, Nat.add_sub_cancel' le]
  rw [rest, List.take_append_drop, List.take_append_drop]

/-- At a separator, the stretch since `last_index` is a segment unless it is empty. -/
theorem Found.segments_separator (found : Found separator value i (result, lastIndex))
    (lt : i < value.length) (here : value.getD i 0 = separator) (rest : List (BitVec 8)) :
    Strings.segments separator (value.take (i + 1) ++ rest) =
      result ++ (if lastIndex < i then [(value.drop lastIndex).take (i - lastIndex)] else []) ++
        Strings.segments separator rest := by
  have le : lastIndex ≤ i := found.inv.lastIndex
  have char : value.take (i + 1) = value.take i ++ [separator] := by
    rw [List.take_succ_eq_append_getElem lt, ← here, List.getD_eq_getElem _ _ lt]
  have front : value.take i =
      value.take lastIndex ++ (value.drop lastIndex).take (i - lastIndex) := by
    rw [← List.take_add, Nat.add_sub_cancel' le]
  rw [char, List.append_assoc, List.singleton_append, front, List.append_assoc, found.segments,
    segments_append_cons, segments_of_not_mem found.not_mem, ← List.append_assoc]
  congr 2
  by_cases less : lastIndex < i
  · have long : (value.drop lastIndex).take (i - lastIndex) ≠ [] := by
      intro nil
      have := congrArg List.length nil
      simp only [List.length_take, List.length_drop, List.length_nil] at this
      omega
    rw [if_neg long, if_pos less]
  · have none : i - lastIndex = 0 := by omega
    rw [if_neg less, none, List.take_zero, if_pos rfl]

/-- Every round but the one over a separator at the end finds what it should. -/
theorem Found.round {s : SplitState} (found : Found separator value i s) (lt : i < value.length)
    (inside : i + 1 < value.length ∨ value.getD i 0 ≠ separator) :
    Found separator value (i + 1) (splitRound value separator s i) := by
  refine ⟨found.inv.round lt, ?_, ?_⟩
  · intro rest
    obtain ⟨result, lastIndex⟩ := s
    by_cases here : value.getD i 0 = separator
    · have le : lastIndex ≤ i := found.inv.lastIndex
      have inner : i ≠ value.length - 1 := by
        rcases inside with inside | other
        · omega
        · exact absurd here other
      have segments := found.segments_separator lt here rest
      simp only [splitRound, here, if_true]
      rcases Nat.eq_zero_or_pos i with rfl | pos
      · rw [if_neg (Nat.not_lt_zero _), List.append_nil] at segments
        rw [if_pos (Or.inl rfl)]
        exact segments
      · rw [if_neg (not_or.2 ⟨Nat.ne_of_gt pos, inner⟩)]
        split
        · rename_i more
          rw [if_pos (by omega)] at segments
          exact segments
        · rename_i none
          rw [if_neg (by omega), List.append_nil] at segments
          exact segments
    · rw [splitRound_other _ here]
      exact found.segments rest
  · by_cases here : value.getD i 0 = separator
    · refine Or.inr ?_
      simp only [splitRound, here, if_true]
      repeat' split
      all_goals exact here
    · rw [splitRound_other _ here]
      exact found.behind

theorem found_foldl {n : Nat} (lt : n < value.length) :
    Found separator value n ((List.range n).foldl (splitRound value separator) ([], 0)) := by
  induction n with
  | zero => exact ⟨splitInv_foldl (Nat.zero_le _), fun _ => rfl, Or.inl rfl⟩
  | succ n ih =>
    rw [List.range_succ, List.foldl_append]
    exact (ih (by omega)).round (by omega) (Or.inl lt)

end

/-! ## The whole string -/

section

variable {front : List (BitVec 8)} {char : BitVec 8} {result : List (List (BitVec 8))}
  {lastIndex : Nat}

/-- The last round, and what follows the last separator. -/
theorem split_concat (rounds : (List.range front.length).foldl
      (splitRound (front ++ [char]) separator) ([], 0) = (result, lastIndex))
    (le : lastIndex ≤ front.length) : split (front ++ [char]) separator =
      if char = separator then result else result ++ [(front ++ [char]).drop lastIndex] := by
  have length : (front ++ [char]).length = front.length + 1 := List.length_append
  have last : (front ++ [char]).getD front.length 0 = char := by simp
  have round : splitRound (front ++ [char]) separator (result, lastIndex) front.length =
      (result, if char = separator then front.length + 1 else lastIndex) := by
    by_cases here : char = separator
    · have ends : front.length = (front ++ [char]).length - 1 := by omega
      simp only [splitRound, last]
      rw [if_pos here, if_pos (Or.inr ends), if_pos here]
    · rw [splitRound_other _ (by rwa [last]), if_neg here]
  simp only [split, length, List.range_succ, List.foldl_append, List.foldl_cons, List.foldl_nil,
    rounds, round]
  by_cases here : char = separator
  · simp only [if_pos here]
    rw [if_neg (by omega)]
  · simp only [if_neg here]
    have size : ((front ++ [char]).drop lastIndex).length = front.length + 1 - lastIndex := by
      rw [List.length_drop, length]
    rw [if_pos (by omega), List.take_of_length_le (Nat.le_of_eq size)]

theorem split_concat_eq_segments_iff : split (front ++ [char]) separator =
    segments separator (front ++ [char]) ↔ char = separator →
      front = [] ∨ front.getD (front.length - 1) 0 = separator := by
  have length : (front ++ [char]).length = front.length + 1 := List.length_append
  have last : (front ++ [char]).getD front.length 0 = char := by simp
  have found := @found_foldl separator (front ++ [char]) front.length (by omega)
  rcases rounds : (List.range front.length).foldl (splitRound (front ++ [char]) separator) ([], 0)
    with ⟨result, lastIndex⟩
  rw [rounds] at found
  have le : lastIndex ≤ front.length := found.inv.lastIndex
  rw [split_concat rounds le]
  by_cases here : char = separator
  · have whole := found.segments_separator (by omega) (last.trans here) []
    rw [List.take_of_length_le (Nat.le_of_eq length), List.append_nil, segments_nil,
      List.append_nil] at whole
    rw [if_pos here, whole, forall_prop_of_true here]
    by_cases less : lastIndex < front.length
    · have other : front.getD (front.length - 1) 0 ≠ separator := by
        have none := found.inv.none (front.length - 1) (show lastIndex ≤ _ by omega) (by omega)
        rwa [List.getD_append _ _ _ _ (by omega)] at none
      have ne : front ≠ [] := List.ne_nil_of_length_pos (by omega)
      rw [if_pos less]
      refine iff_of_false (fun same => ?_) (not_or.2 ⟨ne, other⟩)
      exact absurd (List.self_eq_append_right.1 same) (List.cons_ne_nil _ _)
    · obtain rfl : lastIndex = front.length := by omega
      rw [if_neg less, List.append_nil]
      refine iff_of_true rfl ?_
      rcases found.behind with start | behind
      · exact Or.inl (List.length_eq_zero_iff.1 start)
      · rcases Nat.eq_zero_or_pos front.length with start | pos
        · exact Or.inl (List.length_eq_zero_iff.1 start)
        · rw [List.getD_append _ _ _ _ (show front.length - 1 < front.length by omega)] at behind
          exact Or.inr behind
  · rw [if_neg here]
    refine iff_of_true ?_ fun sep => absurd sep here
    have none : separator ∉ (front ++ [char]).drop lastIndex := by
      rw [List.drop_append_of_le_length le, List.mem_append, List.mem_singleton]
      rintro (mem | sep)
      · apply found.not_mem
        rwa [List.drop_append_of_le_length le, List.take_left' (by rw [List.length_drop])]
      · exact here sep.symm
    have ne : (front ++ [char]).drop lastIndex ≠ [] := by
      intro nil
      have := congrArg List.length nil
      simp only [List.length_drop, List.length_nil] at this
      omega
    have segments := found.segments ((front ++ [char]).drop lastIndex)
    rw [List.take_append_drop, segments_of_not_mem none, if_neg ne] at segments
    exact segments.symm

end

/-- At a separator behind another character, `split` drops the last segment. -/
theorem split_append_separator (other : char ≠ separator) :
    split (front ++ [char, separator]) separator =
      (segments separator (front ++ [char, separator])).dropLast := by
  have whole : front ++ [char, separator] = (front ++ [char]) ++ [separator] := by simp
  have length : (front ++ [char] ++ [separator]).length = (front ++ [char]).length + 1 :=
    List.length_append
  have last : (front ++ [char] ++ [separator]).getD (front ++ [char]).length 0 = separator := by simp
  have found := @found_foldl separator (front ++ [char] ++ [separator]) (front ++ [char]).length
    (by omega)
  rcases rounds : (List.range (front ++ [char]).length).foldl
    (splitRound (front ++ [char] ++ [separator]) separator) ([], 0) with ⟨result, lastIndex⟩
  rw [rounds] at found
  have le : lastIndex ≤ (front ++ [char]).length := found.inv.lastIndex
  -- the last segment is not empty, since another character is before the separator
  have less : lastIndex < (front ++ [char]).length := by
    refine Nat.lt_of_le_of_ne le fun same => ?_
    rcases found.behind with start | behind
    · simp only at start
      simp [start] at same
    · refine other ?_
      simp only [same] at behind
      simpa using behind
  have segments := found.segments_separator (by omega) last []
  rw [List.take_of_length_le (Nat.le_of_eq length), List.append_nil, segments_nil,
    List.append_nil, if_pos less] at segments
  rw [whole, split_concat rounds le, if_pos rfl, segments, List.dropLast_concat]

/-- Where nothing is dropped -/
theorem split_eq_segments {value : List (BitVec 8)}
    (none : ¬ ∃ front char, char ≠ separator ∧ value = front ++ [char, separator]) :
    split value separator = segments separator value := by
  rcases List.eq_nil_or_concat value with rfl | ⟨front, last, rfl⟩
  · rfl
  rw [List.concat_eq_append] at none ⊢
  rw [split_concat_eq_segments_iff]
  intro ends
  subst ends
  rcases List.eq_nil_or_concat front with rfl | ⟨front, char, rfl⟩
  · exact Or.inl rfl
  · refine Or.inr ?_
    rw [List.concat_eq_append] at none ⊢
    by_contra other
    refine none ⟨front, char, ?_, by simp⟩
    simpa using other

/-- **All segments.** `split` gives the longest substrings without separators, in order and less the
empty ones, if and only if the string does not end with a separator behind another character. -/
theorem split_eq_segments_iff (value : List (BitVec 8)) (separator : BitVec 8) :
    split value separator = segments separator value ↔
      ¬ ∃ front char, char ≠ separator ∧ value = front ++ [char, separator] := by
  refine ⟨fun all => ?_, split_eq_segments⟩
  rintro ⟨front, char, other, rfl⟩
  rw [List.append_cons front, split_concat_eq_segments_iff] at all
  rcases all rfl with nil | sep
  · exact absurd nil (List.append_ne_nil_of_right_ne_nil _ (List.cons_ne_nil _ _))
  · apply other
    simpa using sep

/-- Of `a/`, the segment `a` is dropped. -/
theorem split_ne_segments_slash :
    split [0x61, 0x2F] 0x2F ≠ segments 0x2F [0x61, 0x2F] := by
  decide

/-! ## Separators as strings -/

theorem splitByRound_singleton {value : List (BitVec 8)} {s : SplitState} {i : Nat} (le : s.2 ≤ i) :
    splitByRound value [separator] s i = some (splitRound value separator s i) := by
  obtain ⟨result, lastIndex⟩ := s
  have le : lastIndex ≤ i := le
  simp only [splitByRound, splitRound, List.getElem?_cons_zero, Option.bind_eq_bind,
    Option.bind_some, List.length_singleton, Nat.lt_irrefl, if_false, if_true,
    if_neg (Nat.not_lt.2 le)]
  repeat' split
  all_goals rfl

/-- `splitBy` is `split` for a separator of one character. -/
theorem splitBy_singleton (value : List (BitVec 8)) :
    splitBy value [separator] = some (split value separator) := by
  have rounds {n : Nat} (le : n ≤ value.length) :
      (List.range n).foldlM (splitByRound value [separator]) ([], 0) =
        some ((List.range n).foldl (splitRound value separator) ([], 0)) := by
    induction n with
    | zero => rfl
    | succ n ih =>
      have before := ih (Nat.le_of_succ_le le)
      have inv := @splitInv_foldl separator value n (Nat.le_of_succ_le le)
      rw [List.range_succ, List.foldlM_append, before, List.foldl_append]
      simp only [List.foldlM_cons, List.foldlM_nil, Option.bind_eq_bind, Option.bind_some,
        splitByRound_singleton inv.lastIndex]
      rfl
  simp only [splitBy, rounds (Nat.le_refl _), Option.bind_eq_bind, Option.bind_some, split]
  split <;> rfl

end MatteOS.Utils.Strings
