import MatteOS.Lib.Pieces
import MatteOS.Utils.Strings
import Mathlib.Data.List.GetD
import Mathlib.Data.List.Infix

/-!
# Splitting by a longer separator

After a character that starts the separator, `split` compares the two up to the end of the string
and not of the separator. So a separator that more characters follow is read past its end, and a
suffix that only starts the separator is taken for one; the first character of the separator is
dropped at either end of the string. The strings that are split as they should be are few
(`splitBy_eq_between_iff`).
-/

namespace MatteOS.Utils.Strings

open Pieces

/-- Where the suffixes of at least two characters begin with which the separator starts, other than
the whole string. -/
def tails (value separator : List (BitVec 8)) : List Nat :=
  (List.range' 1 (value.length - 2)).filter fun i => value.drop i <+: separator

/-- The separator occurs in the string at most at its start and at its end. -/
def Free (value separator : List (BitVec 8)) : Prop :=
  ∀ i, 1 ≤ i → i + separator.length < value.length → ¬ separator <+: value.drop i

/-- A string that is split as it should be. -/
structure Splits (value separator : List (BitVec 8)) : Prop where
  free : Free value separator
  cases : value = [] ∨
    -- nothing looks like the separator
    (value.head? ≠ separator.head? ∧ value.getLast? ≠ separator.head? ∧
      tails value separator = []) ∨
    -- the separator is the end
    (value.head? ≠ separator.head? ∧
      tails value separator = [value.length - separator.length]) ∨
    -- the string is the separator
    (value = separator ∧ value.getLast? = separator.head? ∧ tails value separator = []) ∨
    -- what follows the separator stands between the first character and the suffix
    (separator <+: value ∧ tails value separator = [value.length - separator.length + 1] ∧
      (value.drop 1).take (value.length - separator.length) = value.drop separator.length)

section

variable {value rest : List (BitVec 8)} {first : BitVec 8}

/-! ## Rounds -/

theorem compareRest_eq (value separator : List (BitVec 8)) : compareRest value separator =
    if value <+: separator then some true
    else if separator <+: value then none
    else some false := by
  induction value generalizing separator with
  | nil => rfl
  | cons char value ih =>
    cases separator with
    | nil => rfl
    | cons char' separator =>
      rw [compareRest, ih]
      by_cases same : char = char'
      · subst same
        simp only [ne_eq, not_true_eq_false, if_false, List.prefix_cons_inj]
      · have ne : ¬ char :: value <+: char' :: separator := by
          rw [List.cons_prefix_cons]
          exact fun h => same h.1
        have ne' : ¬ char' :: separator <+: char :: value := by
          rw [List.cons_prefix_cons]
          exact fun h => same h.1.symm
        rw [if_pos same, if_neg ne, if_neg ne']

/-- The part between two indices, unless it is empty. -/
def part (value : List (BitVec 8)) (start stop : Nat) : List (List (BitVec 8)) :=
  if start < stop then [(value.drop start).take (stop - start)] else []

/-- A round between the first and the last one. -/
theorem splitByRound_inner (long : rest ≠ []) {i : Nat} (pos : 0 < i) (lt : i + 1 < value.length)
    (result : List (List (BitVec 8))) (lastIndex : Nat) :
    splitByRound value (first :: rest) (result, lastIndex) i =
      if value.drop i <+: first :: rest then
        if i < lastIndex then none
        else some (result ++ part value lastIndex i, i + (first :: rest).length)
      else if first :: rest <+: value.drop i then none
      else some (result, lastIndex) := by
  have drop : value.drop i = value.getD i 0 :: value.drop (i + 1) := by
    rw [List.drop_eq_getElem_cons (by omega), List.getD_eq_getElem _ _ (by omega)]
  have inner : ¬ (i = 0 ∨ i = value.length - 1) := by omega
  have more : (first :: rest).length > 1 := by
    have := List.length_pos_iff.2 long
    rw [List.length_cons]
    omega
  simp only [splitByRound, List.getElem?_cons_zero, Option.bind_eq_bind, Option.bind_some]
  rw [if_neg inner, if_pos more, drop]
  by_cases here : value.getD i 0 = first
  · rw [if_pos here, List.drop_one, List.tail_cons, compareRest_eq, here]
    simp only [List.prefix_cons_inj]
    by_cases found : value.drop (i + 1) <+: rest
    · simp only [if_pos found, Option.bind_some, if_true, part]
      by_cases wraps : i < lastIndex
      · rw [if_pos wraps, if_pos wraps]
      · rw [if_neg wraps, if_neg wraps]
        by_cases some : lastIndex < i
        · rw [if_pos (by omega), if_pos some]
          rfl
        · rw [if_neg (by omega), if_neg some, List.append_nil]
          rfl
    · rw [if_neg found, if_neg found]
      by_cases past : rest <+: value.drop (i + 1)
      · rw [if_pos past, if_pos past]
        rfl
      · rw [if_neg past, if_neg past]
        rfl
  · have ne : ¬ value.getD i 0 :: value.drop (i + 1) <+: first :: rest := by
      rw [List.cons_prefix_cons]
      exact fun h => here h.1
    have ne' : ¬ first :: rest <+: value.getD i 0 :: value.drop (i + 1) := by
      rw [List.cons_prefix_cons]
      exact fun h => here h.1.symm
    rw [if_neg here, if_neg ne, if_neg ne']
    rfl

/-- Where the first part starts: the first character is dropped if it starts the separator. -/
def firstPart (value separator : List (BitVec 8)) : Nat :=
  if value.head? = separator.head? then 1 else 0

theorem splitByRound_zero (pos : 0 < value.length) :
    splitByRound value (first :: rest) ([], 0) 0 = some ([], firstPart value (first :: rest)) := by
  obtain ⟨char, value, rfl⟩ := List.exists_cons_of_length_pos pos
  simp only [splitByRound, List.getElem?_cons_zero, Option.bind_eq_bind, Option.bind_some,
    List.getD_cons_zero, true_or, if_true, firstPart, List.head?_cons, Option.some.injEq]
  split <;> rfl

theorem splitByRound_last (pos : 0 < value.length) (s : SplitState) :
    splitByRound value (first :: rest) s (value.length - 1) =
      some (s.1, if value.getLast? = (first :: rest).head? then value.length else s.2) := by
  have last : value.getLast? = some (value.getD (value.length - 1) 0) := by
    rw [List.getLast?_eq_getElem?, List.getElem?_eq_getElem (by omega),
      List.getD_eq_getElem _ _ (by omega)]
  have size : value.length - 1 + 1 = value.length := by omega
  simp only [splitByRound, List.getElem?_cons_zero, Option.bind_eq_bind, Option.bind_some, or_true,
    if_true, size]
  by_cases here : value.getD (value.length - 1) 0 = first
  · rw [if_pos here, if_pos (by rw [last, here, List.head?_cons])]
    rfl
  · rw [if_neg here, if_neg]
    · rfl
    · rw [last, List.head?_cons, Option.some.injEq]
      exact here

/-! ## All rounds -/

/-- The state after the rounds over a string with these `tails`, none of them at its end. -/
def stateAfter (value separator : List (BitVec 8)) : List Nat → Option SplitState
  | [] => some ([], firstPart value separator)
  | [i] => some (part value (firstPart value separator) i, i + separator.length)
  | _ :: _ :: _ => none

theorem firstPart_le : firstPart value (first :: rest) ≤ 1 := by
  unfold firstPart
  split <;> decide

/-- The rounds up to `m`, before the last one, if no separator is read past its end. -/
theorem rounds_eq (long : rest ≠ []) {m : Nat} (lt : m + 1 < value.length)
    (free : ∀ i, 1 ≤ i → i ≤ m → i + (first :: rest).length < value.length →
      ¬ first :: rest <+: value.drop i) :
    (List.range (m + 1)).foldlM (splitByRound value (first :: rest)) ([], 0) =
      stateAfter value (first :: rest)
        ((List.range' 1 m).filter fun i => value.drop i <+: first :: rest) := by
  induction m with
  | zero =>
    have zero := @splitByRound_zero value rest first (by omega)
    rw [Nat.zero_add, List.range_one, List.foldlM_cons, zero]
    rfl
  | succ m ih =>
    have before := ih (by omega) fun i pos le => free i pos (Nat.le_succ_of_le le)
    rw [List.range_succ, List.foldlM_append, before, List.range'_concat, List.filter_append,
      Nat.one_mul, Nat.add_comm 1 m]
    have round (s : SplitState) :=
      @splitByRound_inner value rest first long (m + 1) (Nat.succ_pos m) (by omega) s.1 s.2
    by_cases here : value.drop (m + 1) <+: first :: rest
    · -- a suffix found before ends no later than the separator that starts there
      have tail : ∀ i ∈ (List.range' 1 m).filter fun i => value.drop i <+: first :: rest,
          m + 1 < i + (first :: rest).length := by
        intro i mem
        have found : value.drop i <+: first :: rest := by simpa using (List.mem_filter.1 mem).2
        have := found.length_le
        rw [List.length_drop] at this
        omega
      have one : [m + 1].filter (fun i => value.drop i <+: first :: rest) = [m + 1] := by
        simp [here]
      rw [one]
      generalize (List.range' 1 m).filter (fun i => value.drop i <+: first :: rest) = found at tail ⊢
      rcases found with _ | ⟨i, _ | ⟨j, found⟩⟩
      · have start := @firstPart_le value rest first
        simp only [stateAfter, List.nil_append, List.foldlM_cons, List.foldlM_nil, Option.bind_eq_bind,
          Option.bind_some, round, if_pos here]
        rw [if_neg (by omega)]
        rfl
      · have wraps := tail i List.mem_cons_self
        simp only [stateAfter, List.singleton_append, List.foldlM_cons, List.foldlM_nil,
          Option.bind_eq_bind, Option.bind_some, round, if_pos here]
        rw [if_pos wraps]
        rfl
      · rfl
    · have none : [m + 1].filter (fun i => value.drop i <+: first :: rest) = [] := by
        simp [here]
      have inside : ¬ first :: rest <+: value.drop (m + 1) := by
        intro occurs
        rcases Nat.lt_or_ge (m + 1 + (first :: rest).length) value.length with less | ge
        · exact free (m + 1) (Nat.succ_pos m) (Nat.le_refl _) less occurs
        · apply here
          rw [occurs.eq_of_length_le]
          rw [List.length_drop]
          omega
      rw [none, List.append_nil]
      cases stateAfter value (first :: rest)
          ((List.range' 1 m).filter fun i => value.drop i <+: first :: rest) with
      | none => rfl
      | some s =>
        simp only [List.foldlM_cons, List.foldlM_nil, Option.bind_eq_bind, Option.bind_some, round,
          if_neg here, if_neg inside]
        rfl

/-- What `split` gives for a string with these `tails`. -/
def outcome (value separator : List (BitVec 8)) : List Nat → Option (List (List (BitVec 8)))
  | [] =>
    if value.getLast? = separator.head? then some []
    else some [value.drop (firstPart value separator)]
  | [i] => some (part value (firstPart value separator) i)
  | _ :: _ :: _ => none

/-- Rounds that succeed read no separator past its end. -/
theorem free_of_rounds (long : rest ≠ []) {m : Nat} (lt : m + 1 < value.length) {s : SplitState}
    (run : (List.range (m + 1)).foldlM (splitByRound value (first :: rest)) ([], 0) = some s) :
    ∀ i, 1 ≤ i → i ≤ m → i + (first :: rest).length < value.length →
      ¬ first :: rest <+: value.drop i := by
  induction m generalizing s with
  | zero => exact fun i pos le => by omega
  | succ m ih =>
    rw [List.range_succ, List.foldlM_append] at run
    obtain ⟨s', before, round⟩ := Option.bind_eq_some_iff.1 run
    intro i pos le less occurs
    rcases Nat.lt_or_eq_of_le le with earlier | rfl
    · exact ih (by omega) before i pos (by omega) less occurs
    · have shorter : ¬ value.drop (m + 1) <+: first :: rest := by
        intro found
        have := found.length_le
        rw [List.length_drop] at this
        omega
      rw [List.foldlM_cons, splitByRound_inner long pos lt s'.1 s'.2, if_neg shorter, if_pos occurs]
        at round
      cases round

/-! ## The whole string -/

theorem splitBy_eq (long : rest ≠ []) (pos : 0 < value.length)
    (free : Free value (first :: rest)) :
    splitBy value (first :: rest) =
      outcome value (first :: rest) (tails value (first :: rest)) := by
  rcases Nat.lt_or_ge 1 value.length with more | one
  · obtain ⟨m, size⟩ : ∃ m, value.length = m + 2 := ⟨value.length - 2, by omega⟩
    have rounds := @rounds_eq _ _ first long m (by omega) fun i pos _ => free i pos
    have last (s : SplitState) := @splitByRound_last value rest first pos s
    have eq : value.length - 1 = m + 1 := by omega
    simp only [eq] at last
    have found : (List.range' 1 m).filter (fun i => value.drop i <+: first :: rest) =
        tails value (first :: rest) := by
      rw [tails, size]
      rfl
    have tail : ∀ i ∈ tails value (first :: rest), value.length ≤ i + (first :: rest).length := by
      intro i mem
      have found : value.drop i <+: first :: rest := by simpa using (List.mem_filter.1 mem).2
      have := found.length_le
      rw [List.length_drop] at this
      omega
    rw [splitBy, size, List.range_succ, List.foldlM_append, rounds, found]
    generalize tails value (first :: rest) = found at tail ⊢
    rcases found with _ | ⟨i, _ | ⟨j, found⟩⟩
    · have start := @firstPart_le value rest first
      simp only [stateAfter, outcome, List.foldlM_cons, List.foldlM_nil, Option.bind_eq_bind,
        Option.bind_some, Option.pure_def, last, size]
      by_cases ends : value.getLast? = (first :: rest).head?
      · simp only [if_pos ends]
        rw [if_neg (by omega)]
      · simp only [if_neg ends]
        rw [if_pos (by omega), List.take_of_length_le, List.nil_append]
        · rw [List.length_drop, size]
    · have past := tail i List.mem_cons_self
      simp only [stateAfter, outcome, List.foldlM_cons, List.foldlM_nil, Option.bind_eq_bind,
        Option.bind_some, Option.pure_def, last, size]
      split
      · rw [if_neg (by omega)]
      · rw [if_neg (by omega)]
    · rfl
  · obtain ⟨char, rfl⟩ := List.length_eq_one_iff.1 (Nat.le_antisymm one pos)
    have zero := @splitByRound_zero _ rest first pos
    simp only [splitBy, List.length_singleton, List.range_one, List.foldlM_cons, List.foldlM_nil,
      zero, Option.bind_eq_bind, Option.bind_some, firstPart, outcome, tails, List.head?_cons,
      List.getLast?_singleton, Option.some.injEq]
    by_cases same : char = first
    · simp only [if_pos same]
      rfl
    · simp only [if_neg same]
      rfl

/-! ## What should be found -/

section

variable {separator : List (BitVec 8)}

/-- The pieces of a string in which the separator occurs at most at its end. -/
theorem filter_pieces_of_end (ne : separator ≠ [])
    (ends : ∀ i, i + separator.length < value.length → ¬ separator <+: value.drop i) :
    ((pieces separator 0 [] value).filter fun piece => !piece.isEmpty) =
      part value 0 (if separator <:+ value then value.length - separator.length
        else value.length) := by
  have pos := List.length_pos_iff.2 ne
  by_cases suffix : separator <:+ value
  · obtain ⟨front, rfl⟩ := suffix
    have none : ∀ i < front.length, ¬ separator <+: (front ++ separator).drop i := by
      intro i less
      apply ends
      rw [List.length_append]
      omega
    have last := pieces_occurrence ne front []
    rw [List.append_nil] at last
    rw [if_pos (List.suffix_append _ _), pieces_append none, List.nil_append, last, part,
      List.length_append, Nat.add_sub_cancel]
    cases front <;> simp [pieces]
  · have none : ∀ i < value.length, ¬ separator <+: value.drop i := by
      intro i less occurs
      rcases Nat.lt_or_ge (i + separator.length) value.length with before | last
      · exact ends i before occurs
      · apply suffix
        have length := List.length_drop (i := i) (l := value)
        rw [occurs.eq_of_length_le (by omega)]
        exact List.drop_suffix i value
    rw [if_neg suffix, pieces_of_none none, List.nil_append, part]
    cases value <;> simp

theorem between_of_not_leading (ne : separator ≠ []) (free : Free value separator)
    (start : ¬ separator <+: value) : between separator value =
      part value 0 (if separator <:+ value then value.length - separator.length
        else value.length) := by
  refine filter_pieces_of_end ne fun i less => ?_
  rcases Nat.eq_zero_or_pos i with rfl | pos
  · exact start
  · exact free i pos less

theorem between_of_leading (ne : separator ≠ []) (free : Free (separator ++ value) separator) :
    between separator (separator ++ value) =
      part value 0 (if separator <:+ value then value.length - separator.length
        else value.length) := by
  have pos := List.length_pos_iff.2 ne
  have rest : ∀ i, i + separator.length < value.length → ¬ separator <+: value.drop i := by
    intro i less occurs
    have length : (separator ++ value).length = separator.length + value.length := List.length_append
    apply free (separator.length + i) (by omega) (by omega)
    rwa [List.drop_append, List.drop_of_length_le (Nat.le_add_right _ _), List.nil_append,
      Nat.add_sub_cancel_left]
  rw [between, pieces_occurrence ne, List.filter_cons_of_neg (by simp), filter_pieces_of_end ne rest]

/-! ## Comparison -/

theorem mem_tails {i : Nat} :
    i ∈ tails value separator ↔ 1 ≤ i ∧ i + 1 < value.length ∧ value.drop i <+: separator := by
  simp only [tails, List.mem_filter, List.mem_range'_1, decide_eq_true_eq, ← and_assoc,
    and_congr_left_iff]
  omega

theorem length_lt_of_suffix (suffix : separator <:+ value) (noPrefix : ¬ separator <+: value) :
    separator.length < value.length := by
  refine Nat.lt_of_le_of_ne suffix.length_le fun same => ?_
  exact noPrefix (suffix.eq_of_length same ▸ List.prefix_rfl)

/-- A separator at the end is one of the suffixes. -/
theorem mem_tails_iff_ends (two : 2 ≤ separator.length) (less : separator.length < value.length) :
    value.length - separator.length ∈ tails value separator ↔ separator <:+ value := by
  have length := List.length_drop (i := value.length - separator.length) (l := value)
  rw [mem_tails]
  constructor
  · rintro ⟨-, -, found⟩
    rw [← found.eq_of_length_le (by omega)]
    exact List.drop_suffix _ _
  · intro suffix
    refine ⟨by omega, by omega, ?_⟩
    rw [← List.suffix_iff_eq_drop.1 suffix]

theorem part_flatten_length {start stop : Nat} (le : stop ≤ value.length) :
    (part value start stop).flatten.length = stop - start := by
  unfold part
  split
  · simp only [List.flatten_singleton, List.length_take, List.length_drop]
    omega
  · simp only [List.flatten_nil, List.length_nil]
    omega

/-- Of two equal parts, one is as long as the other. -/
theorem length_of_part_eq {list : List (BitVec 8)} {start stop start' stop' : Nat}
    (le : stop ≤ value.length) (le' : stop' ≤ list.length)
    (same : part value start stop = part list start' stop') : stop - start = stop' - start' := by
  rw [← part_flatten_length le, same, part_flatten_length le']

theorem part_to_end {start : Nat} (less : start < value.length) :
    part value start value.length = [value.drop start] := by
  rw [part, if_pos less, List.take_of_length_le]
  rw [List.length_drop]

/-- A string that does not begin with the first character of the separator. -/
theorem outcome_iff_of_head_ne (two : 2 ≤ separator.length) (pos : 0 < value.length)
    (free : Free value separator) (head : value.head? ≠ separator.head?) :
    outcome value separator (tails value separator) = some (between separator value) ↔
      Splits value separator := by
  have ne : separator ≠ [] := List.ne_nil_of_length_pos (by omega)
  have noPrefix : ¬ separator <+: value := by
    rintro ⟨rest, rfl⟩
    rw [List.head?_append_of_ne_nil _ ne] at head
    exact head rfl
  have value_ne : value ≠ [] := List.ne_nil_of_length_pos pos
  have start : firstPart value separator = 0 := if_neg head
  have splits : Splits value separator ↔
      (value.getLast? ≠ separator.head? ∧ tails value separator = []) ∨
        tails value separator = [value.length - separator.length] := by
    constructor
    · rintro ⟨-, nil | ⟨-, other⟩ | ⟨-, suffix⟩ | ⟨same, -⟩ | ⟨start, -⟩⟩
      · exact absurd nil value_ne
      · exact Or.inl other
      · exact Or.inr suffix
      · exact absurd (same ▸ rfl) head
      · exact absurd start noPrefix
    · rintro (other | suffix)
      · exact ⟨free, Or.inr (Or.inl ⟨head, other⟩)⟩
      · exact ⟨free, Or.inr (Or.inr (Or.inl ⟨head, suffix⟩))⟩
  rw [splits, between_of_not_leading ne free noPrefix]
  by_cases suffix : separator <:+ value
  · have less := length_lt_of_suffix suffix noPrefix
    have mem := (mem_tails_iff_ends two less).2 suffix
    rw [if_pos suffix]
    generalize tails value separator = found at mem ⊢
    rcases found with _ | ⟨i, _ | ⟨j, found⟩⟩
    · cases mem
    · obtain rfl := List.mem_singleton.1 mem
      rw [outcome, start]
      exact iff_of_true rfl (Or.inr rfl)
    · rw [outcome]
      exact iff_of_false nofun (by simp)
  · have inside (i : Nat) (mem : i ∈ tails value separator) : i ≠ value.length - separator.length := by
      rintro rfl
      have bounds := mem_tails.1 mem
      exact suffix ((mem_tails_iff_ends two (by omega)).1 mem)
    rw [if_neg suffix, part_to_end pos]
    have bound (i : Nat) (mem : i ∈ tails value separator) := (mem_tails.1 mem).2.1
    generalize tails value separator = found at inside bound ⊢
    rcases found with _ | ⟨i, _ | ⟨j, found⟩⟩
    · rw [outcome, start]
      by_cases last : value.getLast? = separator.head?
      · rw [if_pos last]
        exact iff_of_false (by simp) (by simp [last])
      · rw [if_neg last]
        exact iff_of_true rfl (Or.inl ⟨last, rfl⟩)
    · rw [outcome, start, ← part_to_end pos]
      have other := inside i List.mem_cons_self
      have less := bound i List.mem_cons_self
      refine iff_of_false (fun same => ?_) (by simp [other])
      have := length_of_part_eq (by omega) (Nat.le_refl _) (Option.some.inj same)
      omega
    · rw [outcome]
      exact iff_of_false nofun (by simp)

/-- The first character is dropped, and the string does not begin with the separator. -/
theorem outcome_ne_of_not_leading (two : 2 ≤ separator.length) (pos : 0 < value.length)
    (free : Free value separator) (head : value.head? = separator.head?)
    (noPrefix : ¬ separator <+: value) :
    outcome value separator (tails value separator) ≠ some (between separator value) := by
  have ne : separator ≠ [] := List.ne_nil_of_length_pos (by omega)
  have start : firstPart value separator = 1 := if_pos head
  have bound (i : Nat) (mem : i ∈ tails value separator) := (mem_tails.1 mem).2.1
  rw [between_of_not_leading ne free noPrefix]
  by_cases suffix : separator <:+ value
  · have less := length_lt_of_suffix suffix noPrefix
    have mem := (mem_tails_iff_ends two less).2 suffix
    rw [if_pos suffix]
    generalize tails value separator = found at mem bound
    rcases found with _ | ⟨i, _ | ⟨j, found⟩⟩
    · cases mem
    · obtain rfl := List.mem_singleton.1 mem
      rw [outcome, start]
      intro same
      have := length_of_part_eq (by omega) (by omega) (Option.some.inj same)
      omega
    · nofun
  · rw [if_neg suffix]
    generalize tails value separator = found at bound
    rcases found with _ | ⟨i, _ | ⟨j, found⟩⟩
    · rw [outcome, start, part_to_end pos]
      split
      · simp
      · intro same
        have := congrArg List.length (List.cons.inj (Option.some.inj same)).1
        simp only [List.length_drop] at this
        omega
    · have less := bound i List.mem_cons_self
      rw [outcome, start]
      intro same
      have := length_of_part_eq (by omega) (Nat.le_refl _) (Option.some.inj same)
      omega
    · nofun

/-- The string begins with the separator, whose first character only is dropped. -/
theorem outcome_iff_of_leading (two : 2 ≤ separator.length)
    (free : Free (separator ++ value) separator) :
    outcome (separator ++ value) separator (tails (separator ++ value) separator) =
      some (between separator (separator ++ value)) ↔ Splits (separator ++ value) separator := by
  have ne : separator ≠ [] := List.ne_nil_of_length_pos (by omega)
  have head : (separator ++ value).head? = separator.head? := List.head?_append_of_ne_nil _ ne
  have start : firstPart (separator ++ value) separator = 1 := if_pos head
  have length : (separator ++ value).length = separator.length + value.length := List.length_append
  have drop : (separator ++ value).drop separator.length = value := List.drop_left
  have splits : Splits (separator ++ value) separator ↔
      (value = [] ∧ separator.getLast? = separator.head? ∧ tails separator separator = []) ∨
        (tails (separator ++ value) separator = [value.length + 1] ∧
          ((separator ++ value).drop 1).take value.length = value) := by
    have stop : (separator ++ value).length - separator.length = value.length := by omega
    constructor
    · rintro ⟨-, nil | ⟨other, -⟩ | ⟨other, -⟩ | ⟨same, last, none⟩ | ⟨-, suffix, same⟩⟩
      · exact absurd (List.append_eq_nil_iff.1 nil).1 ne
      · exact absurd head other
      · exact absurd head other
      · obtain rfl := List.append_right_eq_self.1 same
        rw [List.append_nil] at last none
        exact Or.inl ⟨rfl, last, none⟩
      · rw [stop] at suffix
        rw [stop, drop] at same
        exact Or.inr ⟨suffix, same⟩
    · rintro (⟨rfl, last, none⟩ | ⟨suffix, same⟩)
      · refine ⟨free, Or.inr (Or.inr (Or.inr (Or.inl ?_)))⟩
        rw [List.append_nil]
        exact ⟨rfl, last, none⟩
      · refine ⟨free, Or.inr (Or.inr (Or.inr (Or.inr ⟨List.prefix_append _ _, ?_, ?_⟩)))⟩
        · rw [stop]
          exact suffix
        · rw [stop, drop]
          exact same
  rw [splits, between_of_leading ne free]
  have bound (i : Nat) (mem : i ∈ tails (separator ++ value) separator) := mem_tails.1 mem
  rcases Nat.eq_zero_or_pos value.length with empty | pos
  · obtain rfl := List.length_eq_zero_iff.1 empty
    have nothing (stop : Nat) (le : stop ≤ 0) : part ([] : List (BitVec 8)) 0 stop = [] :=
      if_neg (Nat.not_lt.2 le)
    rw [nothing _ (by split <;> simp)]
    rw [List.append_nil] at bound start ⊢
    generalize tails separator separator = found at bound ⊢
    rcases found with _ | ⟨i, _ | ⟨j, found⟩⟩
    · rw [outcome]
      by_cases last : separator.getLast? = separator.head?
      · rw [if_pos last]
        exact iff_of_true rfl (Or.inl ⟨rfl, last, rfl⟩)
      · rw [if_neg last]
        exact iff_of_false (by simp) (by simp [last])
    · have one := (bound i List.mem_cons_self).1
      rw [outcome, start, part]
      by_cases more : 1 < i
      · rw [if_pos more]
        exact iff_of_false (by simp) (by simp; omega)
      · obtain rfl : i = 1 := by omega
        rw [if_neg more]
        exact iff_of_true rfl (Or.inr ⟨rfl, rfl⟩)
    · rw [outcome]
      exact iff_of_false nofun (by simp)
  · have value_ne : value ≠ [] := List.ne_nil_of_length_pos pos
    have total : 0 < (separator ++ value).length := by omega
    have ends := @mem_tails_iff_ends (separator ++ value) _ two (by omega)
    rw [length, Nat.add_sub_cancel_left] at ends
    by_cases suffix : separator <:+ value
    · have mem := ends.2 (suffix.trans (List.suffix_append _ _))
      have le := suffix.length_le
      rw [if_pos suffix]
      generalize tails (separator ++ value) separator = found at mem bound ⊢
      rcases found with _ | ⟨i, _ | ⟨j, found⟩⟩
      · cases mem
      · obtain rfl := List.mem_singleton.1 mem
        rw [outcome, start]
        refine iff_of_false (fun same => ?_) (by simp [value_ne])
        have := length_of_part_eq (by omega) (by omega) (Option.some.inj same)
        omega
      · rw [outcome]
        exact iff_of_false nofun (by simp [value_ne])
    · rw [if_neg suffix, part_to_end pos, List.drop_zero]
      generalize tails (separator ++ value) separator = found at bound ⊢
      rcases found with _ | ⟨i, _ | ⟨j, found⟩⟩
      · rw [outcome, start]
        refine iff_of_false ?_ (by simp [value_ne])
        split
        · simp
        · intro same
          have := congrArg List.length (List.cons.inj (Option.some.inj same)).1
          simp only [List.length_drop, length] at this
          omega
      · have inside := bound i List.mem_cons_self
        rw [outcome, start]
        constructor
        · intro same
          have same := Option.some.inj same
          have long : i - 1 = value.length - 0 :=
            length_of_part_eq (by omega) (Nat.le_refl _) (same.trans (part_to_end pos).symm)
          obtain rfl : i = value.length + 1 := by omega
          rw [part, if_pos (by omega)] at same
          exact Or.inr ⟨rfl, (List.cons.inj same).1⟩
        · rintro (⟨nil, -⟩ | ⟨suffix, same⟩)
          · exact absurd nil value_ne
          · obtain rfl := (List.cons.inj suffix).1
            rw [part, if_pos (by omega), Nat.add_sub_cancel, same]
      · rw [outcome]
        exact iff_of_false nofun (by simp [value_ne])

end

end

/-- **Longer separators.** A string is split at a separator of two characters or more, without
reading past the separator, into what lies between its leftmost occurrences that do not overlap, if
and only if `Splits` holds. -/
theorem splitBy_eq_between_iff (value separator : List (BitVec 8)) (two : 2 ≤ separator.length) :
    splitBy value separator = some (between separator value) ↔ Splits value separator := by
  obtain ⟨first, rest, rfl⟩ := List.exists_cons_of_length_pos (Nat.lt_of_lt_of_le Nat.zero_lt_two two)
  have long : rest ≠ [] := by
    rintro rfl
    simp at two
  rcases Nat.eq_zero_or_pos value.length with empty | pos
  · obtain rfl := List.length_eq_zero_iff.1 empty
    refine iff_of_true rfl ⟨fun i _ less => ?_, Or.inl rfl⟩
    simp at less
  by_cases free : Free value (first :: rest)
  · rw [splitBy_eq long pos free]
    by_cases head : value.head? = (first :: rest).head?
    · by_cases start : first :: rest <+: value
      · obtain ⟨value, rfl⟩ := start
        exact outcome_iff_of_leading two free
      · refine iff_of_false (outcome_ne_of_not_leading two pos free head start) ?_
        rintro ⟨-, nil | ⟨other, -⟩ | ⟨other, -⟩ | ⟨same, -⟩ | ⟨here, -⟩⟩
        · rw [nil] at pos
          exact Nat.lt_irrefl 0 pos
        · exact other head
        · exact other head
        · exact start (same ▸ List.prefix_rfl)
        · exact start here
    · exact outcome_iff_of_head_ne two pos free head
  · refine iff_of_false (fun run => free fun i pos less => ?_) fun splits => free splits.free
    obtain ⟨s, rounds, -⟩ := Option.bind_eq_some_iff.1 run
    obtain ⟨m, size⟩ : ∃ m, value.length = m + 2 := ⟨value.length - 2, by omega⟩
    rw [size, List.range_succ, List.foldlM_append] at rounds
    obtain ⟨s', before, -⟩ := Option.bind_eq_some_iff.1 rounds
    exact free_of_rounds long (by omega) before i pos (by omega) less

/-- `qqab` ends with the separator `ab`. -/
theorem splitBy_eq_between_iff_end :
    splitBy [0x71, 0x71, 0x61, 0x62] [0x61, 0x62] =
      some (between [0x61, 0x62] [0x71, 0x71, 0x61, 0x62]) := by
  have free : Free [0x71, 0x71, 0x61, 0x62] [0x61, 0x62] := by
    intro i pos less
    obtain rfl : i = 1 := Nat.le_antisymm (Nat.le_of_lt_succ (Nat.lt_of_add_lt_add_right less)) pos
    decide
  refine (splitBy_eq_between_iff _ _ (Nat.le_refl _)).2 ⟨free, Or.inr (Or.inr (Or.inl ?_))⟩
  decide

/-- In `qabq` the separator `ab` is read past its end, and of `xab` the separator `abc` takes the
last two characters. -/
theorem splitBy_ne_between :
    splitBy [0x71, 0x61, 0x62, 0x71] [0x61, 0x62] ≠
      some (between [0x61, 0x62] [0x71, 0x61, 0x62, 0x71]) ∧
    splitBy [0x78, 0x61, 0x62] [0x61, 0x62, 0x63] ≠
      some (between [0x61, 0x62, 0x63] [0x78, 0x61, 0x62]) := by
  decide

end MatteOS.Utils.Strings
