import MatteOS.Utils.Strings
import Mathlib.Data.List.GetD
import Mathlib.Data.List.Induction
import Mathlib.Data.List.TakeWhile

/-!
# Paths and their parts

`split` gives parts that are not empty and have no separator, and it gives the components of
a path that is written as components with a separator before each (`split_join`).
-/

namespace MatteOS.Utils.Strings

variable {separator : BitVec 8}

/-- A name that can stand between separators. -/
structure IsPart (separator : BitVec 8) (name : List (BitVec 8)) : Prop where
  ne_nil : name ≠ []
  no_separator : separator ∉ name

/-- The path with these components. -/
def join (separator : BitVec 8) (parts : List (List (BitVec 8))) : List (BitVec 8) :=
  parts.flatMap (separator :: ·)

@[simp] theorem join_nil : join separator [] = [] := rfl

theorem join_concat (parts : List (List (BitVec 8))) (name : List (BitVec 8)) :
    join separator (parts ++ [name]) = join separator parts ++ separator :: name := by
  simp [join]

/-! ## Rounds -/

section

variable {value : List (BitVec 8)}

theorem splitRound_other (s : SplitState) {i : Nat} (h : value.getD i 0 ≠ separator) :
    splitRound value separator s i = s := by
  simp only [splitRound, if_neg h]

/-- Rounds over a stretch without separators change nothing. -/
theorem foldl_splitRound_other (s : SplitState) {start count : Nat}
    (h : ∀ i, start ≤ i → i < start + count → value.getD i 0 ≠ separator) :
    (List.range' start count).foldl (splitRound value separator) s = s := by
  induction count generalizing start with
  | zero => rfl
  | succ count ih =>
    rw [List.range'_succ, List.foldl_cons, splitRound_other s (h start (Nat.le_refl _) (by omega))]
    exact ih fun i le lt => h i (by omega) (by omega)

/-- The rounds over a separator and a component behind `front`. -/
theorem foldl_splitRound_part {front name rest : List (BitVec 8)} (s : SplitState)
    (valid : IsPart separator name) (path : value = front ++ separator :: name ++ rest) :
    (List.range' front.length (name.length + 1)).foldl (splitRound value separator) s =
      splitRound value separator s front.length := by
  rw [List.range'_succ, List.foldl_cons]
  apply foldl_splitRound_other
  intro i le lt here
  obtain ⟨k, rfl⟩ : ∃ k, i = front.length + 1 + k := ⟨i - front.length - 1, by omega⟩
  have small : k < name.length := by omega
  have char : value.getD (front.length + 1 + k) 0 = name[k] := by
    rw [path, List.append_assoc, List.getD_append_right _ _ _ _ (by omega)]
    have index : front.length + 1 + k - front.length = k + 1 := by omega
    rw [index, List.cons_append, List.getD_cons_succ, List.getD_append _ _ _ _ small,
      List.getD_eq_getElem _ _ small]
  rw [char] at here
  exact valid.no_separator (here ▸ List.getElem_mem small)

/-- The rounds over a path up to the end of a component: the components before it have been found,
and `last_index` is its start. -/
theorem foldl_splitRound_join {parts : List (List (BitVec 8))} {name rest : List (BitVec 8)}
    (valid : ∀ part ∈ parts ++ [name], IsPart separator part)
    (path : value = join separator (parts ++ [name]) ++ rest) :
    (List.range' 0 (join separator (parts ++ [name])).length).foldl (splitRound value separator)
      ([], 0) = (parts, (join separator parts).length + 1) := by
  induction parts using List.reverseRecOn generalizing name rest with
  | nil =>
    have last : IsPart separator name := valid name (by simp)
    rw [join_concat] at path ⊢
    have here : value.getD 0 0 = separator := by simp [path]
    have length : (join separator [] ++ separator :: name).length = name.length + 1 := by simp
    have rounds := foldl_splitRound_part ([], 0) last path
    simp only [join_nil, List.length_nil] at rounds ⊢
    rw [List.nil_append, List.length_cons, rounds]
    simp only [splitRound, here, if_true, true_or]
  | append_singleton parts part ih =>
    have last : IsPart separator name := valid name (by simp)
    have before := @ih part (separator :: name ++ rest)
      (fun x mem => valid x (List.mem_append_left _ mem)) (by rw [path, join_concat]; simp)
    rw [join_concat _ name] at path ⊢
    have here : value.getD (join separator (parts ++ [part])).length 0 = separator := by
      rw [path, List.append_assoc, List.getD_append_right _ _ _ _ (Nat.le_refl _)]
      simp
    have more : (join separator (parts ++ [part])).length ≠ value.length - 1 := by
      have := List.length_pos_iff.2 last.ne_nil
      rw [path]
      simp only [List.length_append, List.length_cons]
      omega
    have long : (join separator (parts ++ [part])).length =
        (join separator parts).length + 1 + part.length := by
      rw [join_concat]
      simp
      omega
    have part_pos := List.length_pos_iff.2 (valid part (by simp)).ne_nil
    -- the part that ends here is what lies between the separators
    have slice : (value.drop ((join separator parts).length + 1)).take part.length = part := by
      have cut : value =
          (join separator parts ++ [separator]) ++ (part ++ (separator :: name ++ rest)) := by
        rw [path, join_concat]
        simp
      rw [cut, List.drop_left' (by simp), List.take_left]
    rw [List.length_append, List.length_cons, ← List.range'_append_1, List.foldl_append, Nat.zero_add,
      before, foldl_splitRound_part _ last path]
    simp only [splitRound, here, if_true]
    rw [if_neg (by omega), if_pos (by omega)]
    have size : (join separator (parts ++ [part])).length - ((join separator parts).length + 1) =
        part.length := by omega
    rw [size, slice]

end

/-- **The components of a path.** -/
theorem split_join {parts : List (List (BitVec 8))} (valid : ∀ part ∈ parts, IsPart separator part) :
    split (join separator parts) separator = parts := by
  induction parts using List.reverseRecOn with
  | nil => rfl
  | append_singleton parts name _ =>
    have rounds := @foldl_splitRound_join _ _ _ _ [] valid (List.append_nil _).symm
    have last := List.length_pos_iff.2 (valid name (by simp)).ne_nil
    have size : (join separator (parts ++ [name])).length -
        ((join separator parts).length + 1) = name.length := by
      rw [join_concat]
      simp
      omega
    simp only [split, List.range_eq_range', rounds]
    have cut : join separator (parts ++ [name]) = (join separator parts ++ [separator]) ++ name := by
      rw [join_concat]
      simp
    rw [if_pos (by omega), size, cut, List.drop_left' (by simp), List.take_length]

/-! ## What `split` finds -/

/-- What the rounds before `i` have found, and that no separator lies between `last_index` and
`i`. -/
structure SplitInv (separator : BitVec 8) (value : List (BitVec 8)) (i : Nat) (s : SplitState) :
    Prop where
  parts : ∀ name ∈ s.1, IsPart separator name
  lastIndex : s.2 ≤ i
  none : ∀ j, s.2 ≤ j → j < i → value.getD j 0 ≠ separator

/-- A stretch without separators is a part. -/
theorem isPart_slice {value : List (BitVec 8)} {start stop : Nat} (lt : start < stop)
    (le : stop ≤ value.length)
    (none : ∀ j, start ≤ j → j < stop → value.getD j 0 ≠ separator) :
    IsPart separator ((value.drop start).take (stop - start)) where
  ne_nil h := by
    have := congrArg List.length h
    simp only [List.length_take, List.length_drop, List.length_nil] at this
    omega
  no_separator mem := by
    obtain ⟨k, hk, here⟩ := List.mem_iff_getElem.1 mem
    have small := hk
    simp only [List.length_take, List.length_drop] at small
    rw [List.getElem_take, List.getElem_drop] at here
    apply none (start + k) (by omega) (by omega)
    rw [List.getD_eq_getElem _ _ (by omega), here]

theorem SplitInv.round {value : List (BitVec 8)} {i : Nat} {s : SplitState}
    (inv : SplitInv separator value i s) (lt : i < value.length) :
    SplitInv separator value (i + 1) (splitRound value separator s i) := by
  obtain ⟨result, lastIndex⟩ := s
  have parts := inv.parts
  have le := inv.lastIndex
  have none := inv.none
  simp only at parts le none
  by_cases here : value.getD i 0 = separator
  · have after : ∀ j, i + 1 ≤ j → j < i + 1 → value.getD j 0 ≠ separator := fun j _ _ => by omega
    simp only [splitRound, here, if_true]
    split
    · exact ⟨parts, Nat.le_refl _, after⟩
    split
    · refine ⟨fun name mem => ?_, Nat.le_refl _, after⟩
      rcases List.mem_append.1 mem with mem | mem
      · exact parts name mem
      · rw [List.mem_singleton.1 mem]
        exact isPart_slice (by omega) (by omega) none
    · exact ⟨parts, Nat.le_refl _, after⟩
  · rw [splitRound_other _ here]
    refine ⟨parts, Nat.le_succ_of_le le, fun j above below => ?_⟩
    by_cases last : j = i
    · rw [last]
      exact here
    · exact none j above (by omega)

theorem splitInv_foldl {value : List (BitVec 8)} {n : Nat} (le : n ≤ value.length) :
    SplitInv separator value n ((List.range n).foldl (splitRound value separator) ([], 0)) := by
  induction n with
  | zero => exact ⟨fun _ mem => absurd mem List.not_mem_nil, Nat.le_refl _, fun j _ _ => by omega⟩
  | succ n ih =>
    rw [List.range_succ, List.foldl_append]
    exact (ih (by omega)).round (by omega)

/-- **Parts are parts.** -/
theorem isPart_of_mem_split {value name : List (BitVec 8)} (mem : name ∈ split value separator) :
    IsPart separator name := by
  have inv := @splitInv_foldl separator value _ (Nat.le_refl _)
  simp only [split] at mem
  split at mem
  · rename_i more
    rcases List.mem_append.1 mem with mem | mem
    · exact inv.parts name mem
    · rw [List.mem_singleton.1 mem]
      exact isPart_slice more.1 (Nat.le_refl _) inv.none
  · exact inv.parts name mem

/-! ## Strings that are equal -/

section

variable {value other : List (BitVec 8)}

theorem equals_iff : equals value other = true ↔ value = other.takeWhile (· != 0) := by
  simp [equals]

/-- Strings without NUL are compared whole. -/
theorem equals_iff_of_noNul (noNul : 0 ∉ other) : equals value other = true ↔ value = other := by
  have all : other.takeWhile (· != 0) = other := by
    rw [List.takeWhile_eq_self_iff]
    intro c mem
    simpa using ne_of_mem_of_not_mem mem noNul
  rw [equals_iff, all]

theorem equals_self (noNul : 0 ∉ value) : equals value value = true := by
  rw [equals_iff_of_noNul noNul]

theorem noNul_of_equals (same : equals value other = true) : 0 ∉ value := fun mem => by
  rw [equals_iff.1 same] at mem
  simpa using List.mem_takeWhile_imp mem

end

end MatteOS.Utils.Strings
