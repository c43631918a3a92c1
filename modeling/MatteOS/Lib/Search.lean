import Mathlib.Data.List.Perm.Basic

/-!
# Searches for a best candidate

A fold that replaces its candidate by each strictly better one ends with a best one
(`search_cases`). Which of several best ones that is depends on the order, and each is the one found
in some order (`forall_perm_search_iff`).
-/

namespace Search

variable {α β : Type} (value : α → β) (score : α → Nat)

/-- One round: a better candidate replaces the one so far. -/
def round (s : β × Nat) (a : α) : β × Nat :=
  if score a > s.2 then (value a, score a) else s

/-- The candidate that is found, with its score. -/
def search (s : β × Nat) (list : List α) : β × Nat := list.foldl (round value score) s

variable {value score} {s : β × Nat} {list : List α} {a : α}

theorem le_round (s : β × Nat) (a : α) :
    s.2 ≤ (round value score s a).2 ∧ score a ≤ (round value score s a).2 := by
  unfold round
  split
  · rename_i better
    exact ⟨Nat.le_of_lt better, Nat.le_refl _⟩
  · rename_i worse
    exact ⟨Nat.le_refl _, Nat.le_of_not_lt worse⟩

theorem le_search (s : β × Nat) (list : List α) : s.2 ≤ (search value score s list).2 := by
  induction list generalizing s with
  | nil => exact Nat.le_refl _
  | cons a list ih => exact Nat.le_trans (le_round s a).1 (ih _)

theorem score_le_search (mem : a ∈ list) : score a ≤ (search value score s list).2 := by
  induction list generalizing s with
  | nil => cases mem
  | cons b list ih =>
    rcases List.mem_cons.1 mem with rfl | mem
    · exact Nat.le_trans (le_round s a).2 (le_search _ list)
    · exact ih mem

/-- **What is found** is the first candidate or a better one of the list. -/
theorem search_cases (s : β × Nat) (list : List α) : search value score s list = s ∨
    ∃ a ∈ list, s.2 < score a ∧ search value score s list = (value a, score a) := by
  induction list generalizing s with
  | nil => exact Or.inl rfl
  | cons b list ih =>
    have step : search value score s (b :: list) = search value score (round value score s b) list :=
      rfl
    rw [step]
    rcases ih (round value score s b) with same | ⟨a, mem, better, found⟩
    · rw [same]
      by_cases better : score b > s.2
      · exact Or.inr ⟨b, List.mem_cons_self, better, if_pos better⟩
      · exact Or.inl (if_neg better)
    · exact Or.inr ⟨a, List.mem_cons_of_mem _ mem, Nat.lt_of_le_of_lt (le_round s b).1 better, found⟩

/-- Nothing replaces a best candidate. -/
theorem search_of_best (best : ∀ a ∈ list, score a ≤ s.2) : search value score s list = s := by
  induction list with
  | nil => rfl
  | cons b list ih =>
    have worse : round value score s b = s := if_neg (Nat.not_lt.2 (best b List.mem_cons_self))
    have step : search value score s (b :: list) = search value score (round value score s b) list :=
      rfl
    rw [step, worse]
    exact ih fun a mem => best a (List.mem_cons_of_mem _ mem)

/-- **Searches in any order.** What is found has a property in every order of the list if and only if
all candidates of the highest score have it. -/
theorem forall_perm_search_iff {P : β × Nat → Prop} {b : β} {n : Nat} :
    (∀ order : List α, order.Perm list → P (search value score (b, n) order)) ↔
      ∃ k, (∀ a ∈ list, score a ≤ k) ∧ (k = n → P (b, n)) ∧
        (k ≠ n → n < k ∧ (∃ a ∈ list, score a = k) ∧ ∀ a ∈ list, score a = k → P (value a, k)) := by
  constructor
  · intro all
    refine ⟨(search value score (b, n) list).2, fun a mem => score_le_search mem, ?_, ?_⟩
    · intro same
      have now := all list (List.Perm.refl _)
      rcases search_cases (b, n) list with found | ⟨a, -, better, found⟩
      · rwa [found] at now
      · rw [found] at same
        exact absurd same (Nat.ne_of_gt better)
    · intro other
      rcases @search_cases _ _ value score (b, n) list with found | ⟨a, mem, better, found⟩
      · rw [found] at other
        exact absurd rfl other
      · rw [found]
        refine ⟨better, ⟨a, mem, rfl⟩, fun a' mem' same => ?_⟩
        -- in the order that starts with it, this candidate is found
        obtain ⟨front, back, rfl⟩ := List.append_of_mem mem'
        have first := all (a' :: (front ++ back)) List.perm_middle.symm
        have step : search value score (b, n) (a' :: (front ++ back)) =
            search value score (value a', score a') (front ++ back) :=
          congrArg (search value score · (front ++ back)) (if_pos (same ▸ better))
        rw [step, search_of_best, same] at first
        · exact first
        · intro c inside
          have below : score c ≤ (search value score (b, n) (front ++ a' :: back)).2 :=
            score_le_search (List.mem_append.2 ((List.mem_append.1 inside).imp_right
              (List.mem_cons_of_mem _)))
          rw [found, ← same] at below
          exact below
  · rintro ⟨k, most, initial, found⟩ order perm
    have below : ∀ a ∈ order, score a ≤ k := fun a mem => most a (perm.mem_iff.1 mem)
    by_cases same : k = n
    · subst same
      rw [search_of_best below]
      exact initial rfl
    · obtain ⟨more, ⟨a, mem, top⟩, all⟩ := found same
      have above : k ≤ (search value score (b, n) order).2 :=
        top ▸ score_le_search (perm.mem_iff.2 mem)
      rcases @search_cases _ _ value score (b, n) order with same' | ⟨a', mem', -, same'⟩
      · rw [same'] at above
        exact absurd above (Nat.not_le.2 more)
      · rw [same'] at above ⊢
        have best : score a' = k := Nat.le_antisymm (below a' mem') above
        rw [best]
        exact all a' (perm.mem_iff.1 mem') best

end Search
