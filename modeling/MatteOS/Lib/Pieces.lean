import Mathlib.Data.List.Basic

/-!
# Pieces between occurrences

A list is cut at the occurrences of another one, the leftmost first and those that do not overlap
an earlier one (`pieces`). Where nothing occurs a piece goes on (`pieces_append`), and an occurrence
ends it (`pieces_occurrence`).
-/

namespace Pieces

variable {α : Type} [DecidableEq α]

/-- The pieces of `list`, of which the first one starts with `piece`, after `skip` elements that
belong to an occurrence. -/
def pieces (word : List α) : Nat → List α → List α → List (List α)
  | _, piece, [] => [piece]
  | skip + 1, piece, _ :: list => pieces word skip piece list
  | 0, piece, a :: list =>
    if word <+: a :: list then piece :: pieces word (word.length - 1) [] list
    else pieces word 0 (piece ++ [a]) list

/-- The pieces that are not empty. -/
def between (word list : List α) : List (List α) :=
  (pieces word 0 [] list).filter fun piece => !piece.isEmpty

variable {word : List α}

theorem pieces_skip (skipped piece list : List α) :
    pieces word skipped.length piece (skipped ++ list) = pieces word 0 piece list := by
  induction skipped with
  | nil => rfl
  | cons a skipped ih => exact ih

/-- Where nothing occurs, a piece goes on. -/
theorem pieces_append {front list piece : List α}
    (none : ∀ i < front.length, ¬ word <+: (front ++ list).drop i) :
    pieces word 0 piece (front ++ list) = pieces word 0 (piece ++ front) list := by
  induction front generalizing piece with
  | nil => rw [List.nil_append, List.append_nil]
  | cons a front ih =>
    have first : ¬ word <+: a :: (front ++ list) := none 0 (Nat.succ_pos _)
    rw [List.cons_append, pieces, if_neg first, ih fun i less => none (i + 1) (Nat.succ_lt_succ less),
      List.append_assoc, List.singleton_append]

/-- An occurrence ends a piece. -/
theorem pieces_occurrence (ne : word ≠ []) (piece list : List α) :
    pieces word 0 piece (word ++ list) = piece :: pieces word 0 [] list := by
  obtain ⟨a, rest, rfl⟩ := List.exists_cons_of_ne_nil ne
  rw [List.cons_append, pieces, ← List.cons_append, if_pos (List.prefix_append _ _),
    List.length_cons, Nat.add_sub_cancel, pieces_skip]

/-- Nothing occurs at all. -/
theorem pieces_of_none {list piece : List α} (none : ∀ i < list.length, ¬ word <+: list.drop i) :
    pieces word 0 piece list = [piece ++ list] := by
  have whole : ∀ i < list.length, ¬ word <+: (list ++ []).drop i := by
    simpa using none
  simpa [pieces] using @pieces_append _ _ word list [] piece whole

end Pieces
