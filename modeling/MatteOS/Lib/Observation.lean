import Mathlib.Tactic.Common

/-!
# Observations of a run

An observation that every step sets or leaves alone is, at the end of a run, what the last of the
steps that set it wrote (`Written.foldl`). A step that does not set it leaves it alone
(`Written.unchanged`).
-/

namespace Observation

variable {σ κ α : Type}

/-- The last of the values that `write` gives, or the first value. -/
def last (write : κ → Option α) (first : α) (steps : List κ) : α :=
  (steps.filterMap write).getLast?.getD first

@[simp] theorem last_nil (write : κ → Option α) (first : α) : last write first [] = first := rfl

@[simp] theorem last_cons (write : κ → Option α) (first : α) (k : κ) (steps : List κ) :
    last write first (k :: steps) = last write ((write k).getD first) steps := by
  cases written : write k with
  | none => simp [last, written]
  | some value => simp [last, written, List.getLast?_cons]

theorem last_of_none {write : κ → Option α} {steps : List κ} (none : ∀ k ∈ steps, write k = none)
    (first : α) : last write first steps = first := by
  rw [last, List.filterMap_eq_nil_iff.2 none]
  rfl

/-- Where all values are the same, the last one is it. -/
theorem last_of_some {write : κ → Option α} {steps : List κ} {c : α}
    (same : ∀ k ∈ steps, ∀ value, write k = some value → value = c)
    (written : ∃ k ∈ steps, (write k).isSome) (first : α) : last write first steps = c := by
  unfold last
  cases final : (steps.filterMap write).getLast? with
  | none =>
    rw [List.getLast?_eq_none_iff, List.filterMap_eq_nil_iff] at final
    obtain ⟨k, mem, some⟩ := written
    rw [final k mem] at some
    cases some
  | some value =>
    obtain ⟨k, mem, written⟩ := List.mem_filterMap.1 (List.mem_of_getLast? final)
    exact same k mem value written

/-- Each allowed step sets the observation to what `write` gives, if anything. -/
def Written (step : σ → κ → σ) (allowed : κ → Prop) (observe : σ → α) (write : κ → Option α) :
    Prop :=
  ∀ s k, allowed k → observe (step s k) = (write k).getD (observe s)

namespace Written

variable {step : σ → κ → σ} {allowed : κ → Prop} {observe : σ → α} {write : κ → Option α}

theorem unchanged (written : Written step allowed observe write) {s : σ} {k : κ} (valid : allowed k)
    (none : write k = .none) : observe (step s k) = observe s := by
  rw [written s k valid, none, Option.getD_none]

theorem foldl (written : Written step allowed observe write) {steps : List κ}
    (valid : ∀ k ∈ steps, allowed k) (s : σ) :
    observe (steps.foldl step s) = last write (observe s) steps := by
  induction steps generalizing s with
  | nil => rfl
  | cons k steps ih =>
    rw [List.foldl_cons, ih (fun k' mem => valid k' (List.mem_cons_of_mem k mem)), last_cons,
      written s k (valid k List.mem_cons_self)]

end Written

end Observation
