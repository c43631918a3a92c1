import Mathlib.Logic.Function.Basic
import Mathlib.Data.List.Basic
import Mathlib.Tactic.Common

/-!
# A ring remembers the end of a stream

Item `i` of a stream is written to slot `i % n`. The ring then holds the last `n`
items (`Remembers`), whoever reads it and at whatever pace.
-/

namespace Ring

variable {α : Type}

/-- The `n` slots hold the last `n` of the items. -/
def Remembers (n : Nat) (slot : Nat → α) (items : List α) : Prop :=
  ∀ i, i < items.length → items.length ≤ i + n → items[i]? = some (slot (i % n))

theorem remembers_nil (n : Nat) (slot : Nat → α) : Remembers n slot [] := fun _ h => by simp at h

/-- Writing the next item to its slot forgets one item at most. -/
theorem Remembers.push {n : Nat} {slot : Nat → α} {items : List α} (h : Remembers n slot items)
    (x : α) : Remembers n (Function.update slot (items.length % n) x) (items ++ [x]) := by
  intro i hi near
  simp only [List.length_append, List.length_singleton] at hi near
  by_cases e : i = items.length
  · subst e
    simp
  · -- an item that stays is less than `n` away from the new one, so its slot is another one
    have other : i % n ≠ items.length % n := by
      intro same
      have dvd : n ∣ items.length - i :=
        Nat.dvd_of_mod_eq_zero (Nat.sub_mod_eq_zero_of_mod_eq same.symm)
      have := Nat.le_of_dvd (by omega) dvd
      omega
    rw [List.getElem?_append_left (by omega), Function.update_of_ne other]
    exact h i (by omega) (by omega)

end Ring
