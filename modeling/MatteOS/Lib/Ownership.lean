import Mathlib.Data.Finset.Card
import Mathlib.Tactic.Common

/-!
# Pointers and what they own

Pointers refer to objects or to nothing. A pointer is in an object, its holder, or in none.
How many pointers refer to an object is counted over a finite set of pointers (`references`). An
object is owned by a pointer if there is no way to it but through that pointer (`Owned`).
-/

namespace Ownership

open Finset

variable {κ ν : Type} {S S' : Finset κ} {target target' : κ → Option ν} {l : κ} {v : ν}

section

variable [DecidableEq ν]

/-- How many of the pointers `S` refer to the object. -/
def references (S : Finset κ) (target : κ → Option ν) (v : ν) : Nat := #{l ∈ S | target l = some v}

theorem references_pos : 0 < references S target v ↔ ∃ l ∈ S, target l = some v := by
  rw [references, card_pos, filter_nonempty_iff]

theorem references_eq_zero : references S target v = 0 ↔ ∀ l ∈ S, target l ≠ some v := by
  rw [references, card_eq_zero, filter_eq_empty_iff]

theorem references_congr (same : ∀ l ∈ S, target l = target' l) :
    references S target v = references S target' v := by
  rw [references, references, filter_congr fun l mem => by rw [same l mem]]

theorem references_mono (sub : S ⊆ S') : references S target v ≤ references S' target v :=
  card_le_card (filter_subset_filter _ sub)

/-- One pointer less. -/
theorem references_erase [DecidableEq κ] (mem : l ∈ S) : references S target v =
    references (S.erase l) target v + if target l = some v then 1 else 0 := by
  rw [references, references, filter_erase]
  split_ifs with here
  · exact (card_erase_add_one (mem_filter.2 ⟨mem, here⟩)).symm
  · have other : l ∉ S.filter fun l => target l = some v := fun found => here (mem_filter.1 found).2
    rw [erase_eq_of_notMem other, Nat.add_zero]

end

/-! ## Ownership -/

/-- Every pointer to the object is `r`, or is in an object of which the same is true. -/
inductive Owned (S : Finset κ) (target holder : κ → Option ν) (r : κ) : ν → Prop where
  | intro (v : ν) (held : ∃ l ∈ S, target l = some v)
      (inside : ∀ l ∈ S, target l = some v → l ≠ r → (holder l).isSome)
      (owned : ∀ l ∈ S, target l = some v → l ≠ r → ∀ h, holder l = some h →
        Owned S target holder r h) : Owned S target holder r v

/-- The pointer is not in an object that `r` owns. -/
def Outside (S : Finset κ) (target holder : κ → Option ν) (r l : κ) : Prop :=
  ∀ h, holder l = some h → ¬Owned S target holder r h

variable {holder : κ → Option ν} {r : κ}

theorem Owned.held (owned : Owned S target holder r v) : ∃ l ∈ S, target l = some v := by
  cases owned with
  | intro _ held _ _ => exact held

theorem Owned.of_each (held : ∃ l ∈ S, target l = some v)
    (each : ∀ l ∈ S, target l = some v →
      l = r ∨ ∃ h, holder l = some h ∧ Owned S target holder r h) :
    Owned S target holder r v := by
  refine .intro v held (fun l mem refers ne => ?_) fun l mem refers ne h inside => ?_
  · obtain ⟨h, inside, -⟩ := (each l mem refers).resolve_left ne
    rw [inside]
    rfl
  · obtain ⟨h', inside', owned⟩ := (each l mem refers).resolve_left ne
    rw [inside] at inside'
    cases inside'
    exact owned

/-- What another pointer refers to that is outside is not owned. -/
theorem Outside.not_owned (outside : Outside S target holder r l) (mem : l ∈ S) (ne : l ≠ r)
    (refers : target l = some v) : ¬Owned S target holder r v := by
  intro owned
  cases owned with
  | intro _ _ inside owned =>
    obtain ⟨h, found⟩ := Option.isSome_iff_exists.1 (inside l mem refers ne)
    exact outside h found (owned l mem refers ne h found)

end Ownership
