import Mathlib.Logic.Function.Basic
import Mathlib.Tactic.Common

/-!
# A heap with a ledger

The ledger of a heap is what was allocated and freed, the last event first. An allocator picks a
place from the ledger, and none that is in use; it may give a freed place again. In a sound ledger
nothing is freed that is not in use, so that of two deletions of one place an allocation lies
between (`Sound`). Heaps whose cells are the places in use (`Heap.Tracks`) are kept by allocation
and deletion.
-/

namespace Ledger

inductive Event where
  | allocated (place : Nat)
  | freed (place : Nat)
deriving DecidableEq

/-- The place is allocated, and not freed since. -/
def Live : List Event → Nat → Prop
  | [], _ => False
  | .allocated q :: log, p => p = q ∨ Live log p
  | .freed q :: log, p => p ≠ q ∧ Live log p

/-- Places are allocated that are not in use, and freed that are. -/
def Sound : List Event → Prop
  | [] => True
  | .allocated p :: log => ¬Live log p ∧ Sound log
  | .freed p :: log => Live log p ∧ Sound log

/-- What `new` returns may depend on all that was allocated and freed before. -/
structure Allocator where
  place : List Event → Nat
  fresh : ∀ log, ¬Live log (place log)

/-- A bound of all places that were ever allocated. -/
def top : List Event → Nat
  | [] => 0
  | .allocated p :: log => max (p + 1) (top log)
  | .freed _ :: log => top log

theorem Live.lt_top {log : List Event} {p : Nat} (live : Live log p) : p < top log := by
  induction log with
  | nil => exact live.elim
  | cons event log ih =>
    cases event with
    | allocated q =>
      rcases live with rfl | live
      · exact Nat.lt_of_lt_of_le (Nat.lt_succ_self p) (Nat.le_max_left _ _)
      · exact Nat.lt_of_lt_of_le (ih live) (Nat.le_max_right _ _)
    | freed q => exact ih live.2

/-- The allocator that gives no place twice. -/
def Allocator.bump : Allocator where
  place := top
  fresh := fun _ live => Nat.lt_irrefl _ live.lt_top

/-- In a sound ledger a place was freed as often as it was allocated, or once less if it is in
use. -/
theorem Sound.count {log : List Event} (sound : Sound log) (p : Nat) :
    (Live log p → log.count (.allocated p) = log.count (.freed p) + 1) ∧
      (¬Live log p → log.count (.allocated p) = log.count (.freed p)) := by
  induction log with
  | nil => exact ⟨fun live => live.elim, fun _ => rfl⟩
  | cons event log ih =>
    cases event with
    | allocated q =>
      obtain ⟨used, unused⟩ := ih sound.2
      by_cases same : p = q
      · subst same
        simp [Live, unused sound.1]
      · simpa [Live, same, Ne.symm same] using ⟨used, unused⟩
    | freed q =>
      obtain ⟨used, unused⟩ := ih sound.2
      by_cases same : p = q
      · subst same
        simp [Live, used sound.1]
      · simpa [Live, same, Ne.symm same] using ⟨used, unused⟩

/-- The cells by place, and the ledger. -/
structure Heap (α : Type) where
  cells : Nat → Option α
  log : List Event

namespace Heap

variable {α : Type}

def empty : Heap α := { cells := fun _ => none, log := [] }

/-- `new` -/
def allocate (A : Allocator) (h : Heap α) (a : α) : Nat × Heap α :=
  let place := A.place h.log
  (place, { cells := Function.update h.cells place (some a), log := .allocated place :: h.log })

/-- `delete`, of a place that is in use. -/
def free (h : Heap α) (place : Nat) : Option (Heap α) :=
  match h.cells place with
  | none => none
  | some _ => some { cells := Function.update h.cells place none, log := .freed place :: h.log }

/-- Exactly the places in use have cells. -/
structure Tracks (h : Heap α) : Prop where
  sound : Sound h.log
  live : ∀ p, Live h.log p ↔ (h.cells p).isSome

theorem tracks_empty : (empty : Heap α).Tracks :=
  { sound := trivial, live := by simp [empty, Live] }

variable {h : Heap α}

theorem Tracks.fresh (tracks : h.Tracks) (A : Allocator) : h.cells (A.place h.log) = none := by
  have unused := A.fresh h.log
  rw [tracks.live, Bool.not_eq_true, Option.isSome_eq_false_iff, Option.isNone_iff_eq_none]
    at unused
  exact unused

/-- A cell that is set at the place of the last allocation, with others changed but none removed or
added. -/
theorem Tracks.allocated (tracks : h.Tracks) {place : Nat} (fresh : h.cells place = none)
    {cells : Nat → Option α}
    (same : ∀ p, (cells p).isSome ↔ p = place ∨ (h.cells p).isSome) :
    Tracks { cells, log := .allocated place :: h.log } where
  sound := ⟨by simp [tracks.live, fresh], tracks.sound⟩
  live := fun p => by simp only [Live, tracks.live, same]

/-- What is allocated is at a place that was not in use. -/
theorem Tracks.allocate (tracks : h.Tracks) (A : Allocator) (a : α) :
    ∃ place h', h.allocate A a = (place, h') ∧ h.cells place = none ∧
      h'.cells = Function.update h.cells place (some a) ∧ h'.Tracks := by
  refine ⟨A.place h.log, _, rfl, tracks.fresh A, rfl, tracks.allocated (tracks.fresh A) fun p => ?_⟩
  by_cases same : p = A.place h.log <;> simp [same]

theorem Tracks.setCells (tracks : h.Tracks) {cells : Nat → Option α}
    (same : ∀ p, (cells p).isSome ↔ (h.cells p).isSome) :
    Tracks { h with cells := cells } where
  sound := tracks.sound
  live := fun p => by rw [same, ← tracks.live]

/-- What is deleted was in use, and no other cell changes. -/
theorem Tracks.free (tracks : h.Tracks) {place : Nat} {a : α} (cell : h.cells place = some a) :
    ∃ h', h.free place = some h' ∧ h'.Tracks ∧ h'.cells place = none ∧
      ∀ p, p ≠ place → h'.cells p = h.cells p := by
  refine ⟨{ cells := Function.update h.cells place none, log := .freed place :: h.log },
    by simp [Heap.free, cell], ⟨⟨by simp [tracks.live, cell], tracks.sound⟩, fun p => ?_⟩,
    by simp, fun p ne => Function.update_of_ne ne _ _⟩
  by_cases same : p = place
  · simp [same, Live]
  · simp [same, Live, tracks.live]

end Heap

end Ledger
