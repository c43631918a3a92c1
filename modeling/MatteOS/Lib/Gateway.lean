import Mathlib.Logic.Function.Basic
import Mathlib.Tactic.Common

/-!
# Signals behind gateways

Each source has a gateway that forwards one signal at a time: the signal is pending until a handler
claims it, and in service until the handler completes it. Signals of the source in between are not
forwarded. No operation but a forwarded signal and a completion changes how many signals of a
source are under way (`underway_signal`, `underway_claim`, `underway_complete`).
-/

namespace Gateway

/-- The sources with a pending signal and those in service. -/
structure Lines (ι : Type) where
  pending : ι → Bool
  inService : ι → Bool

namespace Lines

variable {ι : Type}

/-- Whether a signal of the source is forwarded now. -/
def forwards (l : Lines ι) (i : ι) : Bool := !l.pending i && !l.inService i

/-- The signals of a source that were forwarded and are not completed. -/
def underway (l : Lines ι) (i : ι) : Nat := (l.pending i).toNat + (l.inService i).toNat

variable [DecidableEq ι]

def signal (l : Lines ι) (i : ι) : Lines ι :=
  if l.forwards i then { l with pending := Function.update l.pending i true } else l

def claim (l : Lines ι) (i : ι) : Lines ι where
  pending := Function.update l.pending i false
  inService := Function.update l.inService i true

def complete (l : Lines ι) (i : ι) : Lines ι :=
  { l with inService := Function.update l.inService i false }

variable {l : Lines ι} {i j : ι}

@[simp] theorem signal_inService : (l.signal i).inService = l.inService := by
  unfold signal
  split <;> rfl

/-- A signal makes its own source pending, unless that is in service, and no other. -/
theorem signal_pending :
    (l.signal i).pending j = (l.pending j || (decide (j = i) && !l.inService j)) := by
  unfold signal forwards
  by_cases same : j = i
  · subst same
    cases waits : l.pending j <;> cases served : l.inService j <;> simp [waits]
  · split
    · simp [same]
    · simp [same]

theorem underway_signal (l : Lines ι) (i j : ι) :
    (l.signal i).underway j = l.underway j + if j = i ∧ l.forwards i then 1 else 0 := by
  rw [underway, underway, signal_inService, signal_pending, forwards]
  by_cases same : j = i
  · subst same
    cases l.pending j <;> cases l.inService j <;> simp
  · simp [same]

theorem underway_claim (waits : l.pending i = true) (free : l.inService i = false) (j : ι) :
    (l.claim i).underway j = l.underway j := by
  by_cases same : j = i
  · subst same
    simp [underway, claim, waits, free]
  · simp [underway, claim, Function.update_of_ne same]

theorem underway_complete (served : l.inService i = true) (j : ι) :
    (l.complete i).underway j + (if j = i then 1 else 0) = l.underway j := by
  by_cases same : j = i
  · subst same
    simp [underway, complete, served]
  · simp [underway, complete, same]

end Lines

end Gateway
