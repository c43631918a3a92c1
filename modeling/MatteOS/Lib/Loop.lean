import Mathlib.Data.Nat.Init
import Mathlib.Tactic.Common

/-!
# Loops

A loop without a bound is a body that either goes around again or leaves with a result. It runs on
fuel; a result does not depend on how much fuel there was (`run_mono`). A loop with
an invariant and a decreasing measure leaves (`run_of_variant`); one whose body
always goes around again runs forever (`diverges_of_invariant`). A body that may leave early leads
to the result it would have had or to that of its leaving (`run_of_abort`). A loop over a range has a
counter, and goes through if every round does that finds the invariant (`forRange_of_invariant`).
-/

namespace Loop

/-- What one execution of a body leads to. -/
inductive Next (σ τ : Type) where
  | again (state : σ)
  | done (result : τ)

variable {σ τ : Type} {body : σ → Next σ τ}

/-- Run the body at most `fuel` times. -/
def run (body : σ → Next σ τ) : Nat → σ → Option τ
  | 0, _ => none
  | fuel + 1, s =>
    match body s with
    | .again s' => run body fuel s'
    | .done t => some t

/-- No amount of fuel suffices. -/
def Diverges (body : σ → Next σ τ) (s : σ) : Prop := ∀ fuel, run body fuel s = none

theorem run_again {s s' : σ} (h : body s = .again s') (fuel : Nat) :
    run body (fuel + 1) s = run body fuel s' := by
  simp [run, h]

theorem run_done {s : σ} {t : τ} (h : body s = .done t) (fuel : Nat) :
    run body (fuel + 1) s = some t := by
  simp [run, h]

/-- More fuel does not change a result. -/
theorem run_mono {fuel fuel' : Nat} {s : σ} {t : τ} (h : run body fuel s = some t)
    (le : fuel ≤ fuel') : run body fuel' s = some t := by
  induction fuel generalizing s fuel' with
  | zero => simp [run] at h
  | succ fuel ih =>
    obtain ⟨k, rfl⟩ : ∃ k, fuel' = k + 1 := ⟨fuel' - 1, by omega⟩
    cases next : body s with
    | again s' =>
      rw [run_again next] at h ⊢
      exact ih h (by omega)
    | done t' =>
      rw [run_done next] at h ⊢
      exact h

/-- A loop has one result, with whatever fuel it is reached. -/
theorem run_unique {fuel fuel' : Nat} {s : σ} {t t' : τ} (h : run body fuel s = some t)
    (h' : run body fuel' s = some t') : t = t' := by
  have left := run_mono h (Nat.le_max_left fuel fuel')
  have right := run_mono h' (Nat.le_max_right fuel fuel')
  exact Option.some.inj (left.symm.trans right)

/-- **Total correctness.** An invariant and a measure that decreases around the loop lead to a
result that satisfies what the invariant gives on leaving. -/
theorem run_of_variant {I : σ → Prop} {Q : τ → Prop} (measure : σ → Nat)
    (again : ∀ s s', I s → body s = .again s' → I s' ∧ measure s' < measure s)
    (done : ∀ s t, I s → body s = .done t → Q t) {s : σ} (init : I s) {fuel : Nat}
    (enough : measure s < fuel) : ∃ t, run body fuel s = some t ∧ Q t := by
  induction fuel generalizing s with
  | zero => omega
  | succ fuel ih =>
    cases next : body s with
    | again s' =>
      obtain ⟨init', less⟩ := again s s' init next
      rw [run_again next]
      exact ih init' (by omega)
    | done t => exact ⟨t, run_done next fuel, done s t init next⟩

/-- The loop gets from one state to another by going around again. -/
inductive Reaches (body : σ → Next σ τ) : σ → σ → Prop where
  | refl (s : σ) : Reaches body s s
  | again {s s' t : σ} (head : body s = .again s') (tail : Reaches body s' t) : Reaches body s t

/-- What going around again keeps holds in every state that is reached. -/
theorem Reaches.invariant {I : σ → Prop} (kept : ∀ s s', I s → body s = .again s' → I s')
    {s t : σ} (reaches : Reaches body s t) (init : I s) : I t := by
  induction reaches with
  | refl s => exact init
  | again head tail ih => exact ih (kept _ _ init head)

/-- A result is that of the body in some state that is reached. -/
theorem exists_done_of_run {fuel : Nat} {s : σ} {t : τ} (h : run body fuel s = some t) :
    ∃ s', Reaches body s s' ∧ body s' = .done t := by
  induction fuel generalizing s with
  | zero => simp [run] at h
  | succ fuel ih =>
    cases next : body s with
    | again s' =>
      rw [run_again next] at h
      obtain ⟨s'', reaches, done⟩ := ih h
      exact ⟨s'', .again next reaches, done⟩
    | done t' =>
      rw [run_done next] at h
      obtain rfl := Option.some.inj h
      exact ⟨s, .refl s, next⟩

theorem diverges_of_invariant {I : σ → Prop} (again : ∀ s, I s → ∃ s', body s = .again s' ∧ I s')
    {s : σ} (init : I s) : Diverges body s := by
  intro fuel
  induction fuel generalizing s with
  | zero => rfl
  | succ fuel ih =>
    obtain ⟨s', next, init'⟩ := again s init
    rw [run_again next]
    exact ih init'

/-- **A loop that may be left early.** A body that does what another does, or else leaves with a
result that satisfies `P`, leads to the result of the other or to such a one. -/
theorem run_of_abort {body' : σ → Next σ τ} {I : σ → Prop} {P : τ → Prop}
    (each : ∀ s, I s → body' s = body s ∨ ∃ t, body' s = .done t ∧ P t)
    (kept : ∀ s s', I s → body s = .again s' → I s') {fuel : Nat} {s : σ} {t : τ} (init : I s)
    (h : run body fuel s = some t) : ∃ t', run body' fuel s = some t' ∧ (t' = t ∨ P t') := by
  induction fuel generalizing s with
  | zero => simp [run] at h
  | succ fuel ih =>
    rcases each s init with same | ⟨t', left, p⟩
    · cases next : body s with
      | again s' =>
        rw [run_again next] at h
        rw [run_again (same.trans next)]
        exact ih (kept s s' init next) h
      | done t' =>
        rw [run_done next] at h
        exact ⟨t, by rw [run_done (same.trans next), h], .inl rfl⟩
    · exact ⟨t', run_done left fuel, .inr p⟩

/-! ## Counted loops -/

section

variable {ε : Type}

/-- `n` rounds of a body that can fail, with a counter from `i` on. -/
def forRange (body : Nat → σ → Except ε σ) : Nat → Nat → σ → Except ε σ
  | 0, _, s => .ok s
  | n + 1, i, s => (body i s).bind (forRange body n (i + 1))

theorem forRange_of_invariant (body : Nat → σ → Except ε σ) (I : Nat → σ → Prop) {n i : Nat}
    (round : ∀ j s, i ≤ j → j < i + n → I j s → ∃ s', body j s = .ok s' ∧ I (j + 1) s') {s : σ}
    (init : I i s) : ∃ s', forRange body n i s = .ok s' ∧ I (i + n) s' := by
  induction n generalizing i s with
  | zero => exact ⟨s, rfl, init⟩
  | succ n ih =>
    obtain ⟨s', first, init'⟩ := round i s (Nat.le_refl i) (by omega) init
    obtain ⟨s'', rest, last⟩ :=
      ih (fun j s le lt => round j s (by omega) (by omega)) init'
    refine ⟨s'', ?_, ?_⟩
    · rw [forRange, first]
      exact rest
    · rwa [show i + (n + 1) = i + 1 + n by omega]

/-- What no round changes, a counted loop does not change. -/
theorem forRange_keeps {τ : Type} (f : σ → τ) {body : Nat → σ → Except ε σ}
    (kept : ∀ i s s', body i s = .ok s' → f s' = f s) {n i : Nat} {s s' : σ}
    (run : forRange body n i s = .ok s') : f s' = f s := by
  induction n generalizing i s with
  | zero =>
    cases run
    rfl
  | succ n ih =>
    rw [forRange] at run
    cases first : body i s with
    | error e =>
      rw [first] at run
      cases run
    | ok s₁ =>
      rw [first] at run
      rw [ih run, kept i s s₁ first]

/-- What a counted loop fails with is what one of its rounds fails with. -/
theorem forRange_error {body : Nat → σ → Except ε σ} {n i : Nat} {s : σ} {e : ε}
    (failed : forRange body n i s = .error e) :
    ∃ j s', i ≤ j ∧ j < i + n ∧ body j s' = .error e := by
  induction n generalizing i s with
  | zero => cases failed
  | succ n ih =>
    cases first : body i s with
    | error e' =>
      rw [forRange, first] at failed
      cases failed
      exact ⟨i, s, Nat.le_refl i, by omega, first⟩
    | ok s' =>
      rw [forRange, first] at failed
      obtain ⟨j, s'', le, lt, round⟩ := ih failed
      exact ⟨j, s'', by omega, by omega, round⟩

end

end Loop
