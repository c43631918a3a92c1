import Mathlib.Tactic.Common

/-!
# Runs of a transition system

A system is a step relation labelled with actions, or a function where a step has one
outcome (`Along`). A run is a list of actions that
leads from one state to another. Whatever every step preserves, every run preserves
(`Run.invariant`).
-/

namespace Transition

/-- The actions `as` lead from one state to another. -/
inductive Run {σ α : Type} (step : σ → α → σ → Prop) : σ → List α → σ → Prop where
  | nil (s : σ) : Run step s [] s
  | cons {s s' s'' : σ} {a : α} {as : List α} (head : step s a s') (tail : Run step s' as s'') :
      Run step s (a :: as) s''

namespace Run

variable {σ α : Type} {step : σ → α → σ → Prop}

/-- What holds at the start and is kept by each step holds at the end. -/
theorem invariant {I : σ → Prop} (kept : ∀ s a s', I s → step s a s' → I s') {s s' : σ}
    {as : List α} (run : Run step s as s') (init : I s) : I s' := by
  induction run with
  | nil s => exact init
  | cons head tail ih => exact ih (kept _ _ _ init head)

theorem mono {step' : σ → α → σ → Prop} (sub : ∀ s a s', step s a s' → step' s a s') {s s' : σ}
    {as : List α} (run : Run step s as s') : Run step' s as s' := by
  induction run with
  | nil s => exact .nil s
  | cons head tail ih => exact .cons (sub _ _ _ head) ih

theorem append {s s' s'' : σ} {as bs : List α} (run : Run step s as s')
    (run' : Run step s' bs s'') : Run step s (as ++ bs) s'' := by
  induction run with
  | nil s => exact run'
  | cons head tail ih => exact .cons head (ih run')

/-- A run that a partial step function computes. -/
theorem of_foldlM {next : σ → α → Option σ} (sound : ∀ s a s', next s a = some s' → step s a s')
    {s s' : σ} {as : List α} (h : as.foldlM next s = some s') : Run step s as s' := by
  induction as generalizing s with
  | nil =>
    obtain rfl := Option.some.inj h
    exact .nil s
  | cons a as ih =>
    rw [List.foldlM_cons] at h
    obtain ⟨m, head, tail⟩ := Option.bind_eq_some_iff.1 h
    exact .cons (sound s a m head) (ih tail)

/-- A run can be cut at any of its actions. -/
theorem split {s s' : σ} {as bs : List α} (run : Run step s (as ++ bs) s') :
    ∃ m, Run step s as m ∧ Run step m bs s' := by
  induction as generalizing s with
  | nil => exact ⟨s, .nil s, run⟩
  | cons a as ih =>
    cases run with
    | cons head tail =>
      obtain ⟨m, left, right⟩ := ih tail
      exact ⟨m, .cons head left, right⟩

/-- **Up to the first violation.** Two properties of steps that agree wherever the invariant `J`
holds are the properties of all steps of the same runs, if each step that has the property keeps
the invariant. -/
theorem iff_of_invariant {P Q : σ → α → σ → Prop} {J : σ → Prop}
    (same : ∀ s a s', J s → step s a s' → (P s a s' ↔ Q s a s'))
    (kept : ∀ s a s', J s → step s a s' → P s a s' → J s') {s s' : σ} {as : List α} (init : J s) :
    Run (fun s a s' => step s a s' ∧ P s a s') s as s' ↔
      Run (fun s a s' => step s a s' ∧ Q s a s') s as s' := by
  constructor
  · intro run
    induction run with
    | nil s => exact .nil s
    | cons head tail ih =>
      have now := (same _ _ _ init head.1).1 head.2
      exact .cons ⟨head.1, now⟩ (ih (kept _ _ _ init head.1 head.2))
  · intro run
    induction run with
    | nil s => exact .nil s
    | cons head tail ih =>
      have now := (same _ _ _ init head.1).2 head.2
      exact .cons ⟨head.1, now⟩ (ih (kept _ _ _ init head.1 now))

end Run

/-! ## Deterministic systems -/

section Along

variable {σ α : Type} (step : σ → α → σ)

/-- `P` holds at every step of the run of `as` from `s`. -/
def Along (P : σ → α → Prop) : σ → List α → Prop
  | _, [] => True
  | s, a :: as => P s a ∧ Along P (step s a) as

instance Along.decidable (P : σ → α → Prop) [∀ s a, Decidable (P s a)] :
    ∀ s as, Decidable (Along step P s as)
  | _, [] => isTrue trivial
  | s, a :: as => @instDecidableAnd _ _ _ (Along.decidable P (step s a) as)

variable {step} {P Q G : σ → α → Prop}

/-- **Up to the first violation.** Two properties of steps that agree wherever the invariant `J`
holds agree along a run, if each step that has the property keeps the invariant: before the first
violation the invariant holds. -/
theorem Along.iff {J : σ → Prop} (same : ∀ s a, J s → G s a → (P s a ↔ Q s a))
    (kept : ∀ s a, J s → G s a → P s a → J (step s a)) {s : σ} {as : List α} (init : J s)
    (guard : Along step G s as) : Along step P s as ↔ Along step Q s as := by
  induction as generalizing s with
  | nil => exact Iff.rfl
  | cons a as ih =>
    obtain ⟨now, later⟩ := guard
    have agree := same s a init now
    constructor
    · rintro ⟨p, rest⟩
      exact ⟨agree.1 p, (ih (kept s a init now p) later).1 rest⟩
    · rintro ⟨q, rest⟩
      have p := agree.2 q
      exact ⟨p, (ih (kept s a init now p) later).2 rest⟩

theorem Along.imp (imp : ∀ s a, P s a → Q s a) {s : σ} {as : List α} (along : Along step P s as) :
    Along step Q s as := by
  induction as generalizing s with
  | nil => trivial
  | cons a as ih => exact ⟨imp s a along.1, ih along.2⟩

theorem Along.of_forall_mem {as : List α} (all : ∀ a ∈ as, ∀ s, P s a) (s : σ) :
    Along step P s as := by
  induction as generalizing s with
  | nil => trivial
  | cons a as ih =>
    exact ⟨all a List.mem_cons_self s,
      ih (fun a' mem => all a' (List.mem_cons_of_mem a mem)) (step s a)⟩

theorem Along.of_forall (all : ∀ s a, P s a) (s : σ) (as : List α) : Along step P s as :=
  Along.of_forall_mem (fun a _ s => all s a) s

/-- Where the invariant `J` holds, a step with the properties `G` and `Q` has the property `P` and
keeps the invariant: so runs along which `G` and `Q` hold have it all along. -/
theorem Along.of_invariant {J : σ → Prop}
    (each : ∀ s a, J s → G s a → Q s a → P s a ∧ J (step s a)) {s : σ} {as : List α} (init : J s)
    (guard : Along step G s as) (along : Along step Q s as) : Along step P s as := by
  induction as generalizing s with
  | nil => trivial
  | cons a as ih =>
    obtain ⟨now, kept⟩ := each s a init guard.1 along.1
    exact ⟨now, ih kept guard.2 along.2⟩

/-- An invariant of the steps with a property holds at the end of a run along which it holds. -/
theorem Along.invariant {J : σ → Prop} (kept : ∀ s a, J s → P s a → J (step s a)) {s : σ}
    {as : List α} (init : J s) (along : Along step P s as) : J (as.foldl step s) := by
  induction as generalizing s with
  | nil => exact init
  | cons a as ih => exact ih (kept s a init along.1) along.2

end Along

end Transition
