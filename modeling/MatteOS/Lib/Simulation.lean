import MatteOS.Lib.Transition

/-!
# Simulation of runs

A system simulates another through a view of its states when each of its steps is, on the
views, one step of the other system or no step at all. Its runs are then runs of the other
system (`Simulation.run`).
-/

namespace Transition

variable {σ τ υ α β γ : Type}

/-- The steps from states with the invariant `I` are steps of `step'` on the views, where they have
a label, and leave the view as it is where they have none. -/
structure Simulation (step : σ → α → σ → Prop) (I : σ → Prop) (view : σ → τ) (label : α → Option β)
    (step' : τ → β → τ → Prop) : Prop where
  kept : ∀ {s a s'}, I s → step s a s' → I s'
  visible : ∀ {s a s' b}, I s → step s a s' → label a = some b → step' (view s) b (view s')
  silent : ∀ {s a s'}, I s → step s a s' → label a = none → view s' = view s

namespace Simulation

variable {step : σ → α → σ → Prop} {I : σ → Prop} {view : σ → τ} {label : α → Option β}
  {step' : τ → β → τ → Prop}

/-- **Runs map to runs**, and keep the invariant. -/
theorem run (sim : Simulation step I view label step') {s s' : σ} {as : List α} (init : I s)
    (run : Run step s as s') : I s' ∧ Run step' (view s) (as.filterMap label) (view s') := by
  induction run with
  | nil s => exact ⟨init, .nil _⟩
  | @cons s m s'' a as head tail ih =>
    obtain ⟨inv, rest⟩ := ih (sim.kept init head)
    refine ⟨inv, ?_⟩
    cases h : label a with
    | none =>
      rw [List.filterMap_cons_none h, ← sim.silent init head h]
      exact rest
    | some b =>
      rw [List.filterMap_cons_some h]
      exact .cons (sim.visible init head h) rest

end Simulation

end Transition
