import Mathlib.Algebra.GroupWithZero.Nat
import Mathlib.Tactic.Common

/-!
# Assertions

What a run of the code ends with, where it does not return: `runtime_assert`, or behaviour that the
language does not define.
-/

namespace MatteOS.Utils

/-- What ends a run of the code: an assertion, or behaviour that is not defined. -/
inductive Fault where
  | assertion (message : String)
  | undefined
deriving DecidableEq

/-- What is not there must not be used. -/
def orUndefined {α : Type} : Option α → Except Fault α
  | some a => .ok a
  | none => .error .undefined

/-- `runtime_assert` -/
def runtimeAssert (condition : Bool) (message : String) : Except Fault Unit :=
  if condition then .ok () else .error (.assertion message)

theorem ok_bind {α β : Type} (a : α) (f : α → Except Fault β) :
    ((Except.ok a : Except Fault α) >>= f) = f a := rfl

theorem bind_eq_ok {α β : Type} {a : Except Fault α} {f : α → Except Fault β} {b : β}
    (run : a >>= f = .ok b) : ∃ c, a = .ok c ∧ f c = .ok b := by
  cases a with
  | error fault => cases run
  | ok c => exact ⟨c, rfl, run⟩

/-! ## What a run returns -/

/-- The run returns, and what it returns satisfies `P`. -/
def Returns {α : Type} (run : Except Fault α) (P : α → Prop) : Prop := ∃ a, run = .ok a ∧ P a

theorem returns_ok {α : Type} {a : α} {P : α → Prop} : Returns (.ok a) P ↔ P a :=
  ⟨fun ⟨_, same, holds⟩ => Except.ok.inj same ▸ holds, fun holds => ⟨a, rfl, holds⟩⟩

theorem not_returns_error {α : Type} {fault : Fault} {P : α → Prop} :
    ¬Returns (.error fault) P := by
  rintro ⟨_, run, _⟩
  cases run

theorem returns_bind {α β : Type} {a : Except Fault α} {f : α → Except Fault β} {P : β → Prop} :
    Returns (a >>= f) P ↔ Returns a fun b => Returns (f b) P := by
  constructor
  · rintro ⟨c, run, holds⟩
    obtain ⟨b, first, rest⟩ := bind_eq_ok run
    exact ⟨b, first, c, rest, holds⟩
  · rintro ⟨b, rfl, c, rest, holds⟩
    exact ⟨c, rest, holds⟩

theorem orUndefined_some {α : Type} (a : α) : orUndefined (some a) = .ok a := rfl

theorem runtimeAssert_true (message : String) : runtimeAssert true message = .ok () := rfl

end MatteOS.Utils
