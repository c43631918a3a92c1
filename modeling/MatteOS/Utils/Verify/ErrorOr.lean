import MatteOS.Lib.Transition
import MatteOS.Utils.ErrorOr

/-!
# `ErrorOr` objects as values

What the calls of a program do to the contents of its objects (`Call.onContents`), and what it can
see of them (`Agrees`). Construction, copies and destruction keep contents and lifetimes in step;
the test in `operator=` is the wrong way around, so that an assignment does nothing, and to the
object itself it destroys what it then reads (`errorOr_agrees_iff`).
-/

namespace MatteOS.Utils.Errors

open Transition Ledger

variable {T E : Type}

/-! ## Contents -/

/-- The value or the error in each object. -/
abbrev Contents (T E : Type) := Nat → Option (Except E T)

/-- The contents after a call. -/
def Call.onContents (contents : Contents T E) : Call T E → Contents T E
  | .create x content => Function.update contents x (some content)
  | .copy x y | .assign x y => Function.update contents x (contents y)
  | .destroy x => Function.update contents x none

/-- The call constructs an object that there is not, from one that there is. -/
def Call.Valid (contents : Contents T E) : Call T E → Prop
  | .create x _ => contents x = none
  | .copy x y => contents x = none ∧ (contents y).isSome
  | .assign x y => (contents x).isSome ∧ (contents y).isSome
  | .destroy x => (contents x).isSome

/-- The object that is live in an `ErrorOr`. -/
def ErrorOr.object (o : ErrorOr) : Option Nat := if o.hasValue then o.resultData else o.errorData

/-- The `ErrorOr` tells which alternative it has, and gives the value or the error. -/
def Reports (h : Objects T E) (o : ErrorOr) : Except E T → Prop
  | .ok value => o.hasValue = true ∧ o.hasError = false ∧ o.getValue h = .ok value
  | .error error => o.hasValue = false ∧ o.hasError = true ∧ o.getError h = .ok error

/-- What was constructed and not destroyed is in one of the `ErrorOr` objects each, and nothing was
destroyed but once. -/
structure Lifetimes (w : World T E) : Prop where
  sound : Sound w.objects.log
  live : ∀ p, Live w.objects.log p ↔ ∃ x o, w.vars x = some o ∧ o.object = some p
  apart : ∀ x y o o', w.vars x = some o → w.vars y = some o' → o.object = o'.object → x = y

/-! ## Objects -/

/-- The content of an `ErrorOr` is a live object. -/
structure Holds (h : Objects T E) (o : ErrorOr) (p : Nat) (content : Except E T) : Prop where
  object : o.object = some p
  cell : h.cells p = some content
  hasValue : o.hasValue = content.isOk

section

variable {h h' : Objects T E} {o other : ErrorOr} {p : Nat} {content content' : Except E T}

theorem read_eq (cell : h.cells p = some content) : ErrorOr.read (some p) h = .ok content :=
  congrArg orUndefined cell

theorem read_undefined (cell : h.cells p = none) :
    ErrorOr.read (some p) h = .error .undefined := congrArg orUndefined cell

theorem Holds.reports (holds : Holds h o p content) : Reports h o content := by
  have object := holds.object
  have hasValue := holds.hasValue
  cases content with
  | ok value =>
    have hasValue : o.hasValue = true := hasValue
    rw [ErrorOr.object, if_pos hasValue] at object
    refine ⟨hasValue, by rw [ErrorOr.hasError, hasValue]; rfl, ?_⟩
    rw [ErrorOr.getValue, object, read_eq holds.cell]
    rfl
  | error error =>
    have hasValue : o.hasValue = false := hasValue
    rw [ErrorOr.object, if_neg (by rw [hasValue]; decide)] at object
    refine ⟨hasValue, by rw [ErrorOr.hasError, hasValue]; rfl, ?_⟩
    rw [ErrorOr.getError, object, read_eq holds.cell]
    rfl

/-- An `ErrorOr` has one content. -/
theorem Reports.unique (reports : Reports h o content) (reports' : Reports h o content') :
    content = content' := by
  cases content with
  | ok value =>
    cases content' with
    | ok value' => exact congrArg Except.ok (Except.ok.inj (reports.2.2.symm.trans reports'.2.2))
    | error error' => exact absurd (reports.1.symm.trans reports'.1) (by decide)
  | error error =>
    cases content' with
    | ok value' => exact absurd (reports.1.symm.trans reports'.1) (by decide)
    | error error' => exact congrArg Except.error (Except.ok.inj (reports.2.2.symm.trans reports'.2.2))

/-- A new object, and no change to the others. -/
structure Constructed (h : Objects T E) (o : ErrorOr) (content : Except E T) (h' : Objects T E)
    (p : Nat) : Prop where
  holds : Holds h' o p content
  fresh : h.cells p = none
  kept : ∀ q ≠ p, h'.cells q = h.cells q
  tracks : h'.Tracks

theorem create_constructed (tracks : h.Tracks) (content : Except E T) :
    ∃ o h' p, ErrorOr.create content h = (o, h') ∧ Constructed h o content h' p := by
  obtain ⟨p, h', run, fresh, cells, tracks'⟩ := tracks.allocate .bump content
  have cell : h'.cells p = some content := by rw [cells, Function.update_self]
  have kept : ∀ q ≠ p, h'.cells q = h.cells q := fun q ne => by
    rw [cells, Function.update_of_ne ne]
  cases content with
  | ok value =>
    refine ⟨{ resultData := some p, errorData := none, hasValue := true }, h', p, ?_,
      ⟨⟨rfl, cell, rfl⟩, fresh, kept, tracks'⟩⟩
    rw [ErrorOr.create, ErrorOr.constructResultType, Objects.construct, run]
    rfl
  | error error =>
    refine ⟨{ resultData := none, errorData := some p, hasValue := false }, h', p, ?_,
      ⟨⟨rfl, cell, rfl⟩, fresh, kept, tracks'⟩⟩
    rw [ErrorOr.create, ErrorOr.constructErrorType, Objects.construct, run]
    rfl

/-- The temporary copy of a content is gone when the object is constructed. -/
theorem temporary_destroyed (tracks : h.Tracks) (content : Except E T) :
    ∃ t h₁ p h₂ h₃, h.construct content = (t, h₁) ∧ h₁.construct content = (p, h₂) ∧
      h₂.destroy (some t) = .ok h₃ ∧ h₃.cells p = some content ∧ h.cells p = none ∧
      (∀ q ≠ p, h₃.cells q = h.cells q) ∧ h₃.Tracks := by
  obtain ⟨t, h₁, first, freshT, cells₁, tracks₁⟩ := tracks.allocate .bump content
  obtain ⟨p, h₂, second, freshP, cells₂, tracks₂⟩ := tracks₁.allocate .bump content
  have apart : p ≠ t := by
    rintro rfl
    rw [cells₁, Function.update_self] at freshP
    cases freshP
  rw [cells₁, Function.update_of_ne apart] at freshP
  have temporary : h₂.cells t = some content := by
    rw [cells₂, Function.update_of_ne apart.symm, cells₁, Function.update_self]
  obtain ⟨h₃, freed, tracks₃, gone, kept⟩ := tracks₂.free temporary
  refine ⟨t, h₁, p, h₂, h₃, first, second, congrArg orUndefined freed, ?_, freshP, ?_, tracks₃⟩
  · rw [kept p apart, cells₂, Function.update_self]
  · intro q ne
    by_cases same : q = t
    · rw [same, gone, freshT]
    · rw [kept q same, cells₂, Function.update_of_ne ne, cells₁, Function.update_of_ne same]

/-- A copy has the content of its source. -/
theorem copy_constructed (tracks : h.Tracks) {q : Nat} (holds : Holds h other q content) :
    ∃ o h' p, other.copy h = .ok (o, h') ∧ Constructed h o content h' p := by
  obtain ⟨t, h₁, p, h₂, h₃, first, second, destroyed, cell, fresh, kept, tracks₃⟩ :=
    temporary_destroyed tracks content
  have reports := holds.reports
  cases content with
  | ok value =>
    obtain ⟨hasValue, -, got⟩ := reports
    have taken : (ErrorOr.raw true).hasValue = true := rfl
    refine ⟨{ resultData := some p, errorData := none, hasValue := true }, h₃, p, ?_,
      ⟨⟨rfl, cell, rfl⟩, fresh, kept, tracks₃⟩⟩
    rw [ErrorOr.copy, hasValue, ErrorOr.constructFrom, if_pos taken, got, ok_bind, first]
    dsimp only
    rw [ErrorOr.constructResultType, second]
    dsimp only
    rw [destroyed]
    rfl
  | error error =>
    obtain ⟨hasValue, -, got⟩ := reports
    have taken : ¬(ErrorOr.raw false).hasValue = true := Bool.false_ne_true
    refine ⟨{ resultData := none, errorData := some p, hasValue := false }, h₃, p, ?_,
      ⟨⟨rfl, cell, rfl⟩, fresh, kept, tracks₃⟩⟩
    rw [ErrorOr.copy, hasValue, ErrorOr.constructFrom, if_neg taken, got, ok_bind, first]
    dsimp only
    rw [ErrorOr.constructErrorType, second]
    dsimp only
    rw [destroyed]
    rfl

/-- The destructor destroys the content. -/
theorem destroy_freed (tracks : h.Tracks) (holds : Holds h o p content) :
    ∃ h', o.destroy h = .ok h' ∧ h'.Tracks ∧ h'.cells p = none ∧
      ∀ q ≠ p, h'.cells q = h.cells q := by
  obtain ⟨h', freed, tracks', gone, kept⟩ := tracks.free holds.cell
  refine ⟨h', ?_, tracks', gone, kept⟩
  have object : o.destroy h = h.destroy o.object := by
    rw [ErrorOr.destroy, ErrorOr.object]
    split <;> rfl
  rw [object, holds.object]
  exact congrArg orUndefined freed

/-- An assignment to the object itself reads what it has destroyed. -/
theorem assignSelf_undefined (tracks : h.Tracks) (holds : Holds h o p content) :
    o.assignSelf h = .error .undefined := by
  obtain ⟨h', destroyed, -, gone, -⟩ := destroy_freed tracks holds
  have object := holds.object
  rw [ErrorOr.assignSelf, destroyed, ok_bind, ErrorOr.constructFrom]
  split
  next hasValue =>
    rw [ErrorOr.object, if_pos hasValue] at object
    rw [ErrorOr.getValue, object, read_undefined gone]
    rfl
  next hasError =>
    rw [ErrorOr.object, if_neg hasError] at object
    rw [ErrorOr.getError, object, read_undefined gone]
    rfl

end

/-! ## Programs -/

/-- Every `ErrorOr` holds its content, and there are no other live objects. -/
structure Refines (w : World T E) (contents : Contents T E) : Prop where
  absent : ∀ x, contents x = none → w.vars x = none
  holds : ∀ x content, contents x = some content →
    ∃ o p, w.vars x = some o ∧ Holds w.objects o p content
  apart : ∀ x y o o', w.vars x = some o → w.vars y = some o' → o.object = o'.object → x = y
  owned : ∀ p content, w.objects.cells p = some content →
    ∃ x o, w.vars x = some o ∧ o.object = some p
  tracks : w.objects.Tracks

namespace Refines

variable {w : World T E} {contents : Contents T E} {x y : Nat} {content : Except E T}

theorem empty : Refines (World.empty : World T E) fun _ => none :=
  ⟨fun _ _ => rfl, fun _ _ found => absurd found.symm (Option.some_ne_none _),
    fun _ _ _ _ found => absurd found.symm (Option.some_ne_none _),
    fun _ _ found => absurd found.symm (Option.some_ne_none _), Heap.tracks_empty⟩

/-- What a variable that is an object holds. -/
theorem of_found (refines : Refines w contents) {o : ErrorOr} (found : w.vars x = some o) :
    ∃ content p, contents x = some content ∧ Holds w.objects o p content := by
  cases here : contents x with
  | none =>
    rw [refines.absent x here] at found
    cases found
  | some content =>
    obtain ⟨o', p, found', holds⟩ := refines.holds x content here
    obtain rfl := Option.some.inj (found.symm.trans found')
    exact ⟨content, p, rfl, holds⟩

theorem lifetimes (refines : Refines w contents) : Lifetimes w where
  sound := refines.tracks.sound
  live p := by
    rw [refines.tracks.live, Option.isSome_iff_exists]
    constructor
    · rintro ⟨content, cell⟩
      exact refines.owned p content cell
    · rintro ⟨x, o, found, object⟩
      obtain ⟨content, q, -, holds⟩ := refines.of_found found
      obtain rfl := Option.some.inj (object.symm.trans holds.object)
      exact ⟨content, holds.cell⟩
  apart := refines.apart

theorem set_vars_self {o : Option ErrorOr} {h' : Objects T E} : (w.set x o h').vars x = o :=
  Function.update_self _ _ _

theorem set_vars_of_ne {o : Option ErrorOr} {h' : Objects T E} (ne : y ≠ x) :
    (w.set x o h').vars y = w.vars y := Function.update_of_ne ne _ _

/-- A variable becomes an object. -/
theorem construct (refines : Refines w contents) (free : contents x = none) {o : ErrorOr}
    {h' : Objects T E} {p : Nat} (new : Constructed w.objects o content h' p) :
    Refines (w.set x (some o) h') (Function.update contents x (some content)) := by
  -- the objects of the other variables are not the new one
  have other : ∀ y o', w.vars y = some o' →
      ∃ content' q, contents y = some content' ∧ Holds w.objects o' q content' ∧ q ≠ p := by
    intro y o' found
    obtain ⟨content', q, here, holds⟩ := refines.of_found found
    refine ⟨content', q, here, holds, ?_⟩
    rintro rfl
    exact absurd (new.fresh.symm.trans holds.cell) (Option.some_ne_none _).symm
  have apart : ∀ y o', w.vars y = some o' → o.object ≠ o'.object := by
    intro y o' found same
    obtain ⟨_, q, -, holds, ne⟩ := other y o' found
    rw [new.holds.object, holds.object] at same
    exact ne (Option.some.inj same).symm
  refine ⟨fun y => ?_, fun y content' => ?_, fun y z oy oz => ?_, fun q content' cell => ?_,
    new.tracks⟩
  · by_cases same : y = x
    · simp [same]
    · rw [set_vars_of_ne same, Function.update_of_ne same]
      exact refines.absent y
  · by_cases same : y = x
    · subst same
      rw [Function.update_self, set_vars_self]
      rintro ⟨rfl⟩
      exact ⟨o, p, rfl, new.holds⟩
    · rw [Function.update_of_ne same, set_vars_of_ne same]
      intro here
      obtain ⟨o', q, found, holds⟩ := refines.holds y content' here
      obtain ⟨_, q', -, holds', ne⟩ := other y o' found
      obtain rfl := Option.some.inj (holds.object.symm.trans holds'.object)
      exact ⟨o', q, found, holds.object, (new.kept q ne).trans holds.cell, holds.hasValue⟩
  · by_cases sameY : y = x
    · by_cases sameZ : z = x
      · intro _ _ _
        rw [sameY, sameZ]
      · subst sameY
        rw [set_vars_self, set_vars_of_ne sameZ]
        rintro ⟨rfl⟩ found same
        exact absurd same (apart z oz found)
    · by_cases sameZ : z = x
      · subst sameZ
        rw [set_vars_self, set_vars_of_ne sameY]
        rintro found ⟨rfl⟩ same
        exact absurd same.symm (apart y oy found)
      · rw [set_vars_of_ne sameY, set_vars_of_ne sameZ]
        exact refines.apart y z oy oz
  · by_cases same : q = p
    · exact ⟨x, o, set_vars_self, same ▸ new.holds.object⟩
    · rw [show (w.set x (some o) h').objects = h' from rfl, new.kept q same] at cell
      obtain ⟨y, o', found, object⟩ := refines.owned q content' cell
      refine ⟨y, o', (set_vars_of_ne ?_).trans found, object⟩
      rintro rfl
      rw [refines.absent y free] at found
      cases found

/-- A variable is no object any more. -/
theorem destroy (refines : Refines w contents) {o : ErrorOr} {p : Nat}
    (found : w.vars x = some o) (holds : Holds w.objects o p content) {h' : Objects T E}
    (tracks : h'.Tracks) (gone : h'.cells p = none)
    (kept : ∀ q ≠ p, h'.cells q = w.objects.cells q) :
    Refines (w.set x none h') (Function.update contents x none) := by
  have others : ∀ y o', (w.set x none h').vars y = some o' → y ≠ x ∧ w.vars y = some o' := by
    intro y o' found'
    by_cases same : y = x
    · rw [same, set_vars_self] at found'
      cases found'
    · exact ⟨same, by rwa [set_vars_of_ne same] at found'⟩
  refine ⟨fun y => ?_, fun y content' => ?_, fun y z oy oz foundY foundZ => ?_,
    fun q content' cell => ?_, tracks⟩
  · by_cases same : y = x
    · intro _
      rw [same, set_vars_self]
    · rw [set_vars_of_ne same, Function.update_of_ne same]
      exact refines.absent y
  · by_cases same : y = x
    · rw [same, Function.update_self]
      intro here
      cases here
    · rw [Function.update_of_ne same, set_vars_of_ne same]
      intro here
      obtain ⟨o', q, found', holds'⟩ := refines.holds y content' here
      have ne : q ≠ p := by
        rintro rfl
        exact same (refines.apart y x o' o found' found (holds'.object.trans holds.object.symm))
      exact ⟨o', q, found', holds'.object, (kept q ne).trans holds'.cell, holds'.hasValue⟩
  · exact refines.apart y z oy oz (others y oy foundY).2 (others z oz foundZ).2
  · by_cases same : q = p
    · rw [show (w.set x none h').objects = h' from rfl, same, gone] at cell
      cases cell
    · rw [show (w.set x none h').objects = h' from rfl, kept q same] at cell
      obtain ⟨y, o', found', object⟩ := refines.owned q content' cell
      refine ⟨y, o', (set_vars_of_ne ?_).trans found', object⟩
      rintro rfl
      obtain rfl := Option.some.inj (found.symm.trans found')
      exact same (Option.some.inj (object.symm.trans holds.object))

/-- There is an `ErrorOr` where there is a content. -/
theorem get (refines : Refines w contents) (some : (contents x).isSome) :
    ∃ content o p, contents x = Option.some content ∧ w.vars x = Option.some o ∧
      w.get x = .ok o ∧ Holds w.objects o p content := by
  obtain ⟨content, here⟩ := Option.isSome_iff_exists.1 some
  obtain ⟨o, p, found, holds⟩ := refines.holds x content here
  exact ⟨content, o, p, here, found, congrArg orUndefined found, holds⟩

end Refines

/-! ## Runs -/

/-- A program between two calls: its objects, and the contents they are to have. -/
structure ErrorOrRun (T E : Type) where
  world : World T E
  contents : Contents T E

namespace ErrorOrRun

def init : ErrorOrRun T E := { world := .empty, contents := fun _ => none }

def step (s : ErrorOrRun T E) (call : Call T E) : ErrorOrRun T E where
  world :=
    match s.world.call call with
    | .ok world => world
    | .error _ => s.world
  contents := call.onContents s.contents

def Valid (s : ErrorOrRun T E) (call : Call T E) : Prop := call.Valid s.contents

/-- The call goes through without a look at a destroyed object, and afterwards every `ErrorOr`
reports its content and lifetimes are in order. -/
def Agrees (s : ErrorOrRun T E) (call : Call T E) : Prop :=
  ∃ world, s.world.call call = .ok world ∧
    (∀ x content, call.onContents s.contents x = some content →
      ∃ o, world.vars x = some o ∧ Reports world.objects o content) ∧
    Lifetimes world

/-- What is assigned is in the object already, and in another one too. -/
def Idle (s : ErrorOrRun T E) : Call T E → Prop
  | .assign x y => x ≠ y ∧ s.contents x = s.contents y
  | _ => True

variable {s : ErrorOrRun T E} {call : Call T E}

/-- Calls that refine the contents agree with them. -/
theorem agrees_of_refines {world : World T E} (run : s.world.call call = .ok world)
    (refines : Refines world (call.onContents s.contents)) : s.Agrees call := by
  refine ⟨world, run, fun x content here => ?_, refines.lifetimes⟩
  obtain ⟨o, p, found, holds⟩ := refines.holds x content here
  exact ⟨o, found, holds.reports⟩

theorem call_refines (refines : Refines s.world s.contents) (valid : s.Valid call)
    (idle : s.Idle call) :
    ∃ world, s.world.call call = .ok world ∧ Refines world (call.onContents s.contents) := by
  cases call with
  | create x content =>
    obtain ⟨o, h', p, run, new⟩ := create_constructed refines.tracks content
    refine ⟨s.world.set x (some o) h', ?_, refines.construct valid new⟩
    rw [World.call, run]
  | copy x y =>
    obtain ⟨free, some⟩ := valid
    obtain ⟨content, other, q, here, -, got, holds⟩ := refines.get some
    obtain ⟨o, h', p, run, new⟩ := copy_constructed refines.tracks holds
    refine ⟨s.world.set x (Option.some o) h', ?_, ?_⟩
    · rw [World.call, got, ok_bind, run]
      rfl
    · rw [Call.onContents, here]
      exact refines.construct free new
  | assign x y =>
    obtain ⟨contentX, o, p, -, -, got, -⟩ := refines.get valid.1
    obtain ⟨contentY, other, q, -, -, gotOther, -⟩ := refines.get valid.2
    obtain ⟨apart, same⟩ := idle
    refine ⟨s.world, ?_, ?_⟩
    · rw [World.call, got, ok_bind, gotOther, ok_bind, if_neg apart]
      rfl
    · rwa [Call.onContents, ← same, Function.update_eq_self]
  | destroy x =>
    obtain ⟨content, o, p, -, found, got, holds⟩ := refines.get valid
    obtain ⟨h', run, tracks, gone, kept⟩ := destroy_freed refines.tracks holds
    refine ⟨s.world.set x none h', ?_, refines.destroy found holds tracks gone kept⟩
    rw [World.call, got, ok_bind, run]
    rfl

/-- An assignment that agrees had nothing to do. -/
theorem idle_of_agrees (refines : Refines s.world s.contents) (valid : s.Valid call)
    (agrees : s.Agrees call) : s.Idle call := by
  cases call with
  | create x content => trivial
  | copy x y => trivial
  | destroy x => trivial
  | assign x y =>
    obtain ⟨contentX, o, p, hereX, found, got, holds⟩ := refines.get valid.1
    obtain ⟨contentY, other, q, hereY, -, gotOther, -⟩ := refines.get valid.2
    obtain ⟨world, run, reports, -⟩ := agrees
    rw [World.call, got, ok_bind, gotOther, ok_bind] at run
    split_ifs at run with same
    · rw [assignSelf_undefined refines.tracks holds] at run
      cases run
    · cases run
      obtain ⟨o', found', reports'⟩ := reports x contentY (by
        rw [Call.onContents, Function.update_self, hereY])
      obtain rfl := Option.some.inj (found.symm.trans found')
      refine ⟨same, ?_⟩
      rw [hereX, hereY, holds.reports.unique reports']

theorem agrees_iff_idle (refines : Refines s.world s.contents) (valid : s.Valid call) :
    s.Agrees call ↔ s.Idle call := by
  refine ⟨idle_of_agrees refines valid, fun idle => ?_⟩
  obtain ⟨world, run, refines'⟩ := call_refines refines valid idle
  exact agrees_of_refines run refines'

theorem step_refines (refines : Refines s.world s.contents) (valid : s.Valid call)
    (agrees : s.Agrees call) : Refines (s.step call).world (s.step call).contents := by
  obtain ⟨world, run, refines'⟩ := call_refines refines valid (idle_of_agrees refines valid agrees)
  rw [step, run]
  exact refines'

end ErrorOrRun

open ErrorOrRun

/-- **`ErrorOr` objects are values** if and only if every assignment is between two objects that have
the same content before. -/
theorem errorOr_agrees_iff (calls : List (Call T E)) (valid : Along step Valid init calls) :
    Along step Agrees init calls ↔ Along step Idle init calls :=
  Along.iff (J := fun s => Refines s.world s.contents)
    (fun _ _ refines valid => agrees_iff_idle refines valid)
    (fun _ _ refines valid agrees => step_refines refines valid agrees) .empty valid

/-- A value, a copy of it and an error. -/
def sample : List (Call Nat Nat) := [.create 0 (.ok 1), .copy 1 0, .create 2 (.error 5), .destroy 1]

theorem errorOr_agrees_iff_sample :
    Along step Agrees init sample ↔ Along step Idle init sample :=
  errorOr_agrees_iff sample ⟨rfl, ⟨rfl, rfl⟩, rfl, rfl, trivial⟩

/-- `a = b` of two values, and `a = a`. -/
def assigned : List (Call Nat Nat) := [.create 0 (.ok 1), .create 1 (.ok 2), .assign 0 1]

def assignedSelf : List (Call Nat Nat) := [.create 0 (.ok 1), .assign 0 0]

/-- After `a = b` the object `a` still reports its own value, and in `a = a` a value is read that is
destroyed. -/
theorem not_agrees_assigned :
    (Along step Valid init assigned ∧ ¬Along step Agrees init assigned) ∧
      Along step Valid init assignedSelf ∧ ¬Along step Agrees init assignedSelf := by
  refine ⟨⟨⟨rfl, rfl, ⟨rfl, rfl⟩, trivial⟩, ?_⟩, ⟨rfl, ⟨rfl, rfl⟩, trivial⟩, ?_⟩
  · rintro ⟨-, -, ⟨world, run, reports, -⟩, -⟩
    cases run
    obtain ⟨o, found, -, -, value⟩ := reports 0 (.ok 2) rfl
    cases found
    cases value
  · rintro ⟨-, ⟨world, run, -, -⟩, -⟩
    cases run

end MatteOS.Utils.Errors
