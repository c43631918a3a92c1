import MatteOS.Lib.Ledger
import MatteOS.Utils.Assertions

/-!
# Values or errors

`Utils::ErrorOr<T, E>`. Its two storage areas hold objects of the types `T` and `E`, whose copies
and moves have the same value. The objects have identities of their own, which the ledger keeps: an
object is constructed once, may be read while it is live, and ends where it is destroyed.
-/

namespace MatteOS.Utils.Errors

open Ledger

/-- The objects of the types `T` and `E` that are live, and what was constructed and destroyed. -/
abbrev Objects (T E : Type) := Heap (Except E T)

/-- An object is constructed. -/
def Objects.construct {T E : Type} (h : Objects T E) (content : Except E T) : Nat × Objects T E :=
  h.allocate .bump content

/-- The object that was last constructed in a storage area is destroyed. -/
def Objects.destroy {T E : Type} (h : Objects T E) (data : Option Nat) :
    Except Fault (Objects T E) :=
  orUndefined (data.bind h.free)

structure ErrorOr where
  resultData : Option Nat
  errorData : Option Nat
  hasValue : Bool
deriving DecidableEq

namespace ErrorOr

variable {T E : Type}

/-- `ErrorOr::has_error` -/
def hasError (o : ErrorOr) : Bool := !o.hasValue

/-- The object in a storage area is read. -/
def read (data : Option Nat) (h : Objects T E) : Except Fault (Except E T) :=
  orUndefined (data.bind h.cells)

/-- `ErrorOr::get_value`, before it is copied. -/
def getValue (o : ErrorOr) (h : Objects T E) : Except Fault T := do
  match ← read o.resultData h with
  | .ok value => return value
  | .error _ => .error .undefined

/-- `ErrorOr::get_error`, before it is copied. -/
def getError (o : ErrorOr) (h : Objects T E) : Except Fault E := do
  match ← read o.errorData h with
  | .ok _ => .error .undefined
  | .error error => return error

/-- `construct_result_type` -/
def constructResultType (o : ErrorOr) (value : T) (h : Objects T E) : ErrorOr × Objects T E :=
  let (object, h) := h.construct (.ok value)
  ({ o with resultData := some object }, h)

/-- `construct_error_type` -/
def constructErrorType (o : ErrorOr) (error : E) (h : Objects T E) : ErrorOr × Objects T E :=
  let (object, h) := h.construct (.error error)
  ({ o with errorData := some object }, h)

/-- An object before anything is constructed in it. -/
def raw (hasValue : Bool) : ErrorOr := { resultData := none, errorData := none, hasValue }

/-- The constructors from a value and from an error. -/
def create (content : Except E T) (h : Objects T E) : ErrorOr × Objects T E :=
  match content with
  | .ok value => (raw true).constructResultType value h
  | .error error => (raw false).constructErrorType error h

/-- The content of another object is constructed: `get_value` and `get_error` give copies of it, from
which it is moved, and which are destroyed. -/
def constructFrom (o other : ErrorOr) (h : Objects T E) : Except Fault (ErrorOr × Objects T E) :=
  if o.hasValue then do
    let value ← other.getValue h
    let (temporary, h) := h.construct (.ok value)
    let (o, h) := o.constructResultType value h
    let h ← h.destroy (some temporary)
    return (o, h)
  else do
    let error ← other.getError h
    let (temporary, h) := h.construct (.error error)
    let (o, h) := o.constructErrorType error h
    let h ← h.destroy (some temporary)
    return (o, h)

/-- `ErrorOr(const ErrorOr&)` -/
def copy (other : ErrorOr) (h : Objects T E) : Except Fault (ErrorOr × Objects T E) :=
  constructFrom (raw other.hasValue) other h

/-- `~ErrorOr()`, and the first lines of `operator=`. -/
def destroy (o : ErrorOr) (h : Objects T E) : Except Fault (Objects T E) :=
  if o.hasValue then h.destroy o.resultData else h.destroy o.errorData

/-- The body of `operator=`, where `other` is `o` itself. -/
def assignSelf (o : ErrorOr) (h : Objects T E) : Except Fault (ErrorOr × Objects T E) := do
  let h ← o.destroy h
  constructFrom o o h

end ErrorOr

/-! ## Programs -/

/-- The `ErrorOr` objects of a program, by variable, and the objects in them. -/
structure World (T E : Type) where
  vars : Nat → Option ErrorOr
  objects : Objects T E

inductive Call (T E : Type) where
  | create (x : Nat) (content : Except E T)
  | copy (x y : Nat)
  | assign (x y : Nat)
  | destroy (x : Nat)

namespace World

variable {T E : Type}

def empty : World T E := { vars := fun _ => none, objects := .empty }

def get (w : World T E) (x : Nat) : Except Fault ErrorOr := orUndefined (w.vars x)

def set (w : World T E) (x : Nat) (o : Option ErrorOr) (h : Objects T E) : World T E where
  vars := Function.update w.vars x o
  objects := h

/-- `operator=` only goes into its body where it is called with the object itself. -/
def call (w : World T E) : Call T E → Except Fault (World T E)
  | .create x content =>
    let (o, h) := ErrorOr.create content w.objects
    .ok (w.set x (some o) h)
  | .copy x y => do
    let other ← w.get y
    let (o, h) ← other.copy w.objects
    return w.set x (some o) h
  | .assign x y => do
    let o ← w.get x
    let _ ← w.get y
    if x = y then
      let (o, h) ← o.assignSelf w.objects
      return w.set x (some o) h
    else return w
  | .destroy x => do
    let o ← w.get x
    let h ← o.destroy w.objects
    return w.set x none h

end World

end MatteOS.Utils.Errors
