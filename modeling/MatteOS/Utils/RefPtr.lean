import Mathlib.Data.Finset.Image
import MatteOS.Lib.Ownership
import MatteOS.Utils.Assertions

/-!
# Reference counting

`Utils::RefPtr` and `Utils::RefCounted`. A `RefPtr` is a variable of the program or a field of an
object, such as `next` of a `HashMap::Entry`. An object is what its class adds to `m_ref_count`
here: so many fields that are `RefPtr`s. What is destroyed is not there any more, and a look at it is
undefined.
-/

namespace MatteOS.Utils.References

/-- Where a `RefPtr` is. -/
inductive Location where
  | root (x : Nat)
  | field (object i : Nat)
deriving DecidableEq

/-- The object that the `RefPtr` is in. -/
def Location.holder : Location → Option Nat
  | root _ => none
  | field object _ => some object

/-- An object of a class that derives from `RefCounted`. -/
structure RefCounted where
  refCount : BitVec 32
  fields : Nat
deriving DecidableEq

/-- The objects, the number of the next one, the `RefPtr`s that there are with the `m_value` of each,
and the objects that were destroyed, the last one first. -/
structure World where
  objects : Nat → Option RefCounted
  next : Nat
  pointers : Finset Location
  value : Location → Option Nat
  destroyed : List Nat

namespace World

def empty : World where
  objects := fun _ => none
  next := 0
  pointers := ∅
  value := fun _ => none
  destroyed := []

/-! ## `RefCountedBase` -/

def object (w : World) (o : Nat) : Except Fault RefCounted := orUndefined (w.objects o)

def setRefCount (w : World) (o : Nat) (c : RefCounted) (count : BitVec 32) : World :=
  { w with objects := Function.update w.objects o (some { c with refCount := count }) }

/-- `RefCountedBase::ref` -/
def ref (o : Nat) (w : World) : Except Fault World := do
  let c ← w.object o
  return w.setRefCount o c (c.refCount + 1)

/-- `RefCountedBase::deref` -/
def deref (o : Nat) (w : World) : Except Fault (BitVec 32 × World) := do
  let c ← w.object o
  return (c.refCount - 1, w.setRefCount o c (c.refCount - 1))

/-! ## The storage of a `RefPtr` -/

def read (l : Location) (w : World) : Except Fault (Option Nat) :=
  if l ∈ w.pointers then .ok (w.value l) else .error .undefined

def set (w : World) (l : Location) (v : Option Nat) : World :=
  { w with value := Function.update w.value l v }

def write (l : Location) (v : Option Nat) (w : World) : Except Fault World :=
  if l ∈ w.pointers then .ok (w.set l v) else .error .undefined

def enter (w : World) (l : Location) (v : Option Nat) : World :=
  { w with pointers := insert l w.pointers, value := Function.update w.value l v }

def leave (w : World) (l : Location) : World := { w with pointers := w.pointers.erase l }

/-- `if(m_value) m_value->ref();` -/
def refValue (v : Option Nat) (w : World) : Except Fault World :=
  match v with
  | none => .ok w
  | some o => w.ref o

/-- `if(m_value) m_value->unref();` -/
def unrefValue (unref : Nat → World → Except Fault (Bool × World)) (v : Option Nat) (w : World) :
    Except Fault World :=
  match v with
  | none => .ok w
  | some o => do
    let (_, w) ← unref o w
    return w

/-- `~RefPtr()`, after which there is no `RefPtr` any more. -/
def destroyPointer (unref : Nat → World → Except Fault (Bool × World)) (l : Location) (w : World) :
    Except Fault World := do
  let v ← w.read l
  let w ← w.unrefValue unref v
  let w ← w.write l none
  return w.leave l

/-! ## `RefCounted::unref` -/

/-- The fields `i - 1`, …, `0` are destroyed, in this order. -/
def destroyFields (unref : Nat → World → Except Fault (Bool × World)) (o : Nat) :
    Nat → World → Except Fault World
  | 0, w => .ok w
  | i + 1, w => do
    let w ← w.destroyPointer unref (.field o i)
    destroyFields unref o i w

def free (w : World) (o : Nat) : World :=
  { w with objects := Function.update w.objects o none, destroyed := o :: w.destroyed }

def delete (unref : Nat → World → Except Fault (Bool × World)) (o : Nat) (w : World) :
    Except Fault World := do
  let c ← w.object o
  let w ← w.destroyFields unref o c.fields
  return w.free o

/-- `RefCounted::unref`. Each level of the recursion is in the destructor of one more object, so that
it is no deeper than there are objects. -/
def unref : Nat → Nat → World → Except Fault (Bool × World)
  | 0, _, _ => .error .undefined
  | depth + 1, o, w => do
    let (count, w) ← w.deref o
    if count = 0 then
      let w ← w.delete (unref depth) o
      return (true, w)
    else return (false, w)

end World

/-! ## Programs -/

inductive Call where
  | create (fields : Nat)
  | construct (x : Nat) (ptr : Option Nat)
  | copyConstruct (x : Nat) (other : Location)
  | moveConstruct (x : Nat) (other : Location)
  | copyAssign (l other : Location)
  | moveAssign (l other : Location)
  | destroy (x : Nat)

namespace World

/-- `new T` of a class with so many `RefPtr`s, all of which are `nullptr`. -/
def create (w : World) (fields : Nat) : World where
  objects := Function.update w.objects w.next (some { refCount := 0, fields })
  next := w.next + 1
  pointers := w.pointers ∪ (Finset.range fields).image (Location.field w.next)
  value := fun l => if l.holder = some w.next then none else w.value l
  destroyed := w.destroyed

def call (w : World) : Call → Except Fault World
  | .create fields => .ok (w.create fields)
  | .construct x ptr => (w.enter (.root x) ptr).refValue ptr
  | .copyConstruct x other => do
    let v ← w.read other
    (w.enter (.root x) v).refValue v
  | .moveConstruct x other => do
    let v ← w.read other
    (w.enter (.root x) v).write other none
  | .copyAssign l other =>
    if l = other then .ok w
    else do
      let old ← w.read l
      let w ← w.unrefValue (unref w.next) old
      let v ← w.read other
      let w ← w.write l v
      w.refValue v
  | .moveAssign l other =>
    if l = other then .ok w
    else do
      let old ← w.read l
      let w ← w.unrefValue (unref w.next) old
      let v ← w.read other
      let w ← w.write l v
      w.write other none
  | .destroy x => w.destroyPointer (unref w.next) (.root x)

/-- A step of a run, which a call that faults leaves as it is. -/
def step (w : World) (call : Call) : World :=
  match w.call call with
  | .ok w => w
  | .error _ => w

end World

end MatteOS.Utils.References
