import MatteOS.Utils.ArrayList

/-!
# Array lists that are moved

A move leaves a list without a block: `nullptr`, and no slots. `kmalloc` gives `nullptr` for a block
of no size, `kfree` does nothing with it, and nothing can be stored behind it. Here are the
operations of `Utils::ArrayList` on the lists that may be without a block.
-/

namespace MatteOS.Utils

namespace ArrayList

/-- The list that a move leaves. -/
def moved : ArrayList := { array := 0, size := 0, ptr := 0 }

namespace Movable

variable {Object Value : Type} (E : ElementType Object Value)

/-- `ArrayList::clear`, but for the fields, and `~ArrayList()` -/
def clear (l : ArrayList) (h : ObjectHeap Object) : Except Fault (ObjectHeap Object) :=
  if l.array = 0 ∧ l.ptr = 0 then .ok h else release E l h

/-- The block of a copy and its elements, in `ArrayList(const ArrayList&)` and in `operator=`. -/
def copyElements (other : ArrayList) (h : ObjectHeap Object) :
    Except Fault (ArrayList × ObjectHeap Object) :=
  if other.size = 0 ∧ other.ptr = 0 then .ok (moved, h) else ArrayList.copyElements E other h

/-- `ArrayList::reset` -/
def reset (l : ArrayList) (h : ObjectHeap Object) : Except Fault (ArrayList × ObjectHeap Object) := do
  let h ← clear E l h
  return create h

/-- `operator=(const ArrayList&)` where the lists are different ones. -/
def copyAssign (l other : ArrayList) (h : ObjectHeap Object) :
    Except Fault (ArrayList × ObjectHeap Object) := do
  let h ← clear E l h
  copyElements E other h

/-- `ArrayList::grow`, which doubles no slots to no slots. -/
def grow (l : ArrayList) (h : ObjectHeap Object) : Except Fault (ArrayList × ObjectHeap Object) :=
  if l.size = 0 ∧ l.ptr = 0 then do
    let h ← clear E l h
    return (moved, h)
  else ArrayList.grow E l h

/-- The first line of `ArrayList::add`. -/
def makeRoom (l : ArrayList) (h : ObjectHeap Object) :
    Except Fault (ArrayList × ObjectHeap Object) :=
  if l.ptr ≥ l.size then grow E l h else .ok (l, h)

/-- The two `ArrayList::add`, which construct the new element by `construct`. -/
def addBy (construct : Object → Object) (l : ArrayList) (value : Reference Object)
    (h : ObjectHeap Object) : Except Fault (Nat × ArrayList × ObjectHeap Object) := do
  let (l, h) ← makeRoom E l h
  let o ← value.read h
  let b ← h.block l.array
  let b ← b.write l.ptr (construct o)
  return (l.ptr, { l with ptr := l.ptr + 1 }, h.setBlock l.array b)

end Movable

end ArrayList

/-! ## Programs -/

/-- A call of a program that also moves and destroys its lists. -/
inductive MovingCall (Object : Type) where
  | create (x : Nat)
  | copyConstruct (x y : Nat)
  | moveConstruct (x y : Nat)
  | copyAssign (x y : Nat)
  | moveAssign (x y : Nat)
  | destroy (x : Nat)
  | reset (x : Nat)
  | add (x : Nat) (value : Object)
  | addMoved (x : Nat) (value : Object)
  | addElement (x y index : Nat)
  | remove (x index : Nat)

namespace ListWorld

open ArrayList

variable {Object Value : Type} (E : ElementType Object Value)

/-- `x` has what `y` had. -/
def hand (w : ListWorld Object) (x y : Nat) (l : ArrayList) (h : ObjectHeap Object) :
    ListWorld Object where
  lists := Function.update (Function.update w.lists y (some moved)) x (some l)
  heap := h

def callMoving (w : ListWorld Object) : MovingCall Object → Except Fault (ListWorld Object)
  | .create x =>
    let (l, h) := ArrayList.create w.heap
    .ok (w.set x l h)
  | .copyConstruct x y => do
    let other ← w.list y
    let (l, h) ← Movable.copyElements E other w.heap
    return w.set x l h
  | .moveConstruct x y => do
    let other ← w.list y
    return w.hand x y other w.heap
  | .copyAssign x y => do
    let l ← w.list x
    let other ← w.list y
    if x = y then return w
    else
      let (l, h) ← Movable.copyAssign E l other w.heap
      return w.set x l h
  | .moveAssign x y => do
    let l ← w.list x
    let other ← w.list y
    if x = y then return w
    else
      let h ← Movable.clear E l w.heap
      return w.hand x y other h
  | .destroy x => do
    let l ← w.list x
    let h ← Movable.clear E l w.heap
    return { lists := Function.update w.lists x none, heap := h }
  | .reset x => do
    let l ← w.list x
    let (l, h) ← Movable.reset E l w.heap
    return w.set x l h
  | .add x value => do
    let l ← w.list x
    let (_, l, h) ← Movable.addBy E E.copy l (.object value) w.heap
    return w.set x l h
  | .addMoved x value => do
    let l ← w.list x
    let (_, l, h) ← Movable.addBy E (fun o => (E.move o).1) l (.object value) w.heap
    return w.set x l h
  | .addElement x y index => do
    let l ← w.list x
    let other ← w.list y
    let (_, l, h) ← Movable.addBy E E.copy l (.slot other.array index) w.heap
    return w.set x l h
  | .remove x index => do
    let l ← w.list x
    let (l, h) ← l.remove E index w.heap
    return w.set x l h

/-- A step of a run, which a call that faults leaves as it is. -/
def stepMoving (w : ListWorld Object) (call : MovingCall Object) : ListWorld Object :=
  match w.callMoving E call with
  | .ok w => w
  | .error _ => w

end ListWorld

end MatteOS.Utils
