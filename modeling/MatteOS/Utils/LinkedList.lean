import MatteOS.Lib.Ledger
import MatteOS.Lib.Loop
import MatteOS.Utils.Assertions

/-!
# Linked lists

`Utils::LinkedList`, with links in both directions, over the heap of its elements. The loops of
`remove` and `get` count with an `int`, and stop before they get to the index that they compare
with.
-/

namespace MatteOS.Utils

structure LinkedListElement (T : Type) where
  data : T
  next : Option Nat
  prev : Option Nat
deriving DecidableEq

/-- The `LinkedListElement` objects by address. -/
abbrev LinkedListHeap (T : Type) := Ledger.Heap (LinkedListElement T)

structure LinkedList where
  head : Option Nat
  tail : Option Nat
  size : Nat
deriving DecidableEq

/-- How a loop is left before its end. -/
inductive Leave (α : Type) where
  | returned (result : α)
  | fault (fault : Fault)

namespace LinkedList

variable {T : Type}

/-- `LinkedList()` -/
def empty : LinkedList := { head := none, tail := none, size := 0 }

/-- `element->m_next = next` -/
def setNext (heap : LinkedListHeap T) (place : Nat) (next : Option Nat) :
    Except Fault (LinkedListHeap T) := do
  let element ← orUndefined (heap.cells place)
  return { heap with cells := Function.update heap.cells place (some { element with next }) }

/-- `element->m_prev = prev` -/
def setPrev (heap : LinkedListHeap T) (place : Nat) (prev : Option Nat) :
    Except Fault (LinkedListHeap T) := do
  let element ← orUndefined (heap.cells place)
  return { heap with cells := Function.update heap.cells place (some { element with prev }) }

/-- `LinkedList::append` -/
def append (A : Ledger.Allocator) (list : LinkedList) (heap : LinkedListHeap T) (data : T) :
    Except Fault (LinkedList × LinkedListHeap T) := do
  let (newElement, heap) := heap.allocate A { data, next := none, prev := none }
  if list.head = none then
    return ({ head := some newElement, tail := some newElement, size := list.size + 1 }, heap)
  else
    let tail ← orUndefined list.tail
    let heap ← setNext heap tail (some newElement)
    let heap ← setPrev heap newElement (some tail)
    return ({ list with tail := some newElement, size := list.size + 1 }, heap)

/-- `LinkedList::prepend` -/
def prepend (A : Ledger.Allocator) (list : LinkedList) (heap : LinkedListHeap T) (data : T) :
    Except Fault (LinkedList × LinkedListHeap T) := do
  let (newElement, heap) := heap.allocate A { data, next := none, prev := none }
  match list.head with
  | none =>
    return ({ head := some newElement, tail := some newElement, size := list.size + 1 }, heap)
  | some head =>
    let heap ← setPrev heap head (some newElement)
    let heap ← setNext heap newElement (some head)
    return ({ list with head := some newElement, size := list.size + 1 }, heap)

/-- `head = head->m_next`, and the increment of the `int` that counts the rounds. -/
def advance {α : Type} (i : Nat) (element : LinkedListElement T) :
    Except (Leave α) (Option Nat) :=
  if i + 1 < 2 ^ 31 then .ok element.next else .error (.fault .undefined)

/-- What `remove` does to the element that it has found. -/
def unlink (list : LinkedList) (heap : LinkedListHeap T) (place : Nat)
    (element : LinkedListElement T) : Except Fault (LinkedList × LinkedListHeap T) := do
  let heap ← match element.prev with
    | none => .ok heap
    | some prev => setNext heap prev element.next
  let heap ← match element.next with
    | none => .ok heap
    | some next => setPrev heap next element.prev
  let heap ← orUndefined (heap.free place)
  return ({ list with size := list.size - 1 }, heap)

/-- One round of the loop of `remove`. -/
def removeRound (index : Nat) (list : LinkedList) (heap : LinkedListHeap T) (i : Nat) :
    Option Nat → Except (Leave (LinkedList × LinkedListHeap T)) (Option Nat)
  | none => .error (.returned (list, heap))
  | some head =>
    match heap.cells head with
    | none => .error (.fault .undefined)
    | some element =>
      if i = index then
        match unlink list heap head element with
        | .ok result => .error (.returned result)
        | .error fault => .error (.fault fault)
      else advance i element

/-- `LinkedList::remove` -/
def remove (list : LinkedList) (heap : LinkedListHeap T) (index : Nat) :
    Except Fault (LinkedList × LinkedListHeap T) :=
  if index ≥ list.size then .ok (list, heap)
  else
    match Loop.forRange (removeRound index list heap) index 0 list.head with
    | .ok _ => .ok (list, heap)
    | .error (.returned result) => .ok result
    | .error (.fault fault) => .error fault

/-- One round of the loop of `get`. -/
def getRound (index : Nat) (heap : LinkedListHeap T) (i : Nat) :
    Option Nat → Except (Leave (Except String T)) (Option Nat)
  | none => .error (.returned (.error "Index out of bounds!"))
  | some head =>
    match heap.cells head with
    | none => .error (.fault .undefined)
    | some element =>
      if i = index then .error (.returned (.ok element.data)) else advance i element

/-- `LinkedList::get`, which returns nothing behind its loop. -/
def get (list : LinkedList) (heap : LinkedListHeap T) (index : Nat) :
    Except Fault (Except String T) :=
  if index ≥ list.size then .ok (.error "Index out of bounds!")
  else
    match Loop.forRange (getRound index heap) index 0 list.head with
    | .ok _ => .error .undefined
    | .error (.returned result) => .ok result
    | .error (.fault fault) => .error fault

end LinkedList

/-! ## Programs with a list -/

inductive LinkedListCall (T : Type) where
  | append (data : T)
  | prepend (data : T)
  | remove (index : Nat)
  | get (index : Nat)
  | size
deriving DecidableEq

inductive LinkedListAnswer (T : Type) where
  | done
  | element (result : Except String T)
  | size (n : Nat)

/-- The list and the heap its elements are in. -/
structure LinkedListWorld (T : Type) where
  list : LinkedList
  heap : LinkedListHeap T

namespace LinkedListWorld

variable {T : Type}

def empty : LinkedListWorld T := { list := .empty, heap := .empty }

/-- The answer to a call and the list after it. -/
def call (A : Ledger.Allocator) (w : LinkedListWorld T) :
    LinkedListCall T → Except Fault (LinkedListAnswer T × LinkedListWorld T)
  | .append data => do
    let (list, heap) ← w.list.append A w.heap data
    return (.done, { list, heap })
  | .prepend data => do
    let (list, heap) ← w.list.prepend A w.heap data
    return (.done, { list, heap })
  | .remove index => do
    let (list, heap) ← w.list.remove w.heap index
    return (.done, { list, heap })
  | .get index => do
    let result ← w.list.get w.heap index
    return (.element result, w)
  | .size => .ok (.size w.list.size, w)

end LinkedListWorld

end MatteOS.Utils
