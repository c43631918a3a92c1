import MatteOS.Lib.Chain
import MatteOS.Lib.Ledger
import MatteOS.Lib.Loop
import MatteOS.Utils.Assertions

/-!
# Linked queues

`Utils::LinkedQueue` over the heap of its elements. An operation gives `none` where the
code follows a null or freed pointer, or stops at an assertion. Those that allocate or delete
elements run on a heap with a ledger, and their loops on fuel.
-/

namespace MatteOS.Utils

abbrev QueueElement (T : Type) := Chain.Node T

/-- The `QueueElement` objects by address. -/
abbrev QueueElements (T : Type) := Chain.Heap T

/-- The same, with what was allocated and deleted. -/
abbrev QueueHeap (T : Type) := Ledger.Heap (QueueElement T)

structure LinkedQueue where
  head : Option Nat
  tail : Option Nat
deriving DecidableEq

namespace LinkedQueue

variable {T : Type}

/-- `LinkedQueue()` -/
def empty : LinkedQueue := { head := none, tail := none }

/-- `LinkedQueue::append`; the new element is allocated at `place`. -/
def append (queue : LinkedQueue) (heap : QueueElements T) (place : Nat) (element : T) :
    Option (QueueElements T × LinkedQueue) :=
  let heap := Function.update heap place (some { element, next := none })
  if queue.head = none then some (heap, { head := some place, tail := some place })
  else do
    let tail ← queue.tail
    let heap ← Chain.setNext heap tail (some place)
    return (heap, { queue with tail := some place })

/-- `LinkedQueue::peek_first` -/
def peekFirst (queue : LinkedQueue) (heap : QueueElements T) : Option T := do
  let head ← queue.head
  let element ← heap head
  return element.element

/-- `LinkedQueue::rotate_left` -/
def rotateLeft (queue : LinkedQueue) (heap : QueueElements T) :
    Option (QueueElements T × LinkedQueue) :=
  match queue.head with
  | none => some (heap, queue)
  | some oldHead =>
    match heap oldHead with
    | none => none
    | some { next := none, .. } => some (heap, queue)
    | some { next := some head, .. } => do
      let tail ← queue.tail
      let heap ← Chain.setNext heap tail (some oldHead)
      let heap ← Chain.setNext heap oldHead none
      return (heap, { head := some head, tail := some oldHead })

/-- `LinkedQueue::is_empty` -/
def isEmpty (queue : LinkedQueue) : Bool := queue.head.isNone

/-- `LinkedQueue::peek_last` -/
def peekLast (queue : LinkedQueue) (heap : QueueElements T) : Option T := do
  let tail ← queue.tail
  let element ← heap tail
  return element.element

/-! ## Elements that come and go -/

/-- `new QueueElement<T>(element)`, at the place that the allocator picks, and the rest of
`LinkedQueue::append`. -/
def appendNew (A : Ledger.Allocator) (queue : LinkedQueue) (heap : QueueHeap T) (element : T) :
    Except Fault (LinkedQueue × QueueHeap T) := do
  let place := A.place heap.log
  let (cells, queue) ← orUndefined (queue.append heap.cells place element)
  return (queue, { cells, log := .allocated place :: heap.log })

/-- `LinkedQueue::pop` -/
def pop (queue : LinkedQueue) (heap : QueueHeap T) :
    Except Fault (T × LinkedQueue × QueueHeap T) := do
  runtimeAssert (!queue.isEmpty) "Cannot pop from empty queue"
  let oldHead ← orUndefined queue.head
  let node ← orUndefined (heap.cells oldHead)
  let heap ← orUndefined (heap.free oldHead)
  let tail := if node.next = none then none else queue.tail
  return (node.element, { head := node.next, tail }, heap)

/-- One round of the loop of `clear`. -/
def clearRound : QueueHeap T × Option Nat →
    Loop.Next (QueueHeap T × Option Nat) (Except Fault (QueueHeap T))
  | (heap, none) => .done (.ok heap)
  | (heap, some current) =>
    match heap.cells current, heap.free current with
    | some node, some heap => .again (heap, node.next)
    | _, _ => .done (.error .undefined)

/-- `LinkedQueue::clear`, on `fuel` rounds of its loop. -/
def clear (fuel : Nat) (queue : LinkedQueue) (heap : QueueHeap T) :
    Except Fault (LinkedQueue × QueueHeap T) := do
  let heap ← (Loop.run clearRound fuel (heap, queue.head)).getD (.error .undefined)
  return (.empty, heap)

/-- One round of the loop that appends the elements of another queue. -/
def copyRound (A : Ledger.Allocator) : (LinkedQueue × QueueHeap T) × Option Nat →
    Loop.Next ((LinkedQueue × QueueHeap T) × Option Nat) (Except Fault (LinkedQueue × QueueHeap T))
  | (state, none) => .done (.ok state)
  | ((queue, heap), some current) =>
    match heap.cells current with
    | none => .done (.error .undefined)
    | some node =>
      match queue.appendNew A heap node.element with
      | .error fault => .done (.error fault)
      | .ok (queue, heap) =>
        -- the link is read after the new element is in place
        match heap.cells current with
        | none => .done (.error .undefined)
        | some node => .again ((queue, heap), node.next)

/-- Append the elements of another queue, on `fuel` rounds of the loop. -/
def appendAll (A : Ledger.Allocator) (fuel : Nat) (queue other : LinkedQueue) (heap : QueueHeap T) :
    Except Fault (LinkedQueue × QueueHeap T) :=
  (Loop.run (copyRound A) fuel ((queue, heap), other.head)).getD (.error .undefined)

/-- `LinkedQueue(const LinkedQueue&)` -/
def copyConstruct (A : Ledger.Allocator) (fuel : Nat) (other : LinkedQueue) (heap : QueueHeap T) :
    Except Fault (LinkedQueue × QueueHeap T) :=
  empty.appendAll A fuel other heap

/-- `operator=(const LinkedQueue&)` where the queues are different ones. -/
def copyAssign (A : Ledger.Allocator) (fuel : Nat) (queue other : LinkedQueue)
    (heap : QueueHeap T) : Except Fault (LinkedQueue × QueueHeap T) := do
  let (queue, heap) ← queue.clear fuel heap
  queue.appendAll A fuel other heap

/-- `operator=(LinkedQueue&&)` where the queues are different ones: this queue and the other one
afterwards. -/
def moveAssign (fuel : Nat) (queue other : LinkedQueue) (heap : QueueHeap T) :
    Except Fault ((LinkedQueue × LinkedQueue) × QueueHeap T) := do
  let (_, heap) ← queue.clear fuel heap
  return ((other, empty), heap)

end LinkedQueue

/-! ## Programs with queues -/

/-- The queues of a program, by variable, and the heap their elements are in. -/
structure QueueWorld (T : Type) where
  queues : Nat → Option LinkedQueue
  heap : QueueHeap T

/-- A call of a program. `append` is either overload; `destroy` ends the variable. -/
inductive QueueCall (T : Type) where
  | create (x : Nat)
  | copyConstruct (x y : Nat)
  | moveConstruct (x y : Nat)
  | append (x : Nat) (element : T)
  | pop (x : Nat)
  | peekFirst (x : Nat)
  | peekLast (x : Nat)
  | isEmpty (x : Nat)
  | rotateLeft (x : Nat)
  | clear (x : Nat)
  | copyAssign (x y : Nat)
  | moveAssign (x y : Nat)
  | destroy (x : Nat)
deriving DecidableEq

inductive QueueAnswer (T : Type) where
  | done
  | element (element : T)
  | isEmpty (empty : Bool)
deriving DecidableEq

namespace QueueWorld

variable {T : Type}

def empty : QueueWorld T := { queues := fun _ => none, heap := .empty }

def queue (w : QueueWorld T) (x : Nat) : Except Fault LinkedQueue := orUndefined (w.queues x)

def set (w : QueueWorld T) (x : Nat) (queue : LinkedQueue) (heap : QueueHeap T) : QueueWorld T where
  queues := Function.update w.queues x (some queue)
  heap := heap

/-- The answer to a call and the queues after it. -/
def call (A : Ledger.Allocator) (fuel : Nat) (w : QueueWorld T) :
    QueueCall T → Except Fault (QueueAnswer T × QueueWorld T)
  | .create x => .ok (.done, w.set x .empty w.heap)
  | .copyConstruct x y => do
    let other ← w.queue y
    let (queue, heap) ← other.copyConstruct A fuel w.heap
    return (.done, w.set x queue heap)
  | .moveConstruct x y => do
    let other ← w.queue y
    return (.done, (w.set x other w.heap).set y .empty w.heap)
  | .append x element => do
    let queue ← w.queue x
    let (queue, heap) ← queue.appendNew A w.heap element
    return (.done, w.set x queue heap)
  | .pop x => do
    let queue ← w.queue x
    let (element, queue, heap) ← queue.pop w.heap
    return (.element element, w.set x queue heap)
  | .peekFirst x => do
    let queue ← w.queue x
    runtimeAssert (!queue.isEmpty) "Cannot peek from empty queue"
    let element ← orUndefined (queue.peekFirst w.heap.cells)
    return (.element element, w)
  | .peekLast x => do
    let queue ← w.queue x
    runtimeAssert (!queue.isEmpty) "Cannot peek from empty queue"
    let element ← orUndefined (queue.peekLast w.heap.cells)
    return (.element element, w)
  | .isEmpty x => do
    let queue ← w.queue x
    return (.isEmpty queue.isEmpty, w)
  | .rotateLeft x => do
    let queue ← w.queue x
    let (cells, queue) ← orUndefined (queue.rotateLeft w.heap.cells)
    return (.done, w.set x queue { w.heap with cells })
  | .clear x => do
    let queue ← w.queue x
    let (queue, heap) ← queue.clear fuel w.heap
    return (.done, w.set x queue heap)
  | .copyAssign x y => do
    let queue ← w.queue x
    let other ← w.queue y
    if x = y then return (.done, w)
    else
      let (queue, heap) ← queue.copyAssign A fuel other w.heap
      return (.done, w.set x queue heap)
  | .moveAssign x y => do
    let queue ← w.queue x
    let other ← w.queue y
    if x = y then return (.done, w)
    else
      let ((queue, other), heap) ← queue.moveAssign fuel other w.heap
      return (.done, (w.set x queue heap).set y other heap)
  | .destroy x => do
    let queue ← w.queue x
    let (_, heap) ← queue.clear fuel w.heap
    return (.done, { queues := Function.update w.queues x none, heap })

end QueueWorld

end MatteOS.Utils
