import Mathlib.Data.List.Nodup
import Mathlib.Logic.Function.Basic
import Mathlib.Tactic.Common

/-!
# Chains of linked nodes

Nodes live at addresses of a heap, and each holds the address of the next one.
`Segment heap start entries stop` says that the nodes from `start` up to `stop` hold
`entries`, in order. Segments compose (`segment_append`), and depend on no node
outside them (`Segment.congr`).
-/

namespace Chain

structure Node (α : Type) where
  element : α
  next : Option Nat

/-- The allocated nodes by address. -/
abbrev Heap (α : Type) := Nat → Option (Node α)

variable {α : Type}

/-- Set the link of the node at `place`, which must be allocated. -/
def setNext (heap : Heap α) (place : Nat) (next : Option Nat) : Option (Heap α) :=
  match heap place with
  | none => none
  | some node => some (Function.update heap place (some { node with next := next }))

/-- The nodes from `start` up to `stop` are allocated at the places of `entries` and hold its
elements. -/
def Segment (heap : Heap α) : Option Nat → List (Nat × α) → Option Nat → Prop
  | start, [], stop => start = stop
  | start, (place, element) :: entries, stop =>
    start = some place ∧ ∃ next, heap place = some ⟨element, next⟩ ∧
      Segment heap next entries stop

/-- The places of a chain. -/
abbrev places (entries : List (Nat × α)) : List Nat := entries.map Prod.fst

/-- The elements of a chain. -/
abbrev elements (entries : List (Nat × α)) : List α := entries.map Prod.snd

theorem mem_places_concat {entries : List (Nat × α)} {place p : Nat} {element : α} :
    p ∈ places (entries ++ [(place, element)]) ↔ p ∈ places entries ∨ p = place := by
  simp [places]

theorem segment_append {heap : Heap α} {entries entries' : List (Nat × α)} :
    ∀ {start stop : Option Nat}, Segment heap start (entries ++ entries') stop ↔
      ∃ middle, Segment heap start entries middle ∧ Segment heap middle entries' stop := by
  induction entries with
  | nil => simp [Segment]
  | cons entry entries ih =>
    intro start stop
    simp only [List.cons_append, Segment, ih]
    constructor
    · rintro ⟨rfl, next, node, middle, left, right⟩
      exact ⟨middle, ⟨rfl, next, node, left⟩, right⟩
    · rintro ⟨middle, ⟨rfl, next, node, left⟩, right⟩
      exact ⟨rfl, next, node, middle, left, right⟩

/-- A segment depends on its own nodes only. -/
theorem Segment.congr {heap heap' : Heap α} {entries : List (Nat × α)} {stop : Option Nat} :
    ∀ {start : Option Nat}, (∀ p ∈ places entries, heap' p = heap p) →
      Segment heap start entries stop → Segment heap' start entries stop := by
  induction entries with
  | nil => exact fun _ h => h
  | cons entry entries ih =>
    rintro start same ⟨rfl, next, node, rest⟩
    refine ⟨rfl, next, ?_, ih (fun p mem => same p (by simp [mem])) rest⟩
    rw [same entry.1 (by simp), node]

/-- Updating a node outside a segment leaves the segment. -/
theorem Segment.update {heap : Heap α} {entries : List (Nat × α)} {start stop : Option Nat}
    {place : Nat} {node : Option (Node α)} (outside : place ∉ places entries)
    (segment : Segment heap start entries stop) :
    Segment (Function.update heap place node) start entries stop :=
  segment.congr fun _ mem => Function.update_of_ne (ne_of_mem_of_not_mem mem outside) _ _

/-- The last node of a segment can be linked elsewhere. -/
theorem Segment.relink {heap : Heap α} {entries : List (Nat × α)} {start stop : Option Nat}
    {place : Nat} {element : α} (distinct : (places (entries ++ [(place, element)])).Nodup)
    (segment : Segment heap start (entries ++ [(place, element)]) stop) (next : Option Nat) :
    ∃ heap', setNext heap place next = some heap' ∧
      Segment heap' start (entries ++ [(place, element)]) next ∧
      ∀ p, p ≠ place → heap' p = heap p := by
  obtain ⟨middle, front, rfl, after, node, -⟩ := segment_append.1 segment
  have outside : place ∉ places entries := by
    rw [places, List.map_append, List.nodup_append] at distinct
    intro mem
    exact distinct.2.2 place mem place (by simp) rfl
  refine ⟨Function.update heap place (some ⟨element, next⟩), by simp [setNext, node],
    segment_append.2 ⟨some place, front.update outside, rfl, next, by simp, rfl⟩, ?_⟩
  intro p ne
  exact Function.update_of_ne ne _ _

/-- A new node before a segment. -/
theorem Segment.cons {heap : Heap α} {entries : List (Nat × α)} {start stop : Option Nat}
    {place : Nat} (outside : place ∉ places entries) (segment : Segment heap start entries stop)
    (element : α) : Segment (Function.update heap place (some ⟨element, start⟩)) (some place)
      ((place, element) :: entries) stop :=
  ⟨rfl, start, Function.update_self _ _ _, segment.update outside⟩

/-- A new node behind a segment, to which the last node is linked. -/
theorem Segment.concat {heap : Heap α} {entries : List (Nat × α)} {start stop : Option Nat}
    {last place : Nat} {x : α} (distinct : (places (entries ++ [(last, x)])).Nodup)
    (outside : place ∉ places (entries ++ [(last, x)]))
    (segment : Segment heap start (entries ++ [(last, x)]) stop) (element : α)
    (next : Option Nat) :
    Segment (Function.update (Function.update heap place (some ⟨element, next⟩)) last
      (some ⟨x, some place⟩)) start (entries ++ [(last, x)] ++ [(place, element)]) next := by
  obtain ⟨middle, front, rfl, -⟩ := segment_append.1 segment
  have notLast : last ∉ places entries := by
    rw [places, List.map_append, List.nodup_append] at distinct
    intro mem
    exact distinct.2.2 last mem last (by simp) rfl
  simp only [places, List.map_append, List.map_cons, List.map_nil, List.mem_append,
    List.mem_singleton, not_or] at outside
  refine segment_append.2 ⟨some place, segment_append.2 ⟨some last,
    (front.update outside.1).update notLast, rfl, some place, Function.update_self _ _ _, rfl⟩,
    rfl, next, ?_, rfl⟩
  rw [Function.update_of_ne outside.2, Function.update_self]

/-- The first node of a segment. -/
theorem Segment.head {heap : Heap α} {entries : List (Nat × α)} {start stop : Option Nat}
    {place : Nat} {element : α} (segment : Segment heap start ((place, element) :: entries) stop) :
    start = some place ∧ ∃ next, heap place = some ⟨element, next⟩ ∧
      Segment heap next entries stop := segment

/-- A start and the null pointer determine the chain between them. -/
theorem Segment.unique {heap : Heap α} {entries : List (Nat × α)} :
    ∀ {entries' : List (Nat × α)} {start : Option Nat}, Segment heap start entries none →
      Segment heap start entries' none → entries = entries' := by
  induction entries with
  | nil =>
    rintro entries' start rfl segment'
    cases entries' with
    | nil => rfl
    | cons entry entries' => cases segment'.1
  | cons entry entries ih =>
    rintro entries' start ⟨rfl, next, node, rest⟩ segment'
    cases entries' with
    | nil => cases segment'
    | cons entry' entries' =>
      obtain ⟨place, next', node', rest'⟩ := segment'
      rw [← Option.some.inj place, node] at node'
      obtain ⟨element, rfl⟩ : entry.2 = entry'.2 ∧ next = next' := by simpa using node'
      rw [ih rest rest', Prod.ext (Option.some.inj place) element]

/-- The nodes of a segment are allocated. -/
theorem Segment.notMem_places {heap : Heap α} {entries : List (Nat × α)} {start stop : Option Nat}
    (segment : Segment heap start entries stop) {place : Nat} (free : heap place = none) :
    place ∉ places entries := by
  induction entries generalizing start with
  | nil => simp
  | cons entry entries ih =>
    obtain ⟨-, next, node, rest⟩ := segment
    have ne : place ≠ entry.1 := by
      rintro rfl
      simp [free] at node
    simp only [places, List.map_cons, List.mem_cons, not_or]
    exact ⟨ne, ih rest⟩

theorem Segment.isSome {heap : Heap α} {entries : List (Nat × α)} {start stop : Option Nat}
    (segment : Segment heap start entries stop) {place : Nat} (mem : place ∈ places entries) :
    (heap place).isSome := by
  by_contra free
  exact segment.notMem_places (by simpa using free) mem

/-- Only the empty chain starts at the null pointer. -/
theorem Segment.start_eq_none {heap : Heap α} {entries : List (Nat × α)} {start : Option Nat}
    (segment : Segment heap start entries none) : start = none ↔ entries = [] := by
  cases entries with
  | nil => simpa [Segment] using segment
  | cons entry entries => simp [segment.1]

end Chain
