import MatteOS.Utils.LinkedQueue
import Mathlib.Data.List.Rotate

/-!
# Linked queues hold lists

`Holds queue heap entries`: the chain from the head holds `entries`, and the tail is its
last element. `append` adds at the end, and `rotateLeft` is `List.rotate 1`.
-/

namespace MatteOS.Utils.LinkedQueue

open Chain

variable {T : Type}

/-- The queue is the list of `entries`: an element of the heap, and what it holds, for each. -/
structure Holds (queue : LinkedQueue) (heap : QueueElements T) (entries : List (Nat × T)) :
    Prop where
  chain : Segment heap queue.head entries none
  distinct : (places entries).Nodup
  last : queue.tail = entries.getLast?.map Prod.fst

theorem holds_empty (heap : QueueElements T) : LinkedQueue.empty.Holds heap [] :=
  { chain := rfl, distinct := List.nodup_nil, last := rfl }

namespace Holds

variable {queue : LinkedQueue} {heap : QueueElements T} {entries : List (Nat × T)}

theorem peekFirst (holds : queue.Holds heap entries) :
    queue.peekFirst heap = (elements entries).head? := by
  have chain := holds.chain
  cases entries with
  | nil =>
    simp only [Segment] at chain
    simp [LinkedQueue.peekFirst, chain]
  | cons entry entries =>
    obtain ⟨head, next, node, -⟩ := chain
    simp [LinkedQueue.peekFirst, head, node]

/-- The last element is the one of the tail. -/
theorem peekLast (holds : queue.Holds heap entries) :
    queue.peekLast heap = (elements entries).getLast? := by
  obtain ⟨chain, -, last⟩ := holds
  rcases List.eq_nil_or_concat' entries with rfl | ⟨front, ⟨tail, x⟩, rfl⟩
  · simp [LinkedQueue.peekLast, last]
  · obtain ⟨_, -, -, next, node, -⟩ := segment_append.1 chain
    simp [LinkedQueue.peekLast, last, node]

theorem head_eq_none_iff (holds : queue.Holds heap entries) : queue.head = none ↔ entries = [] :=
  holds.chain.start_eq_none

theorem tail_eq_none_iff (holds : queue.Holds heap entries) : queue.tail = none ↔ entries = [] := by
  rw [holds.last]
  simp

theorem isEmpty (holds : queue.Holds heap entries) : queue.isEmpty = entries.isEmpty := by
  rw [Bool.eq_iff_iff, LinkedQueue.isEmpty, Option.isNone_iff_eq_none, holds.head_eq_none_iff,
    List.isEmpty_iff]

/-- A queue depends on its own elements only. -/
theorem congr {heap' : QueueElements T} (holds : queue.Holds heap entries)
    (same : ∀ p ∈ places entries, heap' p = heap p) : queue.Holds heap' entries :=
  { holds with chain := holds.chain.congr same }

/-- An element that is allocated anew is added at the end. -/
theorem append (holds : queue.Holds heap entries) {place : Nat} (fresh : heap place = none)
    (element : T) : ∃ heap' queue', queue.append heap place element = some (heap', queue') ∧
      queue'.Holds heap' (entries ++ [(place, element)]) ∧
      ∀ p, p ≠ place → p ∉ places entries → heap' p = heap p := by
  have outside := holds.chain.notMem_places fresh
  have distinct : (places (entries ++ [(place, element)])).Nodup := by
    rw [places, List.map_append, List.nodup_append]
    refine ⟨holds.distinct, by simp, ?_⟩
    rintro p mem q last rfl
    simp only [List.map_cons, List.map_nil, List.mem_singleton] at last
    exact outside (last ▸ mem)
  have chain : Segment (Function.update heap place (some ⟨element, none⟩)) _ _ _ :=
    holds.chain.update outside
  rcases List.eq_nil_or_concat' entries with rfl | ⟨front, ⟨tail, x⟩, rfl⟩
  · have head : queue.head = none := holds.chain
    refine ⟨_, _, by rw [LinkedQueue.append, if_pos head], ⟨⟨rfl, none, by simp, rfl⟩, distinct, rfl⟩,
      fun p ne _ => Function.update_of_ne ne _ _⟩
  · have head : queue.head ≠ none := by
      intro null
      simpa using holds.chain.start_eq_none.1 null
    have last : queue.tail = some tail := by simpa using holds.last
    obtain ⟨heap', linked, chain', same⟩ := chain.relink holds.distinct (some place)
    have ne : tail ≠ place := fun eq => outside (by simp [places, eq])
    refine ⟨heap', { queue with tail := some place }, by
      simp [LinkedQueue.append, head, last, linked], ⟨segment_append.2 ⟨some place, chain', rfl,
      none, ?_, rfl⟩, distinct, by simp⟩, ?_⟩
    · rw [same place ne.symm, Function.update_self]
    · intro p new old
      rw [same p (fun eq => old (by simp [places, eq])), Function.update_of_ne new]

/-- `rotate_left` moves the first element to the end. -/
theorem rotateLeft (holds : queue.Holds heap entries) :
    ∃ heap' queue', queue.rotateLeft heap = some (heap', queue') ∧
      queue'.Holds heap' (entries.rotate 1) ∧ ∀ p ∉ places entries, heap' p = heap p := by
  obtain ⟨chain, distinct, last⟩ := holds
  match entries with
  | [] =>
    simp only [Segment] at chain
    exact ⟨heap, queue, by simp [LinkedQueue.rotateLeft, chain],
      ⟨by simpa [Segment] using chain, distinct, last⟩, fun _ _ => rfl⟩
  | [(p, x)] =>
    obtain ⟨head, next, node, rfl⟩ := chain
    rw [List.rotate_singleton]
    exact ⟨heap, queue, by simp [LinkedQueue.rotateLeft, head, node],
      { chain := ⟨head, none, node, rfl⟩, distinct, last }, fun _ _ => rfl⟩
  | (p, x) :: (q, y) :: rest =>
    obtain ⟨head, next, node, chain⟩ := chain
    have second : next = some q := chain.1
    subst second
    obtain ⟨front, ⟨l, z⟩, split⟩ :=
      (List.eq_nil_or_concat' ((q, y) :: rest)).resolve_left (by simp)
    have tail : queue.tail = some l := by
      rw [last, split]
      simp [List.getLast?_cons]
    rw [split] at chain distinct ⊢
    have distinct' : (places (front ++ [(l, z)] ++ [(p, x)])).Nodup := by
      refine List.Perm.nodup ?_ distinct
      exact ((List.perm_append_singleton _ _).symm).map _
    have ne : p ≠ l := by
      intro eq
      simp [places, eq] at distinct
    -- the last element is linked to the old head, and the old head to nothing
    obtain ⟨heap₁, linked, chain₁, same₁⟩ :=
      chain.relink (List.nodup_cons.1 distinct).2 (some p)
    have old : heap₁ p = some ⟨x, some q⟩ := by rw [same₁ p ne, node]
    have chain' : Segment heap₁ (some q) (front ++ [(l, z)] ++ [(p, x)]) (some q) :=
      segment_append.2 ⟨some p, chain₁, rfl, some q, old, rfl⟩
    obtain ⟨heap₂, unlinked, chain₂, same₂⟩ := chain'.relink distinct' none
    refine ⟨heap₂, { head := some q, tail := some p }, by
      simp [LinkedQueue.rotateLeft, head, node, tail, linked, unlinked],
      ⟨by simpa [List.rotate_cons_succ] using chain₂,
        by simpa [List.rotate_cons_succ] using distinct', by simp [List.rotate_cons_succ]⟩, ?_⟩
    intro a outside
    simp only [places, List.map_cons, List.map_append, List.map_nil, List.mem_cons,
      List.mem_append, not_or] at outside
    rw [same₂ a outside.1, same₁ a outside.2.2.1]

end Holds

end MatteOS.Utils.LinkedQueue
