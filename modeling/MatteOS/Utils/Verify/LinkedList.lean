import MatteOS.Utils.LinkedList
import MatteOS.Lib.Chain
import MatteOS.Lib.Transition

/-!
# Linked lists and sequences

The two directions of a list are two chains (`forward`, `backward`), and `Represents` says that they
hold the same elements in opposite orders. `append` and `prepend` keep it. `remove` and `get` do
nothing right below the size, so that a program agrees with sequences as long as it calls them
with larger indices only (`linkedLists_agree_iff`).
-/

namespace MatteOS.Utils

open Chain Transition

variable {T : Type}

namespace LinkedList

/-- The elements with their links to the next ones. -/
def forward (cells : Nat → Option (LinkedListElement T)) : Chain.Heap T :=
  fun p => (cells p).map fun element => ⟨element.data, element.next⟩

/-- The elements with their links to the previous ones. -/
def backward (cells : Nat → Option (LinkedListElement T)) : Chain.Heap T :=
  fun p => (cells p).map fun element => ⟨element.data, element.prev⟩

/-- The links from the head and those from the tail hold the same elements, as many as the size
says. -/
structure Represents (list : LinkedList) (heap : LinkedListHeap T) (entries : List (Nat × T)) :
    Prop where
  forward : Segment (forward heap.cells) list.head entries none
  backward : Segment (backward heap.cells) list.tail entries.reverse none
  distinct : (places entries).Nodup
  size : list.size = entries.length
  tracks : heap.Tracks

variable {A : Ledger.Allocator} {list : LinkedList} {heap heap' : LinkedListHeap T}
  {entries : List (Nat × T)} {element : LinkedListElement T} {place : Nat} {link : Option Nat}

theorem empty_represents : LinkedList.empty.Represents (.empty : LinkedListHeap T) [] :=
  ⟨rfl, rfl, List.nodup_nil, rfl, Ledger.Heap.tracks_empty⟩

/-! ## Links -/

section

variable {cells : Nat → Option (LinkedListElement T)}

theorem forward_update : forward (Function.update cells place (some element)) =
    Function.update (forward cells) place (some ⟨element.data, element.next⟩) := by
  funext p
  by_cases same : p = place <;> simp [forward, same]

theorem backward_update : backward (Function.update cells place (some element)) =
    Function.update (backward cells) place (some ⟨element.data, element.prev⟩) := by
  funext p
  by_cases same : p = place <;> simp [backward, same]

theorem forward_eq (cell : cells place = some element) :
    forward cells place = some ⟨element.data, element.next⟩ := by
  rw [forward, cell, Option.map_some]

theorem backward_eq (cell : cells place = some element) :
    backward cells place = some ⟨element.data, element.prev⟩ := by
  rw [backward, cell, Option.map_some]

theorem forward_eq_none : forward cells place = none ↔ cells place = none := Option.map_eq_none_iff

end

/-- A new link to the next element leaves the links back. -/
theorem setNext_eq (tracks : heap.Tracks) (cell : heap.cells place = some element)
    (link : Option Nat) :
    ∃ heap', setNext heap place link = .ok heap' ∧ heap'.Tracks ∧
      forward heap'.cells = Function.update (forward heap.cells) place
        (some ⟨element.data, link⟩) ∧ backward heap'.cells = backward heap.cells := by
  refine ⟨{ heap with
      cells := Function.update heap.cells place (some { element with next := link }) },
    by rw [setNext, cell, orUndefined_some, ok_bind]; rfl, tracks.setCells fun p => ?_,
    forward_update, ?_⟩
  · by_cases same : p = place <;> simp [same, cell]
  · simp only [backward_update, Function.update_eq_self_iff, backward_eq cell]

/-- A new link to the previous element leaves the links forward. -/
theorem setPrev_eq (tracks : heap.Tracks) (cell : heap.cells place = some element)
    (link : Option Nat) :
    ∃ heap', setPrev heap place link = .ok heap' ∧ heap'.Tracks ∧
      backward heap'.cells = Function.update (backward heap.cells) place
        (some ⟨element.data, link⟩) ∧ forward heap'.cells = forward heap.cells := by
  refine ⟨{ heap with
      cells := Function.update heap.cells place (some { element with prev := link }) },
    by rw [setPrev, cell, orUndefined_some, ok_bind]; rfl, tracks.setCells fun p => ?_,
    backward_update, ?_⟩
  · by_cases same : p = place <;> simp [same, cell]
  · simp only [forward_update, Function.update_eq_self_iff, forward_eq cell]

/-- The element of a node in the links forward. -/
theorem exists_of_forward {x : T} (node : forward heap.cells place = some ⟨x, link⟩) :
    ∃ element, heap.cells place = some element ∧ element.data = x := by
  obtain ⟨element, cell, same⟩ := Option.map_eq_some_iff.1 node
  exact ⟨element, cell, congrArg Chain.Node.element same⟩

/-- The element of a node in the links back. -/
theorem exists_of_backward {x : T} (node : backward heap.cells place = some ⟨x, link⟩) :
    ∃ element, heap.cells place = some element ∧ element.data = x := by
  obtain ⟨element, cell, same⟩ := Option.map_eq_some_iff.1 node
  exact ⟨element, cell, congrArg Chain.Node.element same⟩

/-! ## Adding -/

/-- A place without a cell is not in the list. -/
theorem Represents.outside (represents : list.Represents heap entries)
    (free : heap.cells place = none) : place ∉ places entries :=
  represents.forward.notMem_places (forward_eq_none.2 free)

theorem nodup_concat {x : T} (distinct : (places entries).Nodup) (outside : place ∉ places entries) :
    (places (entries ++ [(place, x)])).Nodup := by
  rw [places, List.map_append, List.nodup_append]
  refine ⟨distinct, by simp, fun p mem q last eq => outside ?_⟩
  simp only [List.map_cons, List.map_nil, List.mem_singleton] at last
  rwa [← last, ← eq]

/-- Either way of adding the first element. -/
theorem singleton_represents (tracks : heap.Tracks) {x : T} (one : list.size = 0)
    (cell : heap.cells place = some ⟨x, none, none⟩) :
    LinkedList.Represents ⟨some place, some place, list.size + 1⟩ heap [(place, x)] :=
  ⟨⟨rfl, none, forward_eq cell, rfl⟩, ⟨rfl, none, backward_eq cell, rfl⟩, List.nodup_singleton _,
    by simp [one], tracks⟩

theorem append_represents (represents : list.Represents heap entries) (A : Ledger.Allocator)
    (x : T) : ∃ list' heap' place, list.append A heap x = .ok (list', heap') ∧
      list'.Represents heap' (entries ++ [(place, x)]) := by
  obtain ⟨new, heap₁, allocated, free, cells₁, tracks₁⟩ :=
    represents.tracks.allocate A ⟨x, none, none⟩
  have outside := represents.outside free
  have cell₁ : heap₁.cells new = some ⟨x, none, none⟩ := by rw [cells₁, Function.update_self]
  rcases List.eq_nil_or_concat' entries with rfl | ⟨front, ⟨tail, y⟩, rfl⟩
  · have head : list.head = none := represents.forward
    refine ⟨_, heap₁, new, ?_, singleton_represents tracks₁ represents.size cell₁⟩
    rw [append, allocated]
    exact if_pos head
  · have head : list.head ≠ none := fun null => by
      simpa using represents.forward.start_eq_none.1 null
    obtain ⟨_, -, -, next, node, -⟩ := segment_append.1 represents.forward
    obtain ⟨element, cell, value⟩ := exists_of_forward node
    have back := represents.backward
    rw [List.reverse_append] at back
    have last : list.tail = some tail := back.1
    have ne : tail ≠ new := by
      rintro rfl
      rw [cell] at free
      cases free
    -- the last element is linked to the new one, and the new one back
    obtain ⟨heap₂, linked, tracks₂, forward₂, backward₂⟩ := setNext_eq tracks₁
      (by rw [cells₁, Function.update_of_ne ne, cell]) (some new)
    have node₂ : backward heap₂.cells new = some ⟨x, none⟩ := by
      rw [backward₂]
      exact backward_eq cell₁
    obtain ⟨element', cell', value'⟩ := exists_of_backward node₂
    obtain ⟨heap₃, linked', tracks₃, backward₃, forward₃⟩ := setPrev_eq tracks₂ cell' (some tail)
    refine ⟨{ list with tail := some new, size := list.size + 1 }, heap₃, new, ?_, ?_, ?_,
      nodup_concat represents.distinct outside, by simpa using represents.size, tracks₃⟩
    · rw [append, allocated]
      dsimp only
      rw [if_neg head, last, orUndefined_some, ok_bind, linked, ok_bind, linked', ok_bind]
      rfl
    · rw [forward₃, forward₂, value, cells₁, forward_update]
      exact represents.forward.concat represents.distinct outside x none
    · rw [backward₃, backward₂, value', cells₁, backward_update, Function.update_idem,
        List.reverse_append, ← last]
      exact represents.backward.cons (by simpa [places, and_comm] using outside) x

theorem prepend_represents (represents : list.Represents heap entries) (A : Ledger.Allocator)
    (x : T) : ∃ list' heap' place, list.prepend A heap x = .ok (list', heap') ∧
      list'.Represents heap' ((place, x) :: entries) := by
  obtain ⟨new, heap₁, allocated, free, cells₁, tracks₁⟩ :=
    represents.tracks.allocate A ⟨x, none, none⟩
  have outside := represents.outside free
  have cell₁ : heap₁.cells new = some ⟨x, none, none⟩ := by rw [cells₁, Function.update_self]
  cases entries with
  | nil =>
    have head : list.head = none := represents.forward
    refine ⟨_, heap₁, new, ?_, singleton_represents tracks₁ represents.size cell₁⟩
    rw [prepend, allocated, head]
    rfl
  | cons entry entries =>
    obtain ⟨first, y⟩ := entry
    obtain ⟨head, next, node, -⟩ := represents.forward
    obtain ⟨element, cell, value⟩ := exists_of_forward node
    have ne : first ≠ new := by
      rintro rfl
      rw [cell] at free
      cases free
    -- the first element is linked back to the new one, and the new one to it
    obtain ⟨heap₂, linked, tracks₂, backward₂, forward₂⟩ := setPrev_eq tracks₁
      (by rw [cells₁, Function.update_of_ne ne, cell]) (some new)
    have node₂ : forward heap₂.cells new = some ⟨x, none⟩ := by
      rw [forward₂]
      exact forward_eq cell₁
    obtain ⟨element', cell', value'⟩ := exists_of_forward node₂
    obtain ⟨heap₃, linked', tracks₃, forward₃, backward₃⟩ := setNext_eq tracks₂ cell' (some first)
    refine ⟨{ list with head := some new, size := list.size + 1 }, heap₃, new, ?_, ?_, ?_,
      List.nodup_cons.2 ⟨outside, represents.distinct⟩, by simpa using represents.size, tracks₃⟩
    · rw [prepend, allocated, head]
      dsimp only
      rw [linked, ok_bind, linked', ok_bind]
      rfl
    · rw [forward₃, forward₂, value', cells₁, forward_update, Function.update_idem, ← head]
      exact represents.forward.cons outside x
    · rw [backward₃, backward₂, value, cells₁, backward_update, List.reverse_cons,
        List.reverse_cons]
      have back := represents.backward
      rw [List.reverse_cons] at back
      refine back.concat ?_ (by simpa [places, and_comm] using outside) x none
      rw [← List.reverse_cons, places, List.map_reverse]
      exact List.nodup_reverse.2 represents.distinct

/-! ## The loops that stop too early -/

/-- A round that does not look at the index: it returns at the end, and passes by an element. -/
def passRound {α : Type} (stop : α) (heap : LinkedListHeap T) (i : Nat) :
    Option Nat → Except (Leave α) (Option Nat)
  | none => .error (.returned stop)
  | some head =>
    match heap.cells head with
    | none => .error (.fault .undefined)
    | some element => advance i element

theorem passRound_error {α : Type} {stop : α} {i : Nat} {head : Option Nat} {leave : Leave α}
    (failed : passRound stop heap i head = .error leave) :
    leave = .returned stop ∨ leave = .fault .undefined := by
  unfold passRound at failed
  split at failed
  · exact .inl (Except.error.inj failed).symm
  · split at failed
    · exact .inr (Except.error.inj failed).symm
    · unfold advance at failed
      split_ifs at failed
      exact .inr (Except.error.inj failed).symm

/-- A round of `remove` before the index does not find it. -/
theorem removeRound_eq {index i : Nat} (before : i < index) (head : Option Nat) :
    removeRound index list heap i head = passRound (list, heap) heap i head := by
  cases head with
  | none => rfl
  | some head =>
    cases cell : heap.cells head with
    | none => simp only [removeRound, passRound, cell]
    | some element => simp only [removeRound, passRound, cell, if_neg (Nat.ne_of_lt before)]

/-- A round of `get` before the index does not find it. -/
theorem getRound_eq {index i : Nat} (before : i < index) (head : Option Nat) :
    getRound index heap i head = passRound (.error "Index out of bounds!") heap i head := by
  cases head with
  | none => rfl
  | some head =>
    cases cell : heap.cells head with
    | none => simp only [getRound, passRound, cell]
    | some element => simp only [getRound, passRound, cell, if_neg (Nat.ne_of_lt before)]

/-- `remove` removes nothing, whatever the index. -/
theorem remove_eq (list : LinkedList) (heap : LinkedListHeap T) (index : Nat) :
    list.remove heap index = .ok (list, heap) ∨ list.remove heap index = .error .undefined := by
  unfold remove
  split_ifs
  · exact .inl rfl
  · split
    · exact .inl rfl
    · next failed =>
      obtain ⟨i, head, -, before, round⟩ := Loop.forRange_error failed
      rw [removeRound_eq (by omega)] at round
      rcases passRound_error round with same | same <;> cases same
      exact .inl rfl
    · next failed =>
      obtain ⟨i, head, -, before, round⟩ := Loop.forRange_error failed
      rw [removeRound_eq (by omega)] at round
      rcases passRound_error round with same | same <;> cases same
      exact .inr rfl

/-- `get` gets no element, whatever the index. -/
theorem get_ne_ok (list : LinkedList) (heap : LinkedListHeap T) (index : Nat) (x : T) :
    list.get heap index ≠ .ok (.ok x) := by
  unfold get
  intro found
  split_ifs at found
  · cases found
  · split at found
    · cases found
    · next failed =>
      obtain ⟨i, head, -, before, round⟩ := Loop.forRange_error failed
      rw [getRound_eq (by omega)] at round
      rcases passRound_error round with same | same <;> cases same
      cases found
    · cases found

end LinkedList

/-! ## Sequences -/

/-- The answer to a call and the sequence after it. -/
def LinkedListCall.onSequence (xs : List T) : LinkedListCall T → LinkedListAnswer T × List T
  | .append x => (.done, xs ++ [x])
  | .prepend x => (.done, x :: xs)
  | .remove index => (.done, xs.eraseIdx index)
  | .get index =>
    (.element (xs[index]?.elim (.error "Index out of bounds!") .ok), xs)
  | .size => (.size xs.length, xs)

/-- The links in both directions and the size are those of a sequence. -/
def LinkedListWorld.Shows (w : LinkedListWorld T) (xs : List T) : Prop :=
  ∃ entries, Segment (LinkedList.forward w.heap.cells) w.list.head entries none ∧
    Segment (LinkedList.backward w.heap.cells) w.list.tail entries.reverse none ∧
    elements entries = xs ∧ w.list.size = xs.length

/-- A program between two calls: its list, and the sequence it is to be. -/
structure LinkedListRun (T : Type) where
  world : LinkedListWorld T
  sequence : List T

namespace LinkedListRun

variable (A : Ledger.Allocator)

def init : LinkedListRun T := { world := .empty, sequence := [] }

def step (s : LinkedListRun T) (c : LinkedListCall T) : LinkedListRun T where
  world :=
    match s.world.call A c with
    | .ok (_, world) => world
    | .error _ => s.world
  sequence := (c.onSequence s.sequence).2

/-- The call goes through with the answer that the sequence gives, and the list afterwards shows the
sequence. -/
def Agrees (s : LinkedListRun T) (c : LinkedListCall T) : Prop :=
  ∃ world, s.world.call A c = .ok ((c.onSequence s.sequence).1, world) ∧
    world.Shows (c.onSequence s.sequence).2

/-- The call does not ask for an element of the list by its index. -/
def Unindexed (s : LinkedListRun T) : LinkedListCall T → Prop
  | .remove index | .get index => s.world.list.size ≤ index
  | _ => True

/-- The list is the sequence. -/
def Refines (s : LinkedListRun T) : Prop :=
  ∃ entries, s.world.list.Represents s.world.heap entries ∧ elements entries = s.sequence

variable {A} {s : LinkedListRun T}

theorem Refines.size (refines : s.Refines) : s.world.list.size = s.sequence.length := by
  obtain ⟨entries, represents, same⟩ := refines
  rw [represents.size, ← same, List.length_map]

theorem Refines.shows (refines : s.Refines) : s.world.Shows s.sequence := by
  have size := refines.size
  obtain ⟨entries, represents, same⟩ := refines
  exact ⟨entries, represents.forward, represents.backward, same, size⟩

/-- The calls that meet the condition keep the list that of the sequence. -/
theorem step_refines (A) (refines : s.Refines) {c : LinkedListCall T} (unindexed : s.Unindexed c) :
    ∃ world, s.world.call A c = .ok ((c.onSequence s.sequence).1, world) ∧
      Refines ⟨world, (c.onSequence s.sequence).2⟩ := by
  have size := refines.size
  obtain ⟨entries, represents, same⟩ := refines
  cases c with
  | append x =>
    obtain ⟨list', heap', place, run, represents'⟩ := LinkedList.append_represents represents A x
    exact ⟨⟨list', heap'⟩, by rw [LinkedListWorld.call, run]; rfl, _, represents',
      by simp [← same, LinkedListCall.onSequence]⟩
  | prepend x =>
    obtain ⟨list', heap', place, run, represents'⟩ := LinkedList.prepend_represents represents A x
    exact ⟨⟨list', heap'⟩, by rw [LinkedListWorld.call, run]; rfl, _, represents',
      by simp [← same, LinkedListCall.onSequence]⟩
  | remove index =>
    have outside : s.world.list.size ≤ index := unindexed
    have behind : s.sequence.length ≤ index := size ▸ outside
    refine ⟨s.world, ?_, entries, represents, ?_⟩
    · rw [LinkedListWorld.call, LinkedList.remove, if_pos outside]
      rfl
    · rw [same, LinkedListCall.onSequence, List.eraseIdx_of_length_le behind]
  | get index =>
    have outside : s.world.list.size ≤ index := unindexed
    have behind : s.sequence.length ≤ index := size ▸ outside
    refine ⟨s.world, ?_, entries, represents, same⟩
    rw [LinkedListWorld.call, LinkedList.get, if_pos outside, LinkedListCall.onSequence,
      List.getElem?_eq_none behind]
    rfl
  | size => exact ⟨s.world, by rw [LinkedListWorld.call, size]; rfl, entries, represents, same⟩

/-- A call of `remove` or `get` below the size does not agree. -/
theorem unindexed_of_agrees (refines : s.Refines) {c : LinkedListCall T} (agrees : s.Agrees A c) :
    s.Unindexed c := by
  have size := refines.size
  obtain ⟨world, run, entries, -, -, same, size'⟩ := agrees
  cases c with
  | remove index =>
    by_contra inside
    have inside : index < s.sequence.length := size ▸ Nat.not_le.1 inside
    obtain ⟨⟨list', heap'⟩, removed, run⟩ := bind_eq_ok run
    cases run
    rcases LinkedList.remove_eq s.world.list s.world.heap index with kept | failed
    · rw [kept] at removed
      cases removed
      have shorter : s.world.list.size = (s.sequence.eraseIdx index).length := size'
      rw [List.length_eraseIdx, if_pos inside] at shorter
      omega
    · rw [failed] at removed
      cases removed
  | get index =>
    by_contra inside
    have inside : index < s.sequence.length := size ▸ Nat.not_le.1 inside
    obtain ⟨result, found, run⟩ := bind_eq_ok run
    have answer := congrArg Prod.fst (Except.ok.inj run)
    simp only [LinkedListCall.onSequence, List.getElem?_eq_getElem inside, Option.elim_some,
      LinkedListAnswer.element.injEq] at answer
    exact LinkedList.get_ne_ok _ _ _ _ (answer ▸ found)
  | _ => trivial

end LinkedListRun

/-- **Linked lists and sequences.** A program sees sequences in its list if and only if it never
calls `remove` or `get` with an index below the size. -/
theorem linkedLists_agree_iff (A : Ledger.Allocator) (calls : List (LinkedListCall T)) :
    Along (LinkedListRun.step A) (LinkedListRun.Agrees A) .init calls ↔
      Along (LinkedListRun.step A) LinkedListRun.Unindexed .init calls := by
  refine Along.iff (J := LinkedListRun.Refines) (G := fun _ _ => True) (fun s c refines _ => ?_)
    (fun s c refines _ agrees => ?_) ⟨[], LinkedList.empty_represents, rfl⟩
    (Along.of_forall (fun _ _ => trivial) _ _)
  · refine ⟨LinkedListRun.unindexed_of_agrees refines, fun unindexed => ?_⟩
    obtain ⟨world, run, refines'⟩ := LinkedListRun.step_refines A refines unindexed
    exact ⟨world, run, refines'.shows⟩
  · obtain ⟨world, run, refines'⟩ := LinkedListRun.step_refines A refines
      (LinkedListRun.unindexed_of_agrees refines agrees)
    rw [LinkedListRun.step, run]
    exact refines'

/-- The only element of a list is removed, and stays. -/
theorem not_agrees_remove_only :
    ¬Along (LinkedListRun.step .bump) (LinkedListRun.Agrees .bump) .init
      [.append 'a', .remove 0] := by
  rintro ⟨-, ⟨world, run, entries, -, -, -, size⟩, -⟩
  cases run
  cases size

end MatteOS.Utils
