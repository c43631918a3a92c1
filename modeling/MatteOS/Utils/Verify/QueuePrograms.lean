import MatteOS.Utils.Verify.LinkedQueue
import MatteOS.Lib.Transition

/-!
# Programs with queues

What the calls of a program do to lists (`QueueCall.onLists`). Its queues agree with them in every
run, with each allocator (`queues_refine_lists`): the chains hold the lists, no two share an
element, and the elements that are allocated and not deleted are theirs.
-/

namespace MatteOS.Utils

open Chain Transition

variable {T : Type}

namespace LinkedQueue

/-! ## One queue -/

/-- A queue with elements at `old` becomes one of `entries`: new elements are at free places, and
those that are no longer in it are deleted. -/
structure Becomes (h : QueueHeap T) (old : List Nat) (queue : LinkedQueue) (h' : QueueHeap T)
    (entries : List (Nat × T)) : Prop where
  holds : queue.Holds h'.cells entries
  tracks : h'.Tracks
  kept : ∀ p, p ∉ old → p ∉ places entries → h'.cells p = h.cells p
  fresh : ∀ p ∈ places entries, p ∉ old → h.cells p = none
  freed : ∀ p ∈ old, p ∉ places entries → h'.cells p = none

variable {h h' h'' : QueueHeap T} {old : List Nat} {queue queue' other : LinkedQueue}
  {entries entries' : List (Nat × T)} {A : Ledger.Allocator} {fuel : Nat}

theorem Becomes.refl (tracks : h.Tracks) (holds : queue.Holds h.cells entries) :
    Becomes h (places entries) queue h entries where
  holds := holds
  tracks := tracks
  kept := fun _ _ _ => rfl
  fresh := fun _ mem out => absurd mem out
  freed := fun _ mem out => absurd mem out

theorem Becomes.trans (first : Becomes h old queue h' entries)
    (second : Becomes h' (places entries) queue' h'' entries') :
    Becomes h old queue' h'' entries' where
  holds := second.holds
  tracks := second.tracks
  kept := fun p out out' => by
    by_cases mem : p ∈ places entries
    · rw [second.freed p mem out', first.fresh p mem out]
    · rw [second.kept p mem out', first.kept p out mem]
  fresh := fun p mem out => by
    by_cases mem' : p ∈ places entries
    · exact first.fresh p mem' out
    · rw [← first.kept p out mem', second.fresh p mem mem']
  freed := fun p mem out => by
    by_cases mem' : p ∈ places entries
    · exact second.freed p mem' out
    · rw [second.kept p mem' out, first.freed p mem mem']

theorem appendNew_becomes (tracks : h.Tracks) (holds : queue.Holds h.cells entries) (A) (x : T) :
    ∃ queue' h' place, queue.appendNew A h x = .ok (queue', h') ∧
      Becomes h (places entries) queue' h' (entries ++ [(place, x)]) := by
  have free := tracks.fresh A
  obtain ⟨cells, queue', appended, holds', same⟩ := holds.append free x
  have outside := holds.chain.notMem_places free
  refine ⟨queue', _, A.place h.log, by rw [appendNew, appended]; rfl, holds', ?_, ?_, ?_, ?_⟩
  · refine tracks.allocated free fun p => ?_
    by_cases new : p = A.place h.log
    · simp [new, holds'.chain.isSome (mem_places_concat.2 (.inr rfl))]
    · by_cases mem : p ∈ places entries
      · have kept := holds'.chain.isSome (mem_places_concat.2 (.inl mem))
        simp only [kept, holds.chain.isSome mem, or_true]
      · rw [same p new mem]
        simp only [new, false_or]
  · intro p out out'
    obtain ⟨-, new⟩ := not_or.1 (mt mem_places_concat.2 out')
    exact same p new out
  · intro p mem out
    rw [(mem_places_concat.1 mem).resolve_left out, free]
  · intro p mem out
    exact absurd (mem_places_concat.2 (.inl mem)) out

/-- Deleting the first element of a chain leaves the others. -/
theorem free_first {place : Nat} {x : T} {start : Option Nat} (tracks : h.Tracks)
    (chain : Segment h.cells start ((place, x) :: entries) none)
    (distinct : (places ((place, x) :: entries)).Nodup) :
    ∃ next h', h.cells place = some ⟨x, next⟩ ∧ h.free place = some h' ∧ h'.Tracks ∧
      Segment h'.cells next entries none ∧ h'.cells place = none ∧
      ∀ p, p ≠ place → h'.cells p = h.cells p := by
  obtain ⟨-, next, node, rest⟩ := chain
  obtain ⟨h', freed, tracks', gone, same⟩ := tracks.free node
  have outside := (List.nodup_cons.1 distinct).1
  refine ⟨next, h', node, freed, tracks', rest.congr fun p mem => same p ?_, gone, same⟩
  rintro rfl
  exact outside mem

theorem pop_becomes {place : Nat} {x : T} (tracks : h.Tracks)
    (holds : queue.Holds h.cells ((place, x) :: entries)) :
    ∃ queue' h', queue.pop h = .ok (x, queue', h') ∧
      Becomes h (places ((place, x) :: entries)) queue' h' entries := by
  have head := holds.chain.1
  have notEmpty : queue.isEmpty = false := by rw [holds.isEmpty]; rfl
  obtain ⟨next, h', node, freed, tracks', rest, gone, same⟩ :=
    free_first tracks holds.chain holds.distinct
  have popped : queue.pop h =
      .ok (x, { head := next, tail := if next = none then none else queue.tail }, h') := by
    rw [pop, notEmpty, Bool.not_false, runtimeAssert_true, ok_bind, head, orUndefined_some,
      ok_bind, node, orUndefined_some, ok_bind, freed, orUndefined_some, ok_bind]
    rfl
  refine ⟨_, h', popped, ⟨rest, (List.nodup_cons.1 holds.distinct).2, ?_⟩, tracks', ?_, ?_, ?_⟩
  · have last := holds.last
    cases entries with
    | nil => simp [rest.start_eq_none.2 rfl]
    | cons entry entries =>
      have more : next ≠ none := fun null => by simpa using rest.start_eq_none.1 null
      simp [more, last, List.getLast?_cons]
  · intro p out _
    exact same p fun eq => out (by simp [places, eq])
  · intro p mem out
    exact absurd (List.mem_cons_of_mem place mem) out
  · intro p mem out
    rcases List.mem_cons.1 mem with rfl | mem
    · exact gone
    · exact absurd mem out

/-- The loop of `clear` deletes the chain and nothing else. -/
theorem run_clearRound {start : Option Nat} (tracks : h.Tracks)
    (chain : Segment h.cells start entries none) (distinct : (places entries).Nodup)
    (enough : entries.length < fuel) :
    ∃ h', Loop.run clearRound fuel (h, start) = some (.ok h') ∧ h'.Tracks ∧
      (∀ p ∈ places entries, h'.cells p = none) ∧
      ∀ p ∉ places entries, h'.cells p = h.cells p := by
  induction entries generalizing h start fuel with
  | nil =>
    obtain ⟨fuel, rfl⟩ : ∃ k, fuel = k + 1 := ⟨fuel - 1, by omega⟩
    obtain rfl : start = none := chain
    exact ⟨h, Loop.run_done rfl fuel, tracks, by simp, fun _ _ => rfl⟩
  | cons entry entries ih =>
    obtain ⟨place, x⟩ := entry
    obtain ⟨fuel, rfl⟩ : ∃ k, fuel = k + 1 := ⟨fuel - 1, by omega⟩
    obtain ⟨next, h₁, node, freed, tracks₁, rest, gone, same⟩ := free_first tracks chain distinct
    obtain rfl := chain.1
    obtain ⟨outside, distinct'⟩ := List.nodup_cons.1 distinct
    obtain ⟨h', run, tracks', gone', same'⟩ :=
      ih tracks₁ rest distinct' (by simpa using enough)
    have round : clearRound (h, some place) = .again (h₁, next) := by simp [clearRound, node, freed]
    refine ⟨h', by rw [Loop.run_again round, run], tracks', fun p mem => ?_, fun p out => ?_⟩
    · rcases List.mem_cons.1 mem with rfl | mem
      · rw [same' _ outside, gone]
      · exact gone' p mem
    · obtain ⟨ne, out⟩ := not_or.1 (fun mem => out (List.mem_cons.2 mem))
      rw [same' p out, same p ne]

theorem clear_becomes (tracks : h.Tracks) (holds : queue.Holds h.cells entries)
    (enough : entries.length < fuel) :
    ∃ h', queue.clear fuel h = .ok (.empty, h') ∧ Becomes h (places entries) .empty h' [] := by
  obtain ⟨h', run, tracks', gone, same⟩ :=
    run_clearRound tracks holds.chain holds.distinct enough
  exact ⟨h', by rw [clear, run]; rfl, holds_empty _, tracks', fun p out _ => same p out,
    by simp, fun p mem _ => gone p mem⟩

theorem rotateLeft_becomes (tracks : h.Tracks) (holds : queue.Holds h.cells entries) :
    ∃ cells queue', queue.rotateLeft h.cells = some (cells, queue') ∧
      Becomes h (places entries) queue' { h with cells } (entries.rotate 1) := by
  obtain ⟨cells, queue', rotated, holds', same⟩ := holds.rotateLeft
  have mem_rotate : ∀ p, p ∈ places (entries.rotate 1) ↔ p ∈ places entries := fun p => by
    simp only [places, List.map_rotate, List.mem_rotate]
  refine ⟨cells, queue', rotated, holds', tracks.setCells fun p => ?_, fun p out _ => same p out,
    fun p mem out => absurd ((mem_rotate p).1 mem) out,
    fun p mem out => absurd ((mem_rotate p).2 mem) out⟩
  by_cases mem : p ∈ places entries
  · simp only [holds.chain.isSome mem, holds'.chain.isSome ((mem_rotate p).2 mem)]
  · rw [same p mem]

/-- The loop that copies appends the elements from `current` on. -/
theorem run_copyRound {others : List (Nat × T)} {current : Option Nat} (tracks : h.Tracks)
    (holds : queue.Holds h.cells entries) (chain : Segment h.cells current others none)
    (apart : ∀ p ∈ places others, p ∉ places entries) (enough : others.length < fuel) :
    ∃ queue' h' entries', Loop.run (copyRound A) fuel ((queue, h), current) =
        some (.ok (queue', h')) ∧
      Becomes h (places entries) queue' h' entries' ∧
      elements entries' = elements entries ++ elements others := by
  induction others generalizing h queue entries current fuel with
  | nil =>
    obtain ⟨fuel, rfl⟩ : ∃ k, fuel = k + 1 := ⟨fuel - 1, by omega⟩
    obtain rfl : current = none := chain
    exact ⟨queue, h, entries, Loop.run_done rfl fuel, .refl tracks holds, by simp⟩
  | cons entry others ih =>
    obtain ⟨place, x⟩ := entry
    obtain ⟨fuel, rfl⟩ : ∃ k, fuel = k + 1 := ⟨fuel - 1, by omega⟩
    obtain ⟨queue₁, h₁, new, appended, becomes⟩ := appendNew_becomes tracks holds A x
    -- the elements of the other queue are neither in this one nor where the new one is
    have apart₁ : ∀ p ∈ places ((place, x) :: others), p ∉ places (entries ++ [(new, x)]) := by
      intro p mem mem'
      have free := becomes.fresh p mem' (apart p mem)
      simpa [free] using chain.isSome mem
    have chain₁ : Segment h₁.cells current ((place, x) :: others) none :=
      chain.congr fun p mem => becomes.kept p (apart p mem) (apart₁ p mem)
    obtain ⟨rfl, next, node, -⟩ := chain
    obtain ⟨-, next₁, node₁, rest₁⟩ := chain₁
    obtain ⟨queue', h', entries', run, becomes', copied⟩ := ih becomes.tracks becomes.holds rest₁
      (fun p mem => apart₁ p (List.mem_cons_of_mem _ mem)) (by simpa using enough)
    have round : copyRound A ((queue, h), some place) = .again ((queue₁, h₁), next₁) := by
      simp [copyRound, node, appended, node₁]
    exact ⟨queue', h', entries', by rw [Loop.run_again round, run], becomes.trans becomes',
      by simp [copied]⟩

theorem appendAll_becomes {others : List (Nat × T)} (tracks : h.Tracks)
    (holds : queue.Holds h.cells entries) (holdsOther : other.Holds h.cells others)
    (apart : ∀ p ∈ places others, p ∉ places entries) (enough : others.length < fuel) :
    ∃ queue' h' entries', queue.appendAll A fuel other h = .ok (queue', h') ∧
      Becomes h (places entries) queue' h' entries' ∧
      elements entries' = elements entries ++ elements others := by
  obtain ⟨queue', h', entries', run, rest⟩ :=
    run_copyRound (A := A) tracks holds holdsOther.chain apart enough
  exact ⟨queue', h', entries', by rw [appendAll, run]; rfl, rest⟩

theorem copyAssign_becomes {others : List (Nat × T)} (tracks : h.Tracks)
    (holds : queue.Holds h.cells entries) (holdsOther : other.Holds h.cells others)
    (apart : ∀ p ∈ places others, p ∉ places entries) (enough : entries.length < fuel)
    (enoughOther : others.length < fuel) :
    ∃ queue' h' entries', queue.copyAssign A fuel other h = .ok (queue', h') ∧
      Becomes h (places entries) queue' h' entries' ∧ elements entries' = elements others := by
  obtain ⟨h₁, cleared, becomes⟩ := clear_becomes tracks holds enough
  have holdsOther₁ : other.Holds h₁.cells others :=
    holdsOther.congr fun p mem => becomes.kept p (apart p mem) (by simp)
  obtain ⟨queue', h', entries', run, becomes', copied⟩ := appendAll_becomes (A := A)
    becomes.tracks becomes.holds holdsOther₁ (by simp) enoughOther
  refine ⟨queue', h', entries', ?_, becomes.trans becomes', by simpa using copied⟩
  rw [copyAssign, cleared, ok_bind]
  exact run

end LinkedQueue

/-! ## Lists -/

/-- The list of each variable that has a queue. -/
abbrev QueueLists (T : Type) := Nat → Option (List T)

/-- The answer to a call and the lists after it. -/
def QueueCall.onLists (lists : QueueLists T) : QueueCall T → QueueAnswer T × QueueLists T
  | .create x | .clear x => (.done, Function.update lists x (some []))
  | .copyConstruct x y | .copyAssign x y => (.done, Function.update lists x (lists y))
  | .moveConstruct x y => (.done, Function.update (Function.update lists x (lists y)) y (some []))
  | .moveAssign x y =>
    (.done, if x = y then lists
      else Function.update (Function.update lists x (lists y)) y (some []))
  | .append x element =>
    (.done, Function.update lists x (some ((lists x).getD [] ++ [element])))
  | .pop x =>
    (((lists x).getD []).head?.elim .done .element,
      Function.update lists x (some ((lists x).getD []).tail))
  | .peekFirst x => (((lists x).getD []).head?.elim .done .element, lists)
  | .peekLast x => (((lists x).getD []).getLast?.elim .done .element, lists)
  | .isEmpty x => (.isEmpty ((lists x).getD []).isEmpty, lists)
  | .rotateLeft x => (.done, Function.update lists x (some (((lists x).getD []).rotate 1)))
  | .destroy x => (.done, Function.update lists x none)

/-- The variables of the call have queues, the one it constructs has none yet, and where an element
is asked for there is one. -/
def QueueCall.Valid (lists : QueueLists T) : QueueCall T → Prop
  | .create x => lists x = none
  | .copyConstruct x y | .moveConstruct x y => lists x = none ∧ (lists y).isSome
  | .append x _ | .isEmpty x | .rotateLeft x | .clear x | .destroy x => (lists x).isSome
  | .pop x | .peekFirst x | .peekLast x => ∃ a l, lists x = some (a :: l)
  | .copyAssign x y | .moveAssign x y => (lists x).isSome ∧ (lists y).isSome

/-! ## Refinement -/

/-- The places and elements of each variable that has a queue. -/
abbrev QueueEntries (T : Type) := Nat → Option (List (Nat × T))

/-- The queues hold `entries`, no two share an element, and there are no other elements in use. -/
structure QueueWorld.Refines (w : QueueWorld T) (entries : QueueEntries T) : Prop where
  absent : ∀ x, entries x = none → w.queues x = none
  holds : ∀ x e, entries x = some e → ∃ queue, w.queues x = some queue ∧ queue.Holds w.heap.cells e
  apart : ∀ x y e e', entries x = some e → entries y = some e' → x ≠ y →
    ∀ p ∈ places e, p ∉ places e'
  owned : ∀ p, (w.heap.cells p).isSome → ∃ x e, entries x = some e ∧ p ∈ places e
  tracks : w.heap.Tracks

namespace QueueWorld

open LinkedQueue

variable {w : QueueWorld T} {entries : QueueEntries T} {x y : Nat} {e e' : List (Nat × T)}
  {queue other : LinkedQueue} {h' : QueueHeap T} {A : Ledger.Allocator} {fuel : Nat}

theorem empty_refines : (empty : QueueWorld T).Refines fun _ => none :=
  ⟨fun _ _ => rfl, fun _ _ found => absurd found.symm (Option.some_ne_none _),
    fun _ _ _ _ found => absurd found.symm (Option.some_ne_none _),
    fun _ used => absurd used Bool.false_ne_true, Ledger.Heap.tracks_empty⟩

theorem queue_eq (found : w.queues x = some queue) : w.queue x = .ok queue := by
  rw [QueueWorld.queue, found]
  rfl

theorem set_set {h : QueueHeap T} : (w.set x queue h).set x other h' = w.set x other h' := by
  simp only [QueueWorld.set, Function.update_idem]

/-- The elements of other queues are outside those of a queue that replaces the one in `x`. -/
theorem Refines.outside (refines : w.Refines entries) {old : List Nat}
    (owns : old = (entries x).elim [] places) (becomes : Becomes w.heap old queue h' e')
    (found : entries y = some e) (ne : y ≠ x) : ∀ p ∈ places e, p ∉ old ∧ p ∉ places e' := by
  obtain ⟨other, -, holds⟩ := refines.holds y e found
  intro p mem
  have notOld : p ∉ old := by
    subst owns
    cases own : entries x with
    | none => simp
    | some e => exact refines.apart y x _ e found own ne p mem
  refine ⟨notOld, fun mem' => ?_⟩
  have used := holds.chain.isSome mem
  rw [becomes.fresh p mem' notOld] at used
  cases used

/-- A call that leaves `e'` in `x`, and touches no other queue. -/
theorem Refines.set (refines : w.Refines entries) {old : List Nat}
    (owns : old = (entries x).elim [] places) (becomes : Becomes w.heap old queue h' e') :
    (w.set x queue h').Refines (Function.update entries x (some e')) := by
  have outside := fun y e => refines.outside (y := y) (e := e) owns becomes
  refine ⟨fun y => ?_, fun y e found => ?_, fun y z ey ez => ?_, fun p used => ?_, becomes.tracks⟩
  · by_cases same : y = x
    · simp [same]
    · simpa [QueueWorld.set, same] using refines.absent y
  · by_cases same : y = x
    · subst same
      obtain rfl : e' = e := by simpa using found
      exact ⟨queue, Function.update_self _ _ _, becomes.holds⟩
    · rw [Function.update_of_ne same] at found
      obtain ⟨other, queues, holds⟩ := refines.holds y e found
      refine ⟨other, (Function.update_of_ne same _ _).trans queues, holds.congr fun p mem => ?_⟩
      obtain ⟨notOld, notNew⟩ := outside y e found same p mem
      exact becomes.kept p notOld notNew
  · by_cases sameY : y = x
    · subst sameY
      rw [Function.update_self]
      rintro ⟨rfl⟩ foundZ ne p mem mem'
      rw [Function.update_of_ne ne.symm] at foundZ
      exact (outside z ez foundZ ne.symm p mem').2 mem
    · by_cases sameZ : z = x
      · subst sameZ
        rw [Function.update_self, Function.update_of_ne sameY]
        rintro foundY ⟨rfl⟩ ne p mem
        exact (outside y ey foundY ne p mem).2
      · rw [Function.update_of_ne sameY, Function.update_of_ne sameZ]
        exact refines.apart y z ey ez
  · by_cases mem : p ∈ places e'
    · exact ⟨x, e', Function.update_self _ _ _, mem⟩
    · have notOld : p ∉ old := fun mem' => by
        simp only [QueueWorld.set, becomes.freed p mem' mem, Option.isSome_none] at used
        cases used
      rw [show (w.set x queue h').heap.cells p = w.heap.cells p from becomes.kept p notOld mem]
        at used
      obtain ⟨y, e, found, mem'⟩ := refines.owned p used
      have ne : y ≠ x := by
        rintro rfl
        rw [owns, found] at notOld
        exact notOld mem'
      exact ⟨y, e, by rwa [Function.update_of_ne ne], mem'⟩

/-- A queue that was emptied goes out of scope. -/
theorem Refines.drop (refines : w.Refines entries) (found : entries x = some []) :
    Refines { w with queues := Function.update w.queues x none }
      (Function.update entries x none) := by
  refine ⟨fun y absent => ?_, fun y e foundY => ?_, fun y z ey ez => ?_, fun p used => ?_,
    refines.tracks⟩
  · by_cases same : y = x
    · simp [same]
    · rw [Function.update_of_ne same] at absent
      exact (Function.update_of_ne same _ _).trans (refines.absent y absent)
  · by_cases same : y = x
    · simp [same] at foundY
    · rw [Function.update_of_ne same] at foundY
      obtain ⟨queue, queues, holds⟩ := refines.holds y e foundY
      exact ⟨queue, (Function.update_of_ne same _ _).trans queues, holds⟩
  · by_cases sameY : y = x
    · simp [sameY]
    · by_cases sameZ : z = x
      · simp [sameZ]
      · rw [Function.update_of_ne sameY, Function.update_of_ne sameZ]
        exact refines.apart y z ey ez
  · obtain ⟨y, e, foundY, mem⟩ := refines.owned p used
    have ne : y ≠ x := by
      rintro rfl
      obtain rfl := Option.some.inj (found.symm.trans foundY)
      cases mem
    exact ⟨y, e, by rwa [Function.update_of_ne ne], mem⟩

/-- The queue of `y` goes to `x`, which has no elements, and `y` is empty afterwards. -/
theorem Refines.move (refines : w.Refines entries) (ne : x ≠ y)
    (vacant : (entries x).elim [] places = []) (found : entries y = some e)
    (queues : w.queues y = some other) :
    ((w.set x other w.heap).set y .empty w.heap).Refines
      (Function.update (Function.update entries x (some e)) y (some [])) := by
  obtain ⟨queue, queues', holds⟩ := refines.holds y e found
  obtain rfl := Option.some.inj (queues'.symm.trans queues)
  -- every other queue keeps its elements
  have others : ∀ z ez, Function.update (Function.update entries x (some e)) y (some []) z
      = some ez → ez ≠ [] → (z = x ∧ ez = e) ∨ (z ≠ x ∧ z ≠ y ∧ entries z = some ez) := by
    intro z ez found' nonempty
    by_cases sameY : z = y
    · subst sameY
      simp only [Function.update_self, Option.some.injEq] at found'
      exact absurd found'.symm nonempty
    · rw [Function.update_of_ne sameY] at found'
      by_cases sameX : z = x
      · subst sameX
        exact .inl ⟨rfl, by simpa using found'.symm⟩
      · rw [Function.update_of_ne sameX] at found'
        exact .inr ⟨sameX, sameY, found'⟩
  refine ⟨fun z => ?_, fun z ez found' => ?_, fun z z' ez ez' foundZ foundZ' neZ p mem mem' => ?_,
    fun p used => ?_, refines.tracks⟩
  · by_cases sameY : z = y
    · simp [sameY]
    · by_cases sameX : z = x
      · subst sameX
        simp [ne]
      · simpa [QueueWorld.set, sameX, sameY] using refines.absent z
  · by_cases sameY : z = y
    · subst sameY
      obtain rfl : [] = ez := by simpa using found'
      exact ⟨.empty, Function.update_self _ _ _, holds_empty _⟩
    · by_cases sameX : z = x
      · subst sameX
        obtain rfl : e = ez := by simpa [ne] using found'
        exact ⟨queue, by simp [QueueWorld.set, ne], holds⟩
      · simp only [Function.update_of_ne sameX, Function.update_of_ne sameY] at found'
        simpa [QueueWorld.set, sameX, sameY] using refines.holds z ez found'
  · have some_of_mem : ∀ {l : List (Nat × T)}, p ∈ places l → l ≠ [] := by
      rintro l mem rfl
      cases mem
    rcases others z ez foundZ (some_of_mem mem) with ⟨eqX, rfl⟩ | ⟨-, neY, kept⟩
    · rcases others z' ez' foundZ' (some_of_mem mem') with ⟨eqX', -⟩ | ⟨-, neY', kept'⟩
      · exact neZ (eqX.trans eqX'.symm)
      · exact refines.apart y z' _ _ found kept' neY'.symm p mem mem'
    · rcases others z' ez' foundZ' (some_of_mem mem') with ⟨-, rfl⟩ | ⟨-, -, kept'⟩
      · exact refines.apart z y _ _ kept found neY p mem mem'
      · exact refines.apart z z' _ _ kept kept' neZ p mem mem'
  · obtain ⟨z, ez, foundZ, mem⟩ := refines.owned p used
    by_cases sameY : z = y
    · subst sameY
      obtain rfl := Option.some.inj (found.symm.trans foundZ)
      exact ⟨x, e, by simp [ne], mem⟩
    · have neX : z ≠ x := by
        rintro rfl
        rw [foundZ] at vacant
        exact List.not_mem_nil (vacant ▸ mem : p ∈ [])
      exact ⟨z, ez, by simp [neX, sameY, foundZ], mem⟩

/-! ## Calls -/

/-- Every variable's queue holds its list. -/
def Holds (w : QueueWorld T) (lists : QueueLists T) : Prop :=
  ∃ entries, w.Refines entries ∧ ∀ x, lists x = (entries x).map elements

variable {lists : QueueLists T} {l l' : List T}

theorem refines_lists_update (same : ∀ x, lists x = (entries x).map elements)
    (e : Option (List (Nat × T))) (y : Nat) :
    Function.update lists x (e.map elements) y =
      (Function.update entries x e y).map elements := by
  by_cases eq : y = x
  · subst eq
    simp
  · rw [Function.update_of_ne eq, Function.update_of_ne eq, same]

/-- A call that leaves the queue of `x` with the list `l`. -/
theorem holds_set (refines : w.Refines entries) (same : ∀ x, lists x = (entries x).map elements)
    {old : List Nat} (owns : old = (entries x).elim [] places)
    (becomes : Becomes w.heap old queue h' e') (result : elements e' = l) :
    (w.set x queue h').Holds (Function.update lists x (some l)) := by
  subst result
  exact ⟨_, refines.set owns becomes, refines_lists_update same (some e')⟩

/-- What is known of a variable that has a queue. -/
theorem Holds.found (holds : w.Holds lists) (list : lists x = some l) :
    ∃ entries e queue, w.Refines entries ∧ (∀ x, lists x = (entries x).map elements) ∧
      entries x = some e ∧ elements e = l ∧ w.queues x = some queue ∧
      queue.Holds w.heap.cells e := by
  obtain ⟨entries, refines, same⟩ := holds
  rw [same] at list
  obtain ⟨e, found, result⟩ := Option.map_eq_some_iff.1 list
  obtain ⟨queue, queues, shape⟩ := refines.holds x e found
  exact ⟨entries, e, queue, refines, same, found, result, queues, shape⟩

theorem entries_of_lists (same : ∀ x, lists x = (entries x).map elements) (list : lists y = some l) :
    ∃ e, entries y = some e ∧ elements e = l := by
  rw [same] at list
  exact Option.map_eq_some_iff.1 list

theorem entries_eq_none (same : ∀ x, lists x = (entries x).map elements) (list : lists y = none) :
    entries y = none := by
  rw [same] at list
  exact Option.map_eq_none_iff.1 list

theorem create_holds (A fuel) (holds : w.Holds lists) (list : lists x = none) :
    ∃ w', w.call A fuel (.create x) = .ok (.done, w') ∧
      w'.Holds (Function.update lists x (some [])) := by
  obtain ⟨entries, refines, same⟩ := holds
  have absent := entries_eq_none same list
  exact ⟨_, rfl, holds_set refines same (by rw [absent]; rfl)
    (Becomes.refl refines.tracks (holds_empty _)) rfl⟩

theorem append_holds (A fuel) (holds : w.Holds lists) (list : lists x = some l) (a : T) :
    ∃ w', w.call A fuel (.append x a) = .ok (.done, w') ∧
      w'.Holds (Function.update lists x (some (l ++ [a]))) := by
  obtain ⟨entries, e, queue, refines, same, found, rfl, queues, shape⟩ := holds.found list
  obtain ⟨queue', h', place, run, becomes⟩ := appendNew_becomes refines.tracks shape A a
  refine ⟨_, ?_, holds_set refines same (by rw [found]; rfl) becomes (by simp)⟩
  rw [call, queue_eq queues, ok_bind, run]
  rfl

theorem pop_holds (A fuel) {a : T} (holds : w.Holds lists) (list : lists x = some (a :: l)) :
    ∃ w', w.call A fuel (.pop x) = .ok (.element a, w') ∧
      w'.Holds (Function.update lists x (some l)) := by
  obtain ⟨entries, e, queue, refines, same, found, result, queues, shape⟩ := holds.found list
  obtain ⟨⟨place, a⟩, e, rfl⟩ := List.exists_cons_of_ne_nil (l := e) fun null => by
    simp [null] at result
  obtain ⟨rfl, rfl⟩ := List.cons.inj result
  obtain ⟨queue', h', run, becomes⟩ := pop_becomes refines.tracks shape
  refine ⟨_, ?_, holds_set refines same (by rw [found]; rfl) becomes rfl⟩
  rw [call, queue_eq queues, ok_bind, run]
  rfl

/-- Both ends of a queue that is not empty. -/
theorem peek_eq (A fuel) {a : T} (holds : w.Holds lists) (list : lists x = some (a :: l)) :
    w.call A fuel (.peekFirst x) = .ok (.element a, w) ∧
      w.call A fuel (.peekLast x) = .ok (.element ((a :: l).getLast (List.cons_ne_nil a l)), w) := by
  obtain ⟨entries, e, queue, refines, same, found, result, queues, shape⟩ := holds.found list
  have notEmpty : queue.isEmpty = false := by
    rw [shape.isEmpty, List.isEmpty_eq_false_iff]
    rintro rfl
    simp at result
  constructor
  · rw [call, queue_eq queues, ok_bind, notEmpty, Bool.not_false, runtimeAssert_true, ok_bind,
      shape.peekFirst, result]
    rfl
  · rw [call, queue_eq queues, ok_bind, notEmpty, Bool.not_false, runtimeAssert_true, ok_bind,
      shape.peekLast, result, List.getLast?_eq_some_getLast (List.cons_ne_nil a l)]
    rfl

theorem isEmpty_eq (A fuel) (holds : w.Holds lists) (list : lists x = some l) :
    w.call A fuel (.isEmpty x) = .ok (.isEmpty l.isEmpty, w) := by
  obtain ⟨entries, e, queue, refines, same, found, rfl, queues, shape⟩ := holds.found list
  rw [call, queue_eq queues, ok_bind, shape.isEmpty]
  simp [elements]
  rfl

theorem rotateLeft_holds (A fuel) (holds : w.Holds lists) (list : lists x = some l) :
    ∃ w', w.call A fuel (.rotateLeft x) = .ok (.done, w') ∧
      w'.Holds (Function.update lists x (some (l.rotate 1))) := by
  obtain ⟨entries, e, queue, refines, same, found, rfl, queues, shape⟩ := holds.found list
  obtain ⟨cells, queue', run, becomes⟩ := rotateLeft_becomes refines.tracks shape
  refine ⟨_, ?_, holds_set refines same (by rw [found]; rfl) becomes (List.map_rotate _ _ _)⟩
  rw [call, queue_eq queues, ok_bind, run]
  rfl

theorem clear_holds (A) (holds : w.Holds lists) (list : lists x = some l) :
    ∃ n w', w.call A n (.clear x) = .ok (.done, w') ∧
      w'.Holds (Function.update lists x (some [])) := by
  obtain ⟨entries, e, queue, refines, same, found, rfl, queues, shape⟩ := holds.found list
  obtain ⟨h', run, becomes⟩ := clear_becomes refines.tracks shape (Nat.lt_succ_self e.length)
  refine ⟨e.length.succ, _, ?_, holds_set refines same (by rw [found]; rfl) becomes rfl⟩
  rw [call, queue_eq queues, ok_bind, run]
  rfl

theorem destroy_holds (A) (holds : w.Holds lists) (list : lists x = some l) :
    ∃ n w', w.call A n (.destroy x) = .ok (.done, w') ∧
      w'.Holds (Function.update lists x none) := by
  obtain ⟨entries, e, queue, refines, same, found, rfl, queues, shape⟩ := holds.found list
  obtain ⟨h', run, becomes⟩ := clear_becomes refines.tracks shape (Nat.lt_succ_self e.length)
  have dropped := (refines.set (x := x) (by rw [found]; rfl) becomes).drop (x := x) (by simp)
  rw [Function.update_idem] at dropped
  refine ⟨e.length.succ, { queues := Function.update w.queues x none, heap := h' }, ?_, _, ?_,
    refines_lists_update same none⟩
  · rw [call, queue_eq queues, ok_bind, run]
    rfl
  · simpa [QueueWorld.set, Function.update_idem] using dropped

theorem copyConstruct_holds (A) (holds : w.Holds lists) (list : lists x = none)
    (list' : lists y = some l) :
    ∃ n w', w.call A n (.copyConstruct x y) = .ok (.done, w') ∧
      w'.Holds (Function.update lists x (some l)) := by
  obtain ⟨entries, e, other, refines, same, found, rfl, queues, shape⟩ := holds.found list'
  have absent := entries_eq_none same list
  obtain ⟨queue, h', e', run, becomes, copied⟩ := appendAll_becomes (A := A) refines.tracks
    (holds_empty _) shape (by simp) (Nat.lt_succ_self e.length)
  refine ⟨e.length.succ, _, ?_, holds_set refines same (by rw [absent]; rfl) becomes (by simpa using copied)⟩
  rw [call, queue_eq queues, ok_bind, LinkedQueue.copyConstruct, run]
  rfl

theorem moveConstruct_holds (A fuel) (holds : w.Holds lists) (list : lists x = none)
    (list' : lists y = some l) :
    ∃ w', w.call A fuel (.moveConstruct x y) = .ok (.done, w') ∧
      w'.Holds (Function.update (Function.update lists x (some l)) y (some [])) := by
  obtain ⟨entries, e, other, refines, same, found, rfl, queues, shape⟩ := holds.found list'
  have absent := entries_eq_none same list
  have ne : x ≠ y := by
    rintro rfl
    rw [absent] at found
    cases found
  refine ⟨_, ?_, _, refines.move ne (by rw [absent]; rfl) found queues, fun z => ?_⟩
  · rw [call, queue_eq queues]
    rfl
  · exact refines_lists_update (refines_lists_update same (some e)) (some []) z

theorem copyAssign_holds (A) (holds : w.Holds lists) (list : lists x = some l)
    (list' : lists y = some l') :
    ∃ n w', w.call A n (.copyAssign x y) = .ok (.done, w') ∧
      w'.Holds (Function.update lists x (some l')) := by
  obtain ⟨entries, e, queue, refines, same, found, rfl, queues, shape⟩ := holds.found list
  obtain ⟨e', found', rfl⟩ := entries_of_lists same list'
  obtain ⟨other, queues', shape'⟩ := refines.holds y e' found'
  by_cases self : x = y
  · subst self
    refine ⟨0, w, ?_, by rwa [← list', Function.update_eq_self]⟩
    rw [call, queue_eq queues, ok_bind, ok_bind, if_pos rfl]
    rfl
  · obtain ⟨queue', h', e'', run, becomes, copied⟩ := copyAssign_becomes (A := A)
      refines.tracks shape shape' (refines.apart y x e' e found' found (Ne.symm self))
      (show e.length < e.length + e'.length + 1 by omega) (by omega)
    refine ⟨e.length + e'.length + 1, _, ?_, holds_set refines same (by rw [found]; rfl) becomes copied⟩
    rw [call, queue_eq queues, ok_bind, queue_eq queues', ok_bind, if_neg self, run]
    rfl

theorem moveAssign_holds (A) (holds : w.Holds lists) (list : lists x = some l)
    (list' : lists y = some l') :
    ∃ n w', w.call A n (.moveAssign x y) = .ok (.done, w') ∧
      w'.Holds (if x = y then lists
        else Function.update (Function.update lists x (some l')) y (some [])) := by
  obtain ⟨entries, e, queue, refines, same, found, rfl, queues, shape⟩ := holds.found list
  obtain ⟨e', found', rfl⟩ := entries_of_lists same list'
  obtain ⟨other, queues', -⟩ := refines.holds y e' found'
  by_cases self : x = y
  · subst self
    refine ⟨0, w, ?_, by rwa [if_pos rfl]⟩
    rw [call, queue_eq queues, ok_bind, ok_bind, if_pos rfl]
    rfl
  · obtain ⟨h', run, becomes⟩ := clear_becomes refines.tracks shape (Nat.lt_succ_self e.length)
    -- first the queue of `x` is emptied, then it takes the elements of `y`
    have cleared := refines.set (x := x) (by rw [found]; rfl) becomes
    have kept : Function.update entries x (some []) y = some e' := by
      rwa [Function.update_of_ne (Ne.symm self)]
    have moved := cleared.move self (by simp) kept
      ((Function.update_of_ne (Ne.symm self) _ _).trans queues')
    rw [Function.update_idem, set_set] at moved
    refine ⟨e.length.succ, (w.set x other h').set y .empty h', ?_, _, moved, fun z => ?_⟩
    · rw [call, queue_eq queues, ok_bind, queue_eq queues', ok_bind, if_neg self,
        LinkedQueue.moveAssign, run]
      rfl
    · rw [if_neg self]
      exact refines_lists_update (refines_lists_update same (some e')) (some []) z

/-- A call does on lists what it does on queues. -/
theorem call_holds (A) (holds : w.Holds lists) {c : QueueCall T} (valid : c.Valid lists) :
    ∃ n w', w.call A n c = .ok ((c.onLists lists).1, w') ∧ w'.Holds (c.onLists lists).2 := by
  cases c with
  | create x => exact ⟨0, create_holds A 0 holds valid⟩
  | copyConstruct x y =>
    obtain ⟨l, list'⟩ := Option.isSome_iff_exists.1 valid.2
    simpa only [QueueCall.onLists, list'] using copyConstruct_holds A holds valid.1 list'
  | moveConstruct x y =>
    obtain ⟨l, list'⟩ := Option.isSome_iff_exists.1 valid.2
    simpa only [QueueCall.onLists, list'] using
      ⟨0, moveConstruct_holds A 0 holds valid.1 list'⟩
  | append x a =>
    obtain ⟨l, list⟩ := Option.isSome_iff_exists.1 valid
    simpa only [QueueCall.onLists, list] using ⟨0, append_holds A 0 holds list a⟩
  | pop x =>
    obtain ⟨a, l, list⟩ := valid
    simpa only [QueueCall.onLists, list] using ⟨0, pop_holds A 0 holds list⟩
  | peekFirst x =>
    obtain ⟨a, l, list⟩ := valid
    refine ⟨0, w, ?_, holds⟩
    rw [(peek_eq A 0 holds list).1, QueueCall.onLists, list]
    rfl
  | peekLast x =>
    obtain ⟨a, l, list⟩ := valid
    refine ⟨0, w, ?_, holds⟩
    rw [(peek_eq A 0 holds list).2, QueueCall.onLists, list, Option.getD_some,
      List.getLast?_eq_some_getLast (List.cons_ne_nil a l)]
    rfl
  | isEmpty x =>
    obtain ⟨l, list⟩ := Option.isSome_iff_exists.1 valid
    refine ⟨0, w, ?_, holds⟩
    rw [isEmpty_eq A 0 holds list, QueueCall.onLists, list]
    rfl
  | rotateLeft x =>
    obtain ⟨l, list⟩ := Option.isSome_iff_exists.1 valid
    simpa only [QueueCall.onLists, list] using ⟨0, rotateLeft_holds A 0 holds list⟩
  | clear x =>
    obtain ⟨l, list⟩ := Option.isSome_iff_exists.1 valid
    exact clear_holds A holds list
  | copyAssign x y =>
    obtain ⟨l, list⟩ := Option.isSome_iff_exists.1 valid.1
    obtain ⟨l', list'⟩ := Option.isSome_iff_exists.1 valid.2
    simpa only [QueueCall.onLists, list'] using copyAssign_holds A holds list list'
  | moveAssign x y =>
    obtain ⟨l, list⟩ := Option.isSome_iff_exists.1 valid.1
    obtain ⟨l', list'⟩ := Option.isSome_iff_exists.1 valid.2
    simpa only [QueueCall.onLists, list'] using moveAssign_holds A holds list list'
  | destroy x =>
    obtain ⟨l, list⟩ := Option.isSome_iff_exists.1 valid
    exact destroy_holds A holds list

/-! ## Fuel -/

section

variable {n : Nat} {h : QueueHeap T}

theorem run_getD_mono {σ α : Type} {body : σ → Loop.Next σ (Except Fault α)} {s : σ} {a : α}
    (run : (Loop.run body n s).getD (.error .undefined) = .ok a) (le : n ≤ fuel) :
    (Loop.run body fuel s).getD (.error .undefined) = .ok a := by
  cases loop : Loop.run body n s with
  | none => rw [loop] at run; cases run
  | some result =>
    rw [loop] at run
    rw [Loop.run_mono loop le]
    exact run

theorem clear_mono {r : LinkedQueue × QueueHeap T} (run : queue.clear n h = .ok r)
    (le : n ≤ fuel) : queue.clear fuel h = .ok r := by
  obtain ⟨cleared, loop, rest⟩ := bind_eq_ok run
  rw [LinkedQueue.clear, run_getD_mono loop le]
  exact rest

theorem appendAll_mono {r : LinkedQueue × QueueHeap T} (run : queue.appendAll A n other h = .ok r)
    (le : n ≤ fuel) : queue.appendAll A fuel other h = .ok r :=
  run_getD_mono run le

/-- More fuel does not change what a call does. -/
theorem call_mono {c : QueueCall T} {r : QueueAnswer T × QueueWorld T}
    (run : w.call A n c = .ok r) (le : n ≤ fuel) : w.call A fuel c = .ok r := by
  cases c with
  | copyConstruct x y =>
    obtain ⟨other, found, run⟩ := bind_eq_ok run
    obtain ⟨copied, loop, run⟩ := bind_eq_ok run
    rw [call, found, ok_bind, LinkedQueue.copyConstruct, appendAll_mono loop le]
    exact run
  | clear x =>
    obtain ⟨queue, found, run⟩ := bind_eq_ok run
    obtain ⟨cleared, loop, run⟩ := bind_eq_ok run
    rw [call, found, ok_bind, clear_mono loop le]
    exact run
  | destroy x =>
    obtain ⟨queue, found, run⟩ := bind_eq_ok run
    obtain ⟨cleared, loop, run⟩ := bind_eq_ok run
    rw [call, found, ok_bind, clear_mono loop le]
    exact run
  | copyAssign x y =>
    obtain ⟨queue, found, run⟩ := bind_eq_ok run
    obtain ⟨other, found', run⟩ := bind_eq_ok run
    rw [call, found, ok_bind, found', ok_bind]
    by_cases self : x = y
    · rw [if_pos self] at run ⊢
      exact run
    · rw [if_neg self] at run ⊢
      obtain ⟨copied, loops, run⟩ := bind_eq_ok run
      obtain ⟨⟨queue', h'⟩, first, second⟩ := bind_eq_ok loops
      rw [LinkedQueue.copyAssign, clear_mono first le, ok_bind]
      dsimp only
      rw [appendAll_mono second le]
      exact run
  | moveAssign x y =>
    obtain ⟨queue, found, run⟩ := bind_eq_ok run
    obtain ⟨other, found', run⟩ := bind_eq_ok run
    rw [call, found, ok_bind, found', ok_bind]
    by_cases self : x = y
    · rw [if_pos self] at run ⊢
      exact run
    · rw [if_neg self] at run ⊢
      obtain ⟨moved, loop, run⟩ := bind_eq_ok run
      obtain ⟨cleared, loop, rest⟩ := bind_eq_ok loop
      rw [LinkedQueue.moveAssign, clear_mono loop le, ok_bind, rest]
      exact run
  | _ => exact run

end

/-! ## What a program sees -/

end QueueWorld

/-- The chain, the ends and the two peeks of a queue with the elements `e`. -/
structure LinkedQueue.Shows (queue : LinkedQueue) (cells : QueueElements T) (e : List (Nat × T)) :
    Prop where
  chain : Segment cells queue.head e none
  acyclic : (places e).Nodup
  tail : queue.tail = (places e).getLast?
  null : queue.tail = none ↔ queue.head = none
  first : queue.peekFirst cells = (elements e).head?
  last : queue.peekLast cells = (elements e).getLast?

theorem LinkedQueue.Holds.shows {queue : LinkedQueue} {cells : QueueElements T}
    {e : List (Nat × T)} (holds : queue.Holds cells e) : queue.Shows cells e where
  chain := holds.chain
  acyclic := holds.distinct
  tail := by rw [holds.last, List.getLast?_map]
  null := by rw [holds.tail_eq_none_iff, holds.head_eq_none_iff]
  first := holds.peekFirst
  last := holds.peekLast

/-- The variables that have lists have queues that show them. An element that is in a queue was
allocated once more than it was deleted, and every other as often; no deletion was of an element
that was not in use. -/
structure QueueWorld.Shows (w : QueueWorld T) (lists : QueueLists T) (entries : QueueEntries T) :
    Prop where
  same : ∀ x, lists x = (entries x).map elements
  absent : ∀ x, lists x = none → w.queues x = none
  shows : ∀ x e, entries x = some e → ∃ queue, w.queues x = some queue ∧ queue.Shows w.heap.cells e
  apart : ∀ x y e e', entries x = some e → entries y = some e' → x ≠ y →
    ∀ p ∈ places e, p ∉ places e'
  once : Ledger.Sound w.heap.log
  kept : ∀ x e, entries x = some e → ∀ p ∈ places e,
    w.heap.log.count (.allocated p) = w.heap.log.count (.freed p) + 1
  freed : ∀ p, (∀ x e, entries x = some e → p ∉ places e) →
    w.heap.log.count (.allocated p) = w.heap.log.count (.freed p)

theorem QueueWorld.Refines.shows {w : QueueWorld T} {lists : QueueLists T}
    {entries : QueueEntries T} (refines : w.Refines entries)
    (same : ∀ x, lists x = (entries x).map elements) : w.Shows lists entries where
  same := same
  absent := fun x list => refines.absent x (entries_eq_none same list)
  shows := fun x e found => by
    obtain ⟨queue, queues, holds⟩ := refines.holds x e found
    exact ⟨queue, queues, holds.shows⟩
  apart := refines.apart
  once := refines.tracks.sound
  kept := fun x e found p mem => by
    obtain ⟨queue, -, holds⟩ := refines.holds x e found
    exact (refines.tracks.sound.count p).1 ((refines.tracks.live p).2 (holds.chain.isSome mem))
  freed := fun p outside => by
    refine (refines.tracks.sound.count p).2 fun live => ?_
    obtain ⟨x, e, found, mem⟩ := refines.owned p ((refines.tracks.live p).1 live)
    exact outside x e found mem

/-! ## Runs -/

/-- A program between two calls: its queues, and the lists they are to be. -/
structure QueueRun (T : Type) where
  world : QueueWorld T
  lists : QueueLists T

namespace QueueRun

def init : QueueRun T := { world := .empty, lists := fun _ => none }

def step (A : Ledger.Allocator) (fuel : Nat) (s : QueueRun T) (c : QueueCall T) : QueueRun T where
  world :=
    match s.world.call A fuel c with
    | .ok (_, world) => world
    | .error _ => s.world
  lists := (c.onLists s.lists).2

/-- The call goes through with the answer that the lists give, and the queues afterwards show the
lists. -/
def Agrees (A : Ledger.Allocator) (fuel : Nat) (s : QueueRun T) (c : QueueCall T) : Prop :=
  ∃ world, s.world.call A fuel c = .ok ((c.onLists s.lists).1, world) ∧
    ∃ entries, world.Shows (c.onLists s.lists).2 entries

end QueueRun

/-- The calls are such as a program may make. -/
def QueueCalls.Valid : QueueLists T → List (QueueCall T) → Prop :=
  Along (fun lists c => (c.onLists lists).2) fun lists c => c.Valid lists

theorem along_agrees (A : Ledger.Allocator) {s : QueueRun T} {calls : List (QueueCall T)}
    (holds : s.world.Holds s.lists) (valid : QueueCalls.Valid s.lists calls) :
    ∃ n, ∀ fuel ≥ n, Along (QueueRun.step A fuel) (QueueRun.Agrees A fuel) s calls := by
  induction calls generalizing s with
  | nil => exact ⟨0, fun _ _ => trivial⟩
  | cons c calls ih =>
    obtain ⟨now, later⟩ := valid
    obtain ⟨n, world, run, holds'⟩ := QueueWorld.call_holds A holds now
    obtain ⟨n', rest⟩ := ih (s := ⟨world, (c.onLists s.lists).2⟩) holds' later
    obtain ⟨entries, refines, same⟩ := holds'
    refine ⟨max n n', fun fuel enough => ?_⟩
    have run' := QueueWorld.call_mono run (le_trans (le_max_left n n') enough)
    refine ⟨⟨world, run', entries, refines.shows same⟩, ?_⟩
    have step : QueueRun.step A fuel s c = ⟨world, (c.onLists s.lists).2⟩ := by
      rw [QueueRun.step, run']
    rw [step]
    exact rest fuel (le_trans (le_max_right n n') enough)

/-- **Queues are lists.** Whatever a program does with queues, each call goes through with the
answer that the lists give, whatever places the allocator picks. -/
theorem queues_refine_lists (A : Ledger.Allocator) (calls : List (QueueCall T))
    (valid : QueueCalls.Valid (fun _ => none) calls) :
    ∃ n, ∀ fuel ≥ n, Along (QueueRun.step A fuel) (QueueRun.Agrees A fuel) .init calls :=
  along_agrees A ⟨_, QueueWorld.empty_refines, fun _ => rfl⟩ valid

/-- Two elements, of which one is rotated to the end and one is copied and taken. -/
theorem queues_refine_lists_two :
    ∃ n, ∀ fuel ≥ n, Along (QueueRun.step .bump fuel) (QueueRun.Agrees .bump fuel) .init
      [.create 0, .append 0 'a', .append 0 'b', .rotateLeft 0, .copyConstruct 1 0, .pop 1,
        .destroy 0] :=
  queues_refine_lists .bump _
    ⟨rfl, rfl, rfl, rfl, ⟨rfl, rfl⟩, ⟨'b', ['a'], rfl⟩, rfl, trivial⟩

end MatteOS.Utils
