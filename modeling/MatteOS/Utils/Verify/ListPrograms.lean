import MatteOS.Utils.Verify.ArrayList
import MatteOS.Lib.Transition

/-!
# Programs with array lists

What the calls of a program do to sequences (`ListCall.onSequences`), and when its lists agree with
them: if and only if every object that is removed stands the removal, and no element of a full list
is added to the list itself (`arrayLists_agree_iff`).
-/

namespace MatteOS.Utils

open Transition ArrayList ObjectHeap

variable {Object Value : Type} (E : ElementType Object Value)

/-! ## Sequences -/

/-- The sequence of each variable that has a list. -/
abbrev Sequences (Value : Type) := Nat → Option (List Value)

/-- The answer to a call and the sequences after it. -/
def ListCall.onSequences (sequences : Sequences Value) :
    ListCall Object → ListAnswer Value × Sequences Value
  | .create x | .reset x => (.done, Function.update sequences x (some []))
  | .add x value | .addMoved x value =>
    let xs := (sequences x).getD []
    (.index xs.length, Function.update sequences x (some (xs ++ (E.value value).toList)))
  | .addElement x y index =>
    let xs := (sequences x).getD []
    let ys := (sequences y).getD []
    (.index xs.length, Function.update sequences x (some (xs ++ ys[index]?.toList)))
  | .get x index => (.element ((sequences x).getD [])[index]?, sequences)
  | .remove x index =>
    (.done, Function.update sequences x (some (((sequences x).getD []).eraseIdx index)))
  | .copyConstruct x y | .copyAssign x y => (.done, Function.update sequences x (sequences y))

/-- The variables of the call have lists, the one it constructs has none yet, the object to be added
is an element, and the index is one of an element. -/
def ListCall.Valid (sequences : Sequences Value) : ListCall Object → Prop
  | .create x => sequences x = none
  | .add x value | .addMoved x value => (sequences x).isSome ∧ (E.value value).isSome
  | .addElement x y index => (sequences x).isSome ∧ ∃ ys, sequences y = some ys ∧ index < ys.length
  | .get x index | .remove x index => ∃ xs, sequences x = some xs ∧ index < xs.length
  | .reset x => (sequences x).isSome
  | .copyConstruct x y => sequences x = none ∧ (sequences y).isSome
  | .copyAssign x y => (sequences x).isSome ∧ (sequences y).isSome

/-! ## Refinement -/

/-- Every list is its sequence, and no two have one block. -/
structure Refines (w : ListWorld Object) (sequences : Sequences Value) : Prop where
  absent : ∀ x, sequences x = none → w.lists x = none
  represents : ∀ x xs, sequences x = some xs →
    ∃ l, w.lists x = some l ∧ Represents E w.heap l xs
  apart : ∀ x y l l', w.lists x = some l → w.lists y = some l' → l.array = l'.array → x = y
  bounded : w.heap.Bounded

variable {E} {w : ListWorld Object} {sequences : Sequences Value} {x y i : Nat} {l l' : ArrayList}
  {h' : ObjectHeap Object} {xs ys : List Value}

theorem empty_refines : Refines E (ListWorld.empty : ListWorld Object) fun _ => none :=
  ⟨fun _ _ => rfl, fun _ _ found => absurd found.symm (Option.some_ne_none _),
    fun _ _ _ _ found => absurd found.symm (Option.some_ne_none _), fun _ _ => rfl⟩

theorem set_lists_self : (w.set x l h').lists x = some l := Function.update_self _ _ _

theorem set_lists_of_ne (ne : y ≠ x) : (w.set x l h').lists y = w.lists y :=
  Function.update_of_ne ne _ _

theorem list_eq (found : w.lists x = some l) : w.list x = .ok l := by
  rw [ListWorld.list, found]
  rfl

/-- A variable that has a list has a sequence. -/
theorem Refines.sequence (refines : Refines E w sequences) (found : w.lists x = some l) :
    ∃ xs, sequences x = some xs ∧ Represents E w.heap l xs := by
  cases sequence : sequences x with
  | none =>
    rw [refines.absent x sequence] at found
    cases found
  | some xs =>
    obtain ⟨l', found', represents⟩ := refines.represents x xs sequence
    obtain rfl := Option.some.inj (found.symm.trans found')
    exact ⟨xs, rfl, represents⟩

/-- The lists of other variables are untouched by a call that leaves `xs` in `x`. -/
theorem Refines.set (refines : Refines E w sequences)
    (becomes : Becomes E w.heap ((w.lists x).map ArrayList.array) l h' xs) :
    Refines E (w.set x l h') (Function.update sequences x (some xs)) := by
  -- the block of another list is neither the one that `x` had nor a new one
  have other : ∀ y l', y ≠ x → w.lists y = some l' →
      l'.array < w.heap.next ∧ (w.lists x).map ArrayList.array ≠ some l'.array := by
    intro y l' ne found
    obtain ⟨ys, -, b, block, -⟩ := refines.sequence found
    refine ⟨refines.bounded.lt block, fun same => ne ?_⟩
    obtain ⟨lx, foundX, array⟩ := Option.map_eq_some_iff.1 same
    exact (refines.apart x y lx l' foundX found array).symm
  have outside : ∀ y l', y ≠ x → w.lists y = some l' → l'.array ≠ l.array := by
    intro y l' ne found same
    obtain ⟨lt, notOwn⟩ := other y l' ne found
    rcases becomes.array with own | fresh
    · exact notOwn (by rw [own, same])
    · omega
  refine ⟨fun y => ?_, fun y ys => ?_, fun y z ly lz => ?_, becomes.bounded⟩
  · by_cases same : y = x
    · simp [same]
    · rw [set_lists_of_ne same, Function.update_of_ne same]
      exact refines.absent y
  · by_cases same : y = x
    · subst same
      rw [Function.update_self]
      rintro ⟨rfl⟩
      exact ⟨l, set_lists_self, becomes.represents⟩
    · rw [Function.update_of_ne same, set_lists_of_ne same]
      intro sequence
      obtain ⟨l', found, b, block, holds⟩ := refines.represents y ys sequence
      obtain ⟨lt, notOwn⟩ := other y l' same found
      exact ⟨l', found, b, (becomes.kept _ lt notOwn).trans block, holds⟩
  · by_cases sameY : y = x
    · by_cases sameZ : z = x
      · intro _ _ _
        rw [sameY, sameZ]
      · subst sameY
        rw [set_lists_self, set_lists_of_ne sameZ]
        rintro ⟨rfl⟩ found same
        exact absurd same.symm (outside z lz sameZ found)
    · by_cases sameZ : z = x
      · subst sameZ
        rw [set_lists_self, set_lists_of_ne sameY]
        rintro found ⟨rfl⟩ same
        exact absurd same (outside y ly sameY found)
      · rw [set_lists_of_ne sameY, set_lists_of_ne sameZ]
        exact refines.apart y z ly lz

theorem Refines.replace (refines : Refines E w sequences) (found : w.lists x = some l)
    (becomes : Becomes E w.heap (some l.array) l' h' xs) :
    Refines E (w.set x l' h') (Function.update sequences x (some xs)) := by
  refine refines.set ?_
  rw [found]
  exact becomes

theorem Refines.construct (refines : Refines E w sequences) (fresh : sequences x = none)
    (becomes : Becomes E w.heap none l h' xs) :
    Refines E (w.set x l h') (Function.update sequences x (some xs)) := by
  refine refines.set ?_
  rw [refines.absent x fresh]
  exact becomes

/-! ## Calls -/

section

variable {value : Object}

theorem create_refines (refines : Refines E w sequences) (fresh : sequences x = none) :
    ∃ w', w.call E (.create x) = .ok (.done, w') ∧
      Refines E w' (Function.update sequences x (some [])) :=
  ⟨_, rfl, refines.construct fresh (create_becomes refines.bounded)⟩

/-- Either `add` appends its object, which is outside the lists. -/
theorem addBy_refines (refines : Refines E w sequences) (sequence : sequences x = some xs)
    {construct : Object → Object} {v : Value} (new : E.value (construct value) = some v) :
    ∃ l l' h', w.lists x = some l ∧
      addBy E construct l (.object value) w.heap = .ok (xs.length, l', h') ∧
      Refines E (w.set x l' h') (Function.update sequences x (some (xs ++ [v]))) := by
  obtain ⟨l, found, represents⟩ := refines.represents x xs sequence
  have read : ∀ h : ObjectHeap Object, (∀ p < w.heap.next, p ≠ l.array →
      h.blocks p = w.heap.blocks p) → (Reference.object value).read h = .ok value := fun _ _ => rfl
  obtain ⟨l', h', run, becomes⟩ := addBy_becomes refines.bounded represents read new
  exact ⟨l, l', h', found, run, refines.replace found becomes⟩

theorem add_refines (refines : Refines E w sequences) (sequence : sequences x = some xs)
    {v : Value} (element : E.value value = some v) :
    ∃ w', w.call E (.add x value) = .ok (.index xs.length, w') ∧
      Refines E w' (Function.update sequences x (some (xs ++ [v]))) := by
  obtain ⟨l, l', h', found, run, refines'⟩ :=
    addBy_refines refines sequence (E.copy_value element)
  refine ⟨_, ?_, refines'⟩
  rw [ListWorld.call, list_eq found, ok_bind, ArrayList.add, run]
  rfl

theorem addMoved_refines (refines : Refines E w sequences) (sequence : sequences x = some xs)
    {v : Value} (element : E.value value = some v) :
    ∃ w', w.call E (.addMoved x value) = .ok (.index xs.length, w') ∧
      Refines E w' (Function.update sequences x (some (xs ++ [v]))) := by
  obtain ⟨l, l', h', found, run, refines'⟩ := @addBy_refines _ _ E w sequences x xs value refines
    sequence (fun o => (E.move o).1) v (E.move_value element).1
  refine ⟨_, ?_, refines'⟩
  rw [ListWorld.call, list_eq found, ok_bind, ArrayList.addMoved, run]
  rfl

/-- An element of another list, or of one that does not have to grow, is appended. -/
theorem addElement_refines (refines : Refines E w sequences) (sequence : sequences x = some xs)
    (sequenceOther : sequences y = some ys) (inside : i < ys.length)
    (room : x = y → ∀ l, w.lists x = some l → l.ptr < l.size) :
    ∃ w', w.call E (.addElement x y i) = .ok (.index xs.length, w') ∧
      Refines E w' (Function.update sequences x (some (xs ++ [ys[i]]))) := by
  obtain ⟨l, found, represents⟩ := refines.represents x xs sequence
  obtain ⟨other, foundOther, b, block, holds⟩ := refines.represents y ys sequenceOther
  rw [← holds.ptr] at inside
  have fits := holds.fits
  have size := holds.size
  obtain ⟨o, slot, element⟩ := holds.slot inside
  rw [List.getElem?_eq_getElem (by rwa [← holds.ptr])] at element
  have read : ∀ h : ObjectHeap Object, h.blocks other.array = some b →
      (Reference.slot other.array i).read h = .ok o := fun h block => by
    rw [Reference.read, block_eq block, ok_bind, Block.read_eq (by omega) slot]
  have added : ∃ l' h', ArrayList.add E l (.slot other.array i) w.heap = .ok (xs.length, l', h') ∧
      Becomes E w.heap (some l.array) l' h' (xs ++ [ys[i]]) := by
    by_cases same : x = y
    · exact addBy_room refines.bounded represents (room same l found) (read _ block)
        (E.copy_value element)
    · refine addBy_becomes refines.bounded represents (fun h kept => read h ?_)
        (E.copy_value element)
      rw [kept _ (refines.bounded.lt block) fun array =>
        same (refines.apart x y l other found foundOther array.symm)]
      exact block
  obtain ⟨l', h', run, becomes⟩ := added
  refine ⟨_, ?_, refines.replace found becomes⟩
  rw [ListWorld.call, list_eq found, ok_bind, list_eq foundOther, ok_bind, run]
  rfl

theorem get_refines (refines : Refines E w sequences) (sequence : sequences x = some xs)
    (inside : i < xs.length) :
    w.call E (.get x i) = .ok (.element xs[i]?, w) := by
  obtain ⟨l, found, represents⟩ := refines.represents x xs sequence
  obtain ⟨o, get, element⟩ := represents.shows.get i inside
  rw [ListWorld.call, list_eq found, ok_bind, get, ok_bind, element]
  rfl

theorem remove_refines (refines : Refines E w sequences) (sequence : sequences x = some xs)
    (inside : i < xs.length) (removable : ∀ l o, w.lists x = some l →
      l.object w.heap i = some o → E.Removable o (l.object w.heap (i + 1))) :
    ∃ w', w.call E (.remove x i) = .ok (.done, w') ∧
      Refines E w' (Function.update sequences x (some (xs.eraseIdx i))) := by
  obtain ⟨l, found, represents⟩ := refines.represents x xs sequence
  have inside : i < l.ptr := by
    obtain ⟨b, block, holds⟩ := represents
    rwa [holds.ptr]
  obtain ⟨l', h', run, becomes⟩ :=
    remove_becomes refines.bounded represents inside fun o => removable l o found
  refine ⟨_, ?_, refines.replace found becomes⟩
  rw [ListWorld.call, list_eq found, ok_bind, run]
  rfl

theorem reset_refines (refines : Refines E w sequences) (sequence : sequences x = some xs) :
    ∃ w', w.call E (.reset x) = .ok (.done, w') ∧
      Refines E w' (Function.update sequences x (some [])) := by
  obtain ⟨l, found, represents⟩ := refines.represents x xs sequence
  obtain ⟨l', h', run, becomes⟩ := reset_becomes refines.bounded represents
  refine ⟨_, ?_, refines.replace found becomes⟩
  rw [ListWorld.call, list_eq found, ok_bind, run]
  rfl

theorem copyConstruct_refines (refines : Refines E w sequences) (fresh : sequences x = none)
    (sequence : sequences y = some ys) :
    ∃ w', w.call E (.copyConstruct x y) = .ok (.done, w') ∧
      Refines E w' (Function.update sequences x (some ys)) := by
  obtain ⟨other, found, represents⟩ := refines.represents y ys sequence
  obtain ⟨l, h', run, becomes⟩ := copyElements_becomes refines.bounded represents
  refine ⟨_, ?_, refines.construct fresh becomes⟩
  rw [ListWorld.call, list_eq found, ok_bind, ArrayList.copyConstruct, run]
  rfl

theorem copyAssign_refines (refines : Refines E w sequences) (sequence : sequences x = some xs)
    (sequenceOther : sequences y = some ys) :
    ∃ w', w.call E (.copyAssign x y) = .ok (.done, w') ∧
      Refines E w' (Function.update sequences x (some ys)) := by
  obtain ⟨l, found, represents⟩ := refines.represents x xs sequence
  obtain ⟨other, foundOther, representsOther⟩ := refines.represents y ys sequenceOther
  by_cases same : x = y
  · refine ⟨w, ?_, ?_⟩
    · rw [ListWorld.call, list_eq found, ok_bind, list_eq foundOther, ok_bind, if_pos same]
      rfl
    · rwa [same, ← sequenceOther, Function.update_eq_self]
  · obtain ⟨l', h', run, becomes⟩ := copyAssign_becomes refines.bounded represents representsOther
      fun array => same (refines.apart x y l other found foundOther array)
    refine ⟨_, ?_, refines.replace found becomes⟩
    rw [ListWorld.call, list_eq found, ok_bind, list_eq foundOther, ok_bind, if_neg same, run]
    rfl

end

/-! ## Runs -/

/-- A program between two calls: its lists, and the sequences they are to be. -/
structure ListRun (Object Value : Type) where
  world : ListWorld Object
  sequences : Sequences Value

namespace ListRun

variable (E)

def init : ListRun Object Value where
  world := .empty
  sequences := fun _ => none

def step (s : ListRun Object Value) (call : ListCall Object) : ListRun Object Value where
  world :=
    match s.world.call E call with
    | .ok (_, world) => world
    | .error _ => s.world
  sequences := (call.onSequences E s.sequences).2

/-- The call is one that a program may make. -/
def Valid (s : ListRun Object Value) (call : ListCall Object) : Prop := call.Valid E s.sequences

/-- The call goes through with the answer that the sequences give, and afterwards every list shows
its sequence. -/
def Agrees (s : ListRun Object Value) (call : ListCall Object) : Prop :=
  ∃ world, s.world.call E call = .ok ((call.onSequences E s.sequences).1, world) ∧
    ∀ x xs, (call.onSequences E s.sequences).2 x = some xs →
      ∃ l, world.lists x = some l ∧ Shows E world.heap l xs

/-- An object that is removed stands its removal, and an element is not added to its own list when
that is full. -/
def Tolerates (s : ListRun Object Value) : ListCall Object → Prop
  | .remove x index => ∀ l o, s.world.lists x = some l → l.object s.world.heap index = some o →
    E.Removable o (l.object s.world.heap (index + 1))
  | .addElement x y _ => x = y → ∀ l, s.world.lists x = some l → l.ptr < l.size
  | _ => True

variable {E} {s : ListRun Object Value} {call : ListCall Object}

theorem call_refines (refines : Refines E s.world s.sequences) (valid : s.Valid E call)
    (tolerates : s.Tolerates E call) :
    ∃ w, s.world.call E call = .ok ((call.onSequences E s.sequences).1, w) ∧
      Refines E w (call.onSequences E s.sequences).2 := by
  cases call with
  | create x => exact create_refines refines valid
  | add x value =>
    obtain ⟨list, element⟩ := valid
    obtain ⟨xs, sequence⟩ := Option.isSome_iff_exists.1 list
    obtain ⟨v, element⟩ := Option.isSome_iff_exists.1 element
    simp only [ListCall.onSequences, sequence, element, Option.getD_some, Option.toList_some]
    exact add_refines refines sequence element
  | addMoved x value =>
    obtain ⟨list, element⟩ := valid
    obtain ⟨xs, sequence⟩ := Option.isSome_iff_exists.1 list
    obtain ⟨v, element⟩ := Option.isSome_iff_exists.1 element
    simp only [ListCall.onSequences, sequence, element, Option.getD_some, Option.toList_some]
    exact addMoved_refines refines sequence element
  | addElement x y index =>
    obtain ⟨list, ys, sequenceOther, inside⟩ := valid
    obtain ⟨xs, sequence⟩ := Option.isSome_iff_exists.1 list
    simp only [ListCall.onSequences, sequence, sequenceOther, Option.getD_some,
      List.getElem?_eq_getElem inside, Option.toList_some]
    exact addElement_refines refines sequence sequenceOther inside tolerates
  | get x index =>
    obtain ⟨xs, sequence, inside⟩ := valid
    simp only [ListCall.onSequences, sequence, Option.getD_some]
    exact ⟨_, get_refines refines sequence inside, refines⟩
  | remove x index =>
    obtain ⟨xs, sequence, inside⟩ := valid
    simp only [ListCall.onSequences, sequence, Option.getD_some]
    exact remove_refines refines sequence inside tolerates
  | reset x =>
    obtain ⟨xs, sequence⟩ := Option.isSome_iff_exists.1 valid
    exact reset_refines refines sequence
  | copyConstruct x y =>
    obtain ⟨fresh, list⟩ := valid
    obtain ⟨ys, sequence⟩ := Option.isSome_iff_exists.1 list
    simp only [ListCall.onSequences, sequence]
    exact copyConstruct_refines refines fresh sequence
  | copyAssign x y =>
    obtain ⟨list, listOther⟩ := valid
    obtain ⟨xs, sequence⟩ := Option.isSome_iff_exists.1 list
    obtain ⟨ys, sequenceOther⟩ := Option.isSome_iff_exists.1 listOther
    simp only [ListCall.onSequences, sequenceOther]
    exact copyAssign_refines refines sequence sequenceOther

/-- A call after which the lists show their sequences is one that is tolerated. -/
theorem tolerates_of_agrees (refines : Refines E s.world s.sequences) (valid : s.Valid E call)
    (agrees : s.Agrees E call) : s.Tolerates E call := by
  obtain ⟨world, run, shows⟩ := agrees
  cases call with
  | remove x index =>
    obtain ⟨xs, sequence, inside⟩ := valid
    intro l o found here
    obtain ⟨xs', sequence', represents⟩ := refines.sequence found
    obtain rfl := Option.some.inj (sequence.symm.trans sequence')
    have inside : index < l.ptr := by
      obtain ⟨b, block, holds⟩ := represents
      rwa [holds.ptr]
    rw [ListWorld.call, list_eq found, ok_bind] at run
    cases removed : l.remove E index s.world.heap with
    | error fault =>
      rw [removed] at run
      cases run
    | ok result =>
      obtain ⟨l', h'⟩ := result
      rw [removed, ok_bind] at run
      obtain ⟨-, rfl⟩ := Prod.mk.inj (Except.ok.inj run)
      simp only [ListCall.onSequences, sequence, Option.getD_some] at shows
      obtain ⟨l'', found', shows⟩ := shows x _ (Function.update_self _ _ _)
      obtain rfl := Option.some.inj (set_lists_self.symm.trans found')
      exact removable_of_remove represents inside removed shows here
  | addElement x y index =>
    rintro rfl l found
    obtain ⟨xs, sequence, represents⟩ := refines.sequence found
    by_contra full
    have undefined : l.add E (.slot l.array index) s.world.heap = .error .undefined :=
      addBy_freed refines.bounded represents (Nat.not_lt.1 full)
    rw [ListWorld.call, list_eq found, ok_bind, ok_bind, undefined] at run
    cases run
  | _ => trivial

theorem agrees_iff_tolerates (refines : Refines E s.world s.sequences) (valid : s.Valid E call) :
    s.Agrees E call ↔ s.Tolerates E call := by
  constructor
  · exact tolerates_of_agrees refines valid
  · intro tolerates
    obtain ⟨w, run, refines'⟩ := call_refines refines valid tolerates
    refine ⟨w, run, fun x xs sequence => ?_⟩
    obtain ⟨l, found, represents⟩ := refines'.represents x xs sequence
    exact ⟨l, found, represents.shows⟩

theorem step_refines (refines : Refines E s.world s.sequences) (valid : s.Valid E call)
    (agrees : s.Agrees E call) : Refines E (s.step E call).world (s.step E call).sequences := by
  obtain ⟨w, run, refines'⟩ :=
    call_refines refines valid ((agrees_iff_tolerates refines valid).1 agrees)
  unfold step
  rw [run]
  exact refines'

end ListRun

/-- **Lists are sequences.** Along every run of calls on any number of lists, of any element type,
the answers and the lists agree with the sequences at each call, if and only if the objects that
are removed stand it and no list is full when an element of it is added to it. -/
theorem arrayLists_agree_iff (calls : List (ListCall Object))
    (valid : Along (ListRun.step E) (ListRun.Valid E) .init calls) :
    Along (ListRun.step E) (ListRun.Agrees E) .init calls ↔
      Along (ListRun.step E) (ListRun.Tolerates E) .init calls := by
  apply Along.iff (J := fun s : ListRun Object Value => Refines E s.world s.sequences)
    (G := ListRun.Valid E)
  · intro s call refines valid
    exact ListRun.agrees_iff_tolerates refines valid
  · intro s call refines valid agrees
    exact ListRun.step_refines refines valid agrees
  · exact empty_refines
  · exact valid

/-- Integers and pointers, whose destructors do nothing. -/
def plain (Value : Type) : ElementType Value Value where
  value := some
  copy o := o
  move o := (o, o)
  assign _ o := some (o, o)
  destroy := some
  copy_value := id
  move_value element := ⟨element, rfl⟩
  assign_value := fun {_ o _ _} _ element => ⟨o, o, rfl, element⟩
  assign_source _ _ := rfl
  destroy_value _ := rfl

theorem arrayLists_agree_iff_plain :
    Along (ListRun.step (plain Nat)) (ListRun.Agrees (plain Nat)) .init
        [.create 0, .add 0 7, .copyConstruct 1 0, .remove 0 0, .get 1 0] ↔
      Along (ListRun.step (plain Nat)) (ListRun.Tolerates (plain Nat)) .init
        [.create 0, .add 0 7, .copyConstruct 1 0, .remove 0 0, .get 1 0] :=
  arrayLists_agree_iff _
    ⟨rfl, ⟨rfl, rfl⟩, ⟨rfl, rfl⟩, ⟨[7], rfl, by decide⟩, ⟨[7], rfl, by decide⟩, trivial⟩

/-- An object that owns memory, has given it away, or has freed it. -/
inductive Owner where
  | owning (v : Nat)
  | empty
  | freed
deriving DecidableEq

/-- A pointer that its destructor deletes and leaves as it is. -/
def Owner.elementType : ElementType Owner (Option Nat) where
  value
    | .owning v => some (some v)
    | .empty => some none
    | .freed => none
  copy o := o
  move o := (o, .empty)
  assign
    | .freed, _ => none
    | _, o => some (o, .empty)
  destroy
    | .owning _ => some .freed
    | .empty => some .empty
    | .freed => none
  copy_value := id
  move_value element := ⟨element, rfl⟩
  assign_value := fun {o o' _ _} here element => by
    cases o with
    | freed => cases here
    | _ => exact ⟨o', .empty, rfl, element⟩
  assign_source := fun {o _ _ _ _} _ assigned => by
    cases o with
    | freed => cases assigned
    | _ => cases assigned; rfl
  destroy_value := fun {o _} here => by
    cases o with
    | freed => cases here
    | _ => rfl

/-- The only element of a list is removed and freed twice, and an element of a full list is added
to it after the growth has freed its block. -/
theorem not_arrayLists_agree :
    (Along (ListRun.step Owner.elementType) (ListRun.Valid Owner.elementType) .init
        [.create 0, .addMoved 0 (.owning 7), .remove 0 0] ∧
      ¬Along (ListRun.step Owner.elementType) (ListRun.Agrees Owner.elementType) .init
        [.create 0, .addMoved 0 (.owning 7), .remove 0 0]) ∧
    (Along (ListRun.step (plain Nat)) (ListRun.Valid (plain Nat)) .init
        (.create 0 :: List.replicate 8 (.add 0 7) ++ [.addElement 0 0 0]) ∧
      ¬Along (ListRun.step (plain Nat)) (ListRun.Agrees (plain Nat)) .init
        (.create 0 :: List.replicate 8 (.add 0 7) ++ [.addElement 0 0 0])) := by
  refine ⟨⟨⟨rfl, ⟨rfl, rfl⟩, ⟨[some 7], rfl, by decide⟩, trivial⟩, ?_⟩, ⟨?_, ?_⟩⟩
  · rintro ⟨-, -, ⟨world, run, -⟩, -⟩
    cases run
  · exact ⟨rfl, ⟨rfl, rfl⟩, ⟨rfl, rfl⟩, ⟨rfl, rfl⟩, ⟨rfl, rfl⟩, ⟨rfl, rfl⟩, ⟨rfl, rfl⟩, ⟨rfl, rfl⟩,
      ⟨rfl, rfl⟩, ⟨rfl, _, rfl, by decide⟩, trivial⟩
  · rintro ⟨-, -, -, -, -, -, -, -, -, ⟨world, run, -⟩, -⟩
    cases run

end MatteOS.Utils
