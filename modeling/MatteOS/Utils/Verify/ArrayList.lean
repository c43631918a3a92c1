import MatteOS.Utils.ArrayList
import Mathlib.Data.List.Induction

/-!
# Array lists as sequences

The elements of a list are the objects in its first `m_ptr` slots (`Represents`). A call leaves a
list in its block or in a new one and touches no block of another list (`Becomes`). `remove`
destroys the element before it moves the others up, and the last slot after that: the removed
object is destroyed twice where it was the last, and assigned to after its destruction otherwise.
-/

namespace MatteOS.Utils

variable {Object Value : Type} {E : ElementType Object Value}

/-! ## Blocks -/

namespace Block

variable {b : Block Object} {i j : Nat} {o : Object} {v : Value}

/-- The element in a slot. -/
def element (E : ElementType Object Value) (b : Block Object) (i : Nat) : Option Value :=
  (b.slots i).bind E.value

def put (b : Block Object) (i : Nat) (o : Object) : Block Object :=
  { b with slots := Function.update b.slots i (some o) }

@[simp] theorem put_size : (b.put i o).size = b.size := rfl

@[simp] theorem put_slots_self : (b.put i o).slots i = some o := Function.update_self _ _ _

theorem put_slots_of_ne (ne : j ≠ i) : (b.put i o).slots j = b.slots j :=
  Function.update_of_ne ne _ _

@[simp] theorem element_put_self : (b.put i o).element E i = E.value o := by
  simp [element]

theorem element_put_of_ne (ne : j ≠ i) : (b.put i o).element E j = b.element E j := by
  simp [element, put_slots_of_ne ne]

theorem write_eq (inside : i < b.size) : b.write i o = .ok (b.put i o) := if_pos inside

theorem read_eq (inside : i < b.size) (slot : b.slots i = some o) : b.read i = .ok o := by
  simp [read, inside, slot, orUndefined]

theorem slots_of_element (element : b.element E i = some v) :
    ∃ o, b.slots i = some o ∧ E.value o = some v := Option.bind_eq_some_iff.1 element

end Block

/-! ## Loops over blocks -/

namespace ArrayList

open Block

variable {b b' other : Block Object} {i n : Nat} {o o' d s rest : Object} {v : Value}

theorem destroyAt_eq (inside : i < b.size) (slot : b.slots i = some o)
    (destroyed : E.destroy o = some rest) : destroyAt E i b = .ok (b.put i rest) := by
  unfold destroyAt
  rw [read_eq inside slot, ok_bind, destroyed, orUndefined, ok_bind, write_eq inside]

theorem destroyAt_undefined (inside : i < b.size) (slot : b.slots i = some o)
    (destroyed : E.destroy o = none) : destroyAt E i b = .error .undefined := by
  unfold destroyAt
  rw [read_eq inside slot, ok_bind, destroyed]
  rfl

/-- An element can be destroyed. -/
theorem destroyAt_element (inside : i < b.size) (element : b.element E i = some v) :
    ∃ rest, destroyAt E i b = .ok (b.put i rest) := by
  obtain ⟨o, slot, value⟩ := slots_of_element element
  obtain ⟨rest, destroyed⟩ := Option.isSome_iff_exists.1 (E.destroy_value value)
  exact ⟨rest, destroyAt_eq inside slot destroyed⟩

theorem copyAt_eq (inside : i < b.size) (insideOther : i < other.size)
    (slot : other.slots i = some o) : copyAt E other i b = .ok (b.put i (E.copy o)) := by
  unfold copyAt
  rw [read_eq insideOther slot, ok_bind, write_eq inside]

theorem shiftAt_eq (inside : i + 1 < b.size) (slot : b.slots i = some o)
    (next : b.slots (i + 1) = some o') (assigned : E.assign o o' = some (d, s)) :
    shiftAt E i b = .ok ((b.put i d).put (i + 1) s) := by
  have before : i < b.size := by omega
  unfold shiftAt
  rw [read_eq before slot, ok_bind, read_eq inside next, ok_bind, assigned, orUndefined, ok_bind]
  dsimp only
  rw [write_eq before, ok_bind]
  exact write_eq inside

theorem shiftAt_undefined (inside : i + 1 < b.size) (slot : b.slots i = some o)
    (next : b.slots (i + 1) = some o') (assigned : E.assign o o' = none) :
    shiftAt E i b = .error .undefined := by
  have before : i < b.size := by omega
  unfold shiftAt
  rw [read_eq before slot, ok_bind, read_eq inside next, ok_bind, assigned]
  rfl

/-- An element moves up over another one. -/
theorem shiftAt_element (inside : i + 1 < b.size) (here : (b.element E i).isSome)
    (next : (b.element E (i + 1)).isSome) :
    ∃ d s, shiftAt E i b = .ok ((b.put i d).put (i + 1) s) ∧
      E.value d = b.element E (i + 1) ∧ (E.value s).isSome := by
  obtain ⟨u, here⟩ := Option.isSome_iff_exists.1 here
  obtain ⟨v, next⟩ := Option.isSome_iff_exists.1 next
  obtain ⟨o, slot, value⟩ := slots_of_element here
  obtain ⟨o', slot', value'⟩ := slots_of_element next
  obtain ⟨d, s, assigned, moved⟩ := E.assign_value value value'
  exact ⟨d, s, shiftAt_eq inside slot slot' assigned, moved.trans next.symm,
    E.assign_source value' assigned⟩

theorem moveAt_element {tmpArray : Block Object} (inside : i < b.size)
    (insideNew : i < tmpArray.size) (element : b.element E i = some v) :
    ∃ o' rest, moveAt E i (tmpArray, b) = .ok (tmpArray.put i o', b.put i rest) ∧
      E.value o' = some v := by
  obtain ⟨o, slot, value⟩ := slots_of_element element
  obtain ⟨moved, left⟩ := E.move_value value
  obtain ⟨u, left⟩ := Option.isSome_iff_exists.1 left
  obtain ⟨rest, destroyed⟩ := Option.isSome_iff_exists.1 (E.destroy_value left)
  refine ⟨(E.move o).1, rest, ?_, moved⟩
  have destroy := @destroyAt_eq _ _ E (b.put i (E.move o).2) i _ _ inside put_slots_self destroyed
  have twice : (b.put i (E.move o).2).put i rest = b.put i rest := by simp [put]
  unfold moveAt
  simp only [read_eq inside slot, ok_bind, write_eq insideNew, write_eq inside, destroy, twice]
  rfl

/-- Before round `j` of the destruction, the slots from `j` on are as they were. -/
def Destroyed (b : Block Object) (j : Nat) (b' : Block Object) : Prop :=
  b'.size = b.size ∧ ∀ k, j ≤ k → b'.slots k = b.slots k

theorem Destroyed.round {j : Nat} (inv : Destroyed b j b') (inside : j < b.size)
    (element : (b.element E j).isSome) :
    ∃ b'', destroyAt E j b' = .ok b'' ∧ Destroyed b (j + 1) b'' := by
  obtain ⟨size, rest⟩ := inv
  obtain ⟨v, element⟩ := Option.isSome_iff_exists.1 element
  have here : b'.element E j = some v := by rwa [Block.element, rest j (Nat.le_refl j)]
  obtain ⟨left, destroyed⟩ := destroyAt_element (by omega) here
  refine ⟨_, destroyed, size, fun k le => ?_⟩
  rw [put_slots_of_ne (by omega), rest k (by omega)]

theorem destroyAll (fits : n ≤ b.size) (elements : ∀ j < n, (b.element E j).isSome) :
    ∃ b', Loop.forRange (destroyAt E) n 0 b = .ok b' ∧ b'.size = b.size := by
  obtain ⟨b', run, size, -⟩ := Loop.forRange_of_invariant (destroyAt E) (Destroyed b)
    (n := n) (i := 0) (fun j b' _ lt inv => inv.round (by omega) (elements j (by omega))) ⟨rfl, fun _ _ => rfl⟩
  exact ⟨b', run, size⟩

/-- Before round `j` of the copying, there are `j` copies. -/
def Copied (E : ElementType Object Value) (other b : Block Object) (j : Nat) (b' : Block Object) :
    Prop :=
  b'.size = b.size ∧ ∀ k < j, b'.element E k = other.element E k

theorem Copied.round {j : Nat} (inv : Copied E other b j b') (inside : j < b.size)
    (insideOther : j < other.size) (element : (other.element E j).isSome) :
    ∃ b'', copyAt E other j b' = .ok b'' ∧ Copied E other b (j + 1) b'' := by
  obtain ⟨size, copied⟩ := inv
  obtain ⟨v, element⟩ := Option.isSome_iff_exists.1 element
  obtain ⟨o, slot, value⟩ := slots_of_element element
  refine ⟨_, copyAt_eq (by omega) insideOther slot, size, fun k le => ?_⟩
  rcases Nat.lt_succ_iff_lt_or_eq.1 le with before | rfl
  · rw [element_put_of_ne (by omega), copied k before]
  · rw [element_put_self, E.copy_value value, element]

theorem copyAll (fits : n ≤ b.size) (fitsOther : n ≤ other.size)
    (elements : ∀ j < n, (other.element E j).isSome) :
    ∃ b', Loop.forRange (copyAt E other) n 0 b = .ok b' ∧ b'.size = b.size ∧
      ∀ j < n, b'.element E j = other.element E j := by
  obtain ⟨b', run, size, copied⟩ := Loop.forRange_of_invariant (copyAt E other) (Copied E other b)
    (n := n) (i := 0) (fun j b' _ lt inv => inv.round (by omega) (by omega) (elements j (by omega)))
    ⟨rfl, fun _ lt => absurd lt (Nat.not_lt_zero _)⟩
  rw [Nat.zero_add] at copied
  exact ⟨b', run, size, copied⟩

/-- Before round `j` of the growth, `j` elements have moved and the others are where they were. -/
def Moved (E : ElementType Object Value) (tmpArray b : Block Object) (j : Nat)
    (blocks : Block Object × Block Object) : Prop :=
  blocks.1.size = tmpArray.size ∧ blocks.2.size = b.size ∧
    (∀ k < j, blocks.1.element E k = b.element E k) ∧ ∀ k, j ≤ k → blocks.2.slots k = b.slots k

theorem Moved.round {tmpArray : Block Object} {j : Nat} {blocks : Block Object × Block Object}
    (inv : Moved E tmpArray b j blocks) (inside : j < b.size) (insideNew : j < tmpArray.size)
    (element : (b.element E j).isSome) :
    ∃ blocks', moveAt E j blocks = .ok blocks' ∧ Moved E tmpArray b (j + 1) blocks' := by
  obtain ⟨tmp', b'⟩ := blocks
  obtain ⟨size, sizeOld, moved, rest⟩ := inv
  dsimp only at size sizeOld moved rest
  obtain ⟨v, element⟩ := Option.isSome_iff_exists.1 element
  have here : b'.element E j = some v := by rwa [Block.element, rest j (Nat.le_refl j)]
  obtain ⟨o, left, run, value⟩ := @moveAt_element _ _ E b' j v tmp' (by omega) (by omega) here
  refine ⟨_, run, size, sizeOld, fun k le => ?_, fun k le => ?_⟩
  · rcases Nat.lt_succ_iff_lt_or_eq.1 le with before | rfl
    · rw [element_put_of_ne (by omega), moved k before]
    · rw [element_put_self, value, element]
  · rw [put_slots_of_ne (by omega), rest k (by omega)]

theorem moveAll {tmpArray : Block Object} (fits : n ≤ b.size) (fitsNew : n ≤ tmpArray.size)
    (elements : ∀ j < n, (b.element E j).isSome) :
    ∃ tmp' b', Loop.forRange (moveAt E) n 0 (tmpArray, b) = .ok (tmp', b') ∧
      tmp'.size = tmpArray.size ∧ ∀ j < n, tmp'.element E j = b.element E j := by
  obtain ⟨⟨tmp', b'⟩, run, size, -, moved, -⟩ := Loop.forRange_of_invariant (moveAt E)
    (Moved E tmpArray b) (n := n) (i := 0) (s := (tmpArray, b))
    (fun j blocks _ lt inv => inv.round (by omega) (by omega) (elements j (by omega)))
    ⟨rfl, rfl, fun _ lt => absurd lt (Nat.not_lt_zero _), fun _ _ => rfl⟩
  rw [Nat.zero_add] at moved
  exact ⟨tmp', b', run, size, moved⟩

/-- Before round `k` of the loop of `remove`, the elements behind slot `i` have moved up by one as
far as slot `k`, which holds what was moved from. -/
structure Shifted (E : ElementType Object Value) (b : Block Object) (i k : Nat)
    (b' : Block Object) : Prop where
  size : b'.size = b.size
  before : ∀ j < i, b'.element E j = b.element E j
  moved : ∀ j, i ≤ j → j < k → b'.element E j = b.element E (j + 1)
  here : (b'.element E k).isSome
  rest : ∀ j, k < j → b'.element E j = b.element E j

theorem Shifted.round {k : Nat} (inv : Shifted E b i k b') (le : i ≤ k) (inside : k + 1 < b.size)
    (element : (b.element E (k + 1)).isSome) :
    ∃ b'', shiftAt E k b' = .ok b'' ∧ Shifted E b i (k + 1) b'' := by
  have size := inv.size
  have next : b'.element E (k + 1) = b.element E (k + 1) := inv.rest _ (Nat.lt_succ_self k)
  obtain ⟨d, s, run, value, left⟩ := @shiftAt_element _ _ E b' k (by omega) inv.here
    (by rwa [next])
  refine ⟨_, run, size, fun j lt => ?_, fun j le lt => ?_, by rwa [element_put_self],
    fun j lt => ?_⟩
  · rw [element_put_of_ne (by omega), element_put_of_ne (by omega), inv.before j lt]
  · rw [element_put_of_ne (by omega)]
    rcases Nat.lt_succ_iff_lt_or_eq.1 lt with above | rfl
    · rw [element_put_of_ne (by omega), inv.moved j le above]
    · rw [element_put_self, value, next]
  · rw [element_put_of_ne (by omega), element_put_of_ne (by omega), inv.rest j (by omega)]

theorem shiftAll (fits : i + n < b.size)
    (elements : ∀ j, i ≤ j → j ≤ i + n → (b.element E j).isSome) :
    ∃ b', Loop.forRange (shiftAt E) n i b = .ok b' ∧ Shifted E b i (i + n) b' :=
  Loop.forRange_of_invariant (shiftAt E) (Shifted E b i)
    (fun k _ le lt inv => inv.round le (by omega) (elements (k + 1) (by omega) (by omega)))
    ⟨rfl, fun _ _ => rfl, fun _ le lt => absurd lt (by omega),
      elements i (Nat.le_refl i) (by omega), fun _ _ => rfl⟩

end ArrayList

/-- The object stands what `remove` does to it: destruction, and then the assignment of the next
element, or another destruction where there is none. -/
def ElementType.Removable (E : ElementType Object Value) (o : Object) : Option Object → Prop
  | none => ∃ rest, E.destroy o = some rest ∧ (E.destroy rest).isSome
  | some next => ∃ rest d s, E.destroy o = some rest ∧ E.assign rest next = some (d, s) ∧
    E.value d = E.value next

/-! ## The heap -/

namespace ObjectHeap

variable {h : ObjectHeap Object} {p : Nat} {b : Block Object}

/-- No block is allocated that has not been handed out yet. -/
def Bounded (h : ObjectHeap Object) : Prop := ∀ p, h.next ≤ p → h.blocks p = none

theorem block_eq (found : h.blocks p = some b) : h.block p = .ok b := by
  rw [block, found]
  rfl

theorem kfree_eq (found : h.blocks p = some b) :
    h.kfree p = .ok { h with blocks := Function.update h.blocks p none } := by
  rw [kfree, block_eq found]
  rfl

theorem Bounded.lt (bounded : h.Bounded) (found : h.blocks p = some b) : p < h.next := by
  by_contra le
  rw [bounded p (Nat.le_of_not_lt le)] at found
  cases found

end ObjectHeap

namespace ArrayList

open Block ObjectHeap

/-- The block holds the elements `xs` of a list. -/
structure Holds (E : ElementType Object Value) (b : Block Object) (l : ArrayList)
    (xs : List Value) : Prop where
  ptr : l.ptr = xs.length
  fits : l.ptr ≤ l.size
  capacity : DEFAULT_SIZE ≤ l.size
  size : b.size = l.size
  elements : ∀ i < xs.length, b.element E i = xs[i]?

/-- The list is the sequence `xs`. -/
def Represents (E : ElementType Object Value) (h : ObjectHeap Object) (l : ArrayList)
    (xs : List Value) : Prop :=
  ∃ b, h.blocks l.array = some b ∧ Holds E b l xs

/-- A call leaves a list that is `xs`, in the block `own` if it had one or in a new one, and no
other block is touched. -/
structure Becomes (E : ElementType Object Value) (h : ObjectHeap Object) (own : Option Nat)
    (l : ArrayList) (h' : ObjectHeap Object) (xs : List Value) : Prop where
  represents : Represents E h' l xs
  kept : ∀ p < h.next, own ≠ some p → h'.blocks p = h.blocks p
  array : own = some l.array ∨ h.next ≤ l.array
  next : h.next ≤ h'.next
  bounded : h'.Bounded

section

variable {h h' : ObjectHeap Object} {l other : ArrayList} {b : Block Object} {xs ys : List Value}
  {v : Value} {i : Nat}

theorem Holds.element (holds : Holds E b l xs) (lt : i < l.ptr) : (b.element E i).isSome := by
  have inside : i < xs.length := by rwa [← holds.ptr]
  rw [holds.elements i inside, List.getElem?_eq_getElem inside]
  rfl

theorem Becomes.trans {own : Option Nat} {l' : ArrayList} {h'' : ObjectHeap Object}
    (first : Becomes E h own l h' xs) (second : Becomes E h' (some l.array) l' h'' ys) :
    Becomes E h own l' h'' ys where
  represents := second.represents
  kept p lt ne := by
    have other : some l.array ≠ some p := by
      rintro same
      obtain rfl := Option.some.inj same
      rcases first.array with own | fresh
      · exact ne own
      · exact absurd lt (Nat.not_lt.2 fresh)
    rw [second.kept p (Nat.lt_of_lt_of_le lt first.next) other, first.kept p lt ne]
  array := by
    rcases second.array with same | fresh
    · rw [← Option.some.inj same]
      exact first.array
    · exact .inr (Nat.le_trans first.next fresh)
  next := Nat.le_trans first.next second.next
  bounded := second.bounded

theorem create_becomes (bounded : h.Bounded) :
    Becomes E h none (create h).1 (create h).2 [] where
  represents := ⟨.raw DEFAULT_SIZE, Function.update_self _ _ _, rfl, Nat.zero_le _, Nat.le_refl _,
    rfl, fun _ lt => absurd lt (Nat.not_lt_zero _)⟩
  kept p lt _ := Function.update_of_ne (Nat.ne_of_lt lt) _ _
  array := .inr (Nat.le_refl _)
  next := Nat.le_succ _
  bounded p le := by
    have le : h.next + 1 ≤ p := le
    exact (Function.update_of_ne (by omega) _ _).trans (bounded p (by omega))

/-- A copy has the elements of its source. -/
theorem copyElements_becomes (bounded : h.Bounded) (represents : Represents E h other xs) :
    ∃ l h', copyElements E other h = .ok (l, h') ∧ Becomes E h none l h' xs := by
  obtain ⟨b, found, holds⟩ := represents
  have apart : other.array ≠ h.next := Nat.ne_of_lt (bounded.lt found)
  have size := holds.size
  have fits := holds.fits
  obtain ⟨b', run, size', copied⟩ := @copyAll _ _ E (.raw other.size) b other.ptr fits (by omega)
    (fun j lt => holds.element lt)
  have source : (h.kmalloc other.size).2.blocks other.array = some b :=
    (Function.update_of_ne apart _ _).trans found
  have target : (h.kmalloc other.size).2.blocks h.next = some (.raw other.size) :=
    Function.update_self _ _ _
  refine ⟨⟨h.next, other.size, other.ptr⟩, (h.kmalloc other.size).2.setBlock h.next b', ?_, ?_⟩
  · unfold copyElements
    dsimp only
    rw [block_eq source, ok_bind, show (h.kmalloc other.size).1 = h.next from rfl,
      block_eq target, ok_bind, run, ok_bind]
    rfl
  · refine ⟨⟨b', Function.update_self _ _ _, holds.ptr, fits, holds.capacity, size', ?_⟩,
      fun p lt _ => ?_, .inr (Nat.le_refl _), Nat.le_succ _, fun p le => ?_⟩
    · intro j lt
      rw [copied j (by rwa [holds.ptr]), holds.elements j lt]
    · exact (Function.update_of_ne (Nat.ne_of_lt lt) _ _).trans
        (Function.update_of_ne (Nat.ne_of_lt lt) _ _)
    · have le : h.next + 1 ≤ p := le
      exact (Function.update_of_ne (by omega) _ _).trans
        ((Function.update_of_ne (by omega) _ _).trans (bounded p (by omega)))

/-- The block of a list is freed and no other. -/
theorem release_eq (represents : Represents E h l xs) :
    release E l h = .ok { h with blocks := Function.update h.blocks l.array none } := by
  obtain ⟨b, found, holds⟩ := represents
  have size := holds.size
  have fits := holds.fits
  obtain ⟨b', run, -⟩ := @destroyAll _ _ E b l.ptr (by omega) (fun j lt => holds.element lt)
  unfold release
  rw [block_eq found, ok_bind, run, ok_bind, kfree_eq (Function.update_self _ _ _)]
  simp [setBlock]

/-- Freeing a block leaves a heap in which the other blocks are as they were. -/
theorem bounded_free (bounded : h.Bounded) (p : Nat) :
    ObjectHeap.Bounded { h with blocks := Function.update h.blocks p none } := by
  intro q le
  dsimp only
  by_cases same : q = p
  · rw [same, Function.update_self]
  · rw [Function.update_of_ne same, bounded q le]

/-- What a call makes in place of the list that was released. -/
theorem Becomes.of_release {p : Nat}
    (becomes : Becomes E { h with blocks := Function.update h.blocks p none } none l h' xs) :
    Becomes E h (some p) l h' xs where
  represents := becomes.represents
  kept q lt ne :=
    (becomes.kept q lt (Option.some_ne_none q).symm).trans
      (Function.update_of_ne (fun same => ne (congrArg some same.symm)) _ _)
  array := .inr (becomes.array.resolve_left (Option.some_ne_none _).symm)
  next := becomes.next
  bounded := becomes.bounded

theorem reset_becomes (bounded : h.Bounded) (represents : Represents E h l xs) :
    ∃ l' h', reset E l h = .ok (l', h') ∧ Becomes E h (some l.array) l' h' [] := by
  refine ⟨_, _, ?_, (create_becomes (bounded_free bounded l.array)).of_release⟩
  rw [reset, release_eq represents]
  rfl

theorem copyAssign_becomes (bounded : h.Bounded) (represents : Represents E h l xs)
    (representsOther : Represents E h other ys) (apart : l.array ≠ other.array) :
    ∃ l' h', copyAssign E l other h = .ok (l', h') ∧ Becomes E h (some l.array) l' h' ys := by
  obtain ⟨b, found, holds⟩ := representsOther
  obtain ⟨l', h', run, becomes⟩ := copyElements_becomes (bounded_free bounded l.array)
    ⟨b, (Function.update_of_ne apart.symm _ _).trans found, holds⟩
  refine ⟨l', h', ?_, becomes.of_release⟩
  rw [copyAssign, release_eq represents, ok_bind, run]

/-- Growth doubles the capacity and frees the old block. -/
theorem grow_becomes (bounded : h.Bounded) (represents : Represents E h l xs) :
    ∃ h', grow E l h = .ok ({ l with array := h.next, size := l.size * 2 }, h') ∧
      Becomes E h (some l.array) { l with array := h.next, size := l.size * 2 } h' xs ∧
      h'.blocks l.array = none := by
  obtain ⟨b, found, holds⟩ := represents
  have old := bounded.lt found
  have size := holds.size
  have room : l.size ≤ l.size * 2 := Nat.le_mul_of_pos_right _ (by decide)
  obtain ⟨tmp', b', run, size', moved⟩ := @moveAll _ _ E b l.ptr (.raw (l.size * 2))
    (by rw [size]; exact holds.fits) (Nat.le_trans holds.fits room)
    (fun j lt => holds.element lt)
  have source : (h.kmalloc (l.size * 2)).2.blocks l.array = some b :=
    (Function.update_of_ne (Nat.ne_of_lt old) _ _).trans found
  have target : (h.kmalloc (l.size * 2)).2.blocks h.next = some (.raw (l.size * 2)) :=
    Function.update_self _ _ _
  let written := ((h.kmalloc (l.size * 2)).2.setBlock h.next tmp').setBlock l.array b'
  have blocks : ∀ p ≠ l.array, p ≠ h.next → written.blocks p = h.blocks p := fun p ne ne' =>
    (Function.update_of_ne ne _ _).trans
      ((Function.update_of_ne ne' _ _).trans (Function.update_of_ne ne' _ _))
  refine ⟨{ written with blocks := Function.update written.blocks l.array none }, ?_,
    ⟨⟨tmp', ?_, holds.ptr, Nat.le_trans holds.fits room, Nat.le_trans holds.capacity room, size',
      ?_⟩, fun p lt ne => ?_, .inr (Nat.le_refl _), Nat.le_succ _, fun p le => ?_⟩,
    Function.update_self _ _ _⟩
  · unfold grow
    dsimp only
    rw [show (h.kmalloc (l.size * 2)).1 = h.next from rfl, block_eq target, ok_bind,
      block_eq source, ok_bind, run, ok_bind]
    dsimp only
    rw [kfree_eq (Function.update_self _ _ _)]
    rfl
  · exact (Function.update_of_ne (Nat.ne_of_gt old) _ _).trans
      ((Function.update_of_ne (Nat.ne_of_gt old) _ _).trans (Function.update_self _ _ _))
  · intro j lt
    rw [moved j (by rwa [holds.ptr]), holds.elements j lt]
  · have other : p ≠ l.array := fun same => ne (congrArg some same.symm)
    exact (Function.update_of_ne other _ _).trans (blocks p other (Nat.ne_of_lt lt))
  · have le : h.next + 1 ≤ p := le
    have other : p ≠ l.array := by omega
    exact (Function.update_of_ne other _ _).trans
      ((blocks p other (by omega)).trans (bounded p (by omega)))

/-- A list in the same block, which is all that is written. -/
theorem becomes_setBlock (bounded : h.Bounded) (found : h.blocks l.array = some b)
    (l' : ArrayList) (same : l'.array = l.array) {b' : Block Object} (holds : Holds E b' l' ys) :
    Becomes E h (some l.array) l' (h.setBlock l.array b') ys where
  represents := ⟨b', by rw [same]; exact Function.update_self _ _ _, holds⟩
  kept p _ ne := Function.update_of_ne (fun same => ne (congrArg some same.symm)) _ _
  array := .inl (by rw [same])
  next := Nat.le_refl _
  bounded p le :=
    (Function.update_of_ne (Nat.ne_of_gt (Nat.lt_of_lt_of_le (bounded.lt found) le)) _ _).trans
      (bounded p le)

/-! ### Adding an element -/

variable {construct : Object → Object} {value : Reference Object} {o : Object}

/-- A block of twice the size has room for another element. -/
theorem Holds.lt_doubled (holds : Holds E b l xs) : l.ptr < l.size * 2 := by
  have fits := holds.fits
  have capacity := holds.capacity
  unfold DEFAULT_SIZE at capacity
  omega

/-- The element goes into the first slot behind the others. -/
theorem Holds.push (holds : Holds E b l xs) (room : l.ptr < l.size) (new : E.value o = some v) :
    Holds E (b.put l.ptr o) { l with ptr := l.ptr + 1 } (xs ++ [v]) where
  ptr := by rw [List.length_append, holds.ptr, List.length_singleton]
  fits := room
  capacity := holds.capacity
  size := holds.size
  elements j lt := by
    rw [List.length_append, List.length_singleton, ← holds.ptr] at lt
    rcases Nat.lt_succ_iff_lt_or_eq.1 lt with before | rfl
    · rw [element_put_of_ne (Nat.ne_of_lt before),
        List.getElem?_append_left (by rwa [← holds.ptr]),
        holds.elements j (by rwa [← holds.ptr])]
    · rw [element_put_self, new, holds.ptr, List.getElem?_concat_length]

theorem addBy_room (bounded : h.Bounded) (represents : Represents E h l xs) (room : l.ptr < l.size)
    (read : value.read h = .ok o) (new : E.value (construct o) = some v) :
    ∃ l' h', addBy E construct l value h = .ok (xs.length, l', h') ∧
      Becomes E h (some l.array) l' h' (xs ++ [v]) := by
  obtain ⟨b, found, holds⟩ := represents
  refine ⟨{ l with ptr := l.ptr + 1 }, h.setBlock l.array (b.put l.ptr (construct o)), ?_,
    becomes_setBlock bounded found { l with ptr := l.ptr + 1 } rfl (holds.push room new)⟩
  unfold addBy
  rw [if_neg (Nat.not_le.2 room), ok_bind]
  dsimp only
  rw [read, ok_bind, block_eq found, ok_bind, write_eq (by rwa [holds.size]), ok_bind,
    ← holds.ptr]
  rfl

theorem addBy_full (full : l.size ≤ l.ptr) {l' : ArrayList} (grown : grow E l h = .ok (l', h'))
    (room : l'.ptr < l'.size) :
    addBy E construct l value h = addBy E construct l' value h' := by
  unfold addBy
  rw [if_pos full, grown, if_neg (Nat.not_le.2 room)]

/-- `add` appends the element, unless it is read from a block that the growth has freed. -/
theorem addBy_becomes (bounded : h.Bounded) (represents : Represents E h l xs)
    (read : ∀ h', (∀ p < h.next, p ≠ l.array → h'.blocks p = h.blocks p) → value.read h' = .ok o)
    (new : E.value (construct o) = some v) :
    ∃ l' h', addBy E construct l value h = .ok (xs.length, l', h') ∧
      Becomes E h (some l.array) l' h' (xs ++ [v]) := by
  by_cases room : l.ptr < l.size
  · exact addBy_room bounded represents room (read h fun _ _ _ => rfl) new
  · obtain ⟨h', grown, becomes, -⟩ := grow_becomes bounded represents
    obtain ⟨b, found, holds⟩ := represents
    have doubled := holds.lt_doubled
    rw [addBy_full (Nat.not_lt.1 room) grown doubled]
    have kept : value.read h' = .ok o := read h' fun p lt ne =>
      becomes.kept p lt fun same => ne (Option.some.inj same).symm
    obtain ⟨l'', h'', run, rest⟩ := @addBy_room _ _ E h' _ xs v construct value o becomes.bounded
      becomes.represents doubled kept new
    exact ⟨l'', h'', run, becomes.trans rest⟩

/-- An element of a full list cannot be added to it: the growth frees the block it is in. -/
theorem addBy_freed (bounded : h.Bounded) (represents : Represents E h l xs)
    (full : l.size ≤ l.ptr) :
    addBy E construct l (.slot l.array i) h = .error .undefined := by
  obtain ⟨h', grown, becomes, freed⟩ := grow_becomes bounded represents
  obtain ⟨b, found, holds⟩ := represents
  have doubled := holds.lt_doubled
  have read : (Reference.slot l.array i : Reference Object).read h' = .error .undefined := by
    rw [Reference.read, ObjectHeap.block, freed]
    rfl
  rw [addBy_full full grown doubled]
  unfold addBy
  rw [if_neg (Nat.not_le.2 doubled), ok_bind]
  dsimp only
  rw [read]
  rfl

/-! ### Removing an element -/

variable {next d s rest : Object}

theorem predecessor_succ (n : Nat) : predecessor (n + 1) = n := if_neg (Nat.succ_ne_zero n)

theorem Holds.slot (holds : Holds E b l xs) (lt : i < l.ptr) :
    ∃ o, b.slots i = some o ∧ E.value o = xs[i]? := by
  obtain ⟨v, element⟩ := Option.isSome_iff_exists.1 (holds.element lt)
  obtain ⟨o, slot, value⟩ := slots_of_element element
  exact ⟨o, slot, by rw [value, ← element, holds.elements i (by rwa [← holds.ptr])]⟩

/-- The elements of a list that has lost the one at `i`. -/
theorem Holds.erase (holds : Holds E b l xs) (lt : i < l.ptr) {b' : Block Object}
    (size : b'.size = b.size) (before : ∀ j < i, b'.element E j = b.element E j)
    (behind : ∀ j, i ≤ j → j + 1 < l.ptr → b'.element E j = b.element E (j + 1)) :
    Holds E b' { l with ptr := predecessor l.ptr } (xs.eraseIdx i) := by
  have inside : i < xs.length := by rwa [← holds.ptr]
  obtain ⟨n, count⟩ : ∃ n, l.ptr = n + 1 := ⟨l.ptr - 1, by omega⟩
  have length : (xs.eraseIdx i).length = n := by
    rw [List.length_eraseIdx_of_lt inside, ← holds.ptr, count]
    rfl
  refine ⟨?_, ?_, holds.capacity, size.trans holds.size, fun j lt => ?_⟩
  · rw [length, count, predecessor_succ]
  · have fits := holds.fits
    show predecessor l.ptr ≤ l.size
    rw [count, predecessor_succ]
    omega
  · rw [length] at lt
    rw [List.getElem?_eraseIdx]
    split
    · rw [before j ‹_›, holds.elements j (by omega)]
    · rw [behind j (Nat.not_lt.1 ‹_›) (by omega),
        holds.elements (j + 1) (by rw [← holds.ptr]; omega)]

theorem remove_eq (found : h.blocks l.array = some b) (inside : i < l.size) :
    remove E l i h = (do
      let b ← destroyAt E i b
      let b ← Loop.forRange (shiftAt E) (predecessor l.ptr - i) i b
      let b ← destroyAt E (predecessor l.ptr) b
      return ({ l with ptr := predecessor l.ptr }, h.setBlock l.array b)) := by
  unfold remove
  rw [if_pos inside, block_eq found, ok_bind]

section

variable (found : h.blocks l.array = some b) (holds : Holds E b l xs)

include found holds

theorem remove_undestroyed (lt : i < l.ptr) (slot : b.slots i = some o)
    (destroyed : E.destroy o = none) : remove E l i h = .error .undefined := by
  have fits := holds.fits
  have size := holds.size
  rw [remove_eq found (by omega), destroyAt_undefined (by omega) slot destroyed]
  rfl

theorem remove_last (last : l.ptr = i + 1) (slot : b.slots i = some o)
    (destroyed : E.destroy o = some rest) :
    remove E l i h = (do
      let b ← destroyAt E i (b.put i rest)
      return ({ l with ptr := i }, h.setBlock l.array b)) := by
  have fits := holds.fits
  have size := holds.size
  rw [remove_eq found (by omega), destroyAt_eq (by omega) slot destroyed, ok_bind, last,
    predecessor_succ, Nat.sub_self]
  rfl

theorem remove_last_undefined (last : l.ptr = i + 1) (slot : b.slots i = some o)
    (destroyed : E.destroy o = some rest) (again : E.destroy rest = none) :
    remove E l i h = .error .undefined := by
  have fits := holds.fits
  have size := holds.size
  rw [remove_last found holds last slot destroyed,
    destroyAt_undefined (by rw [put_size]; omega) put_slots_self again]
  rfl

theorem remove_middle_undefined (lt : i + 1 < l.ptr) (slot : b.slots i = some o)
    (slotNext : b.slots (i + 1) = some next) (destroyed : E.destroy o = some rest)
    (assigned : E.assign rest next = none) : remove E l i h = .error .undefined := by
  have fits := holds.fits
  have size := holds.size
  obtain ⟨n, count⟩ : ∃ n, l.ptr = i + n + 2 := ⟨l.ptr - i - 2, by omega⟩
  have rounds : predecessor l.ptr - i = n + 1 := by
    rw [count, show i + n + 2 = (i + n + 1) + 1 from rfl, predecessor_succ]
    omega
  have nextLeft : (b.put i rest).slots (i + 1) = some next := by
    rwa [put_slots_of_ne (Nat.succ_ne_self i)]
  rw [remove_eq found (by omega), destroyAt_eq (by omega) slot destroyed, ok_bind, rounds,
    Loop.forRange, shiftAt_undefined (by rw [put_size]; omega) put_slots_self nextLeft assigned]
  rfl

/-- The next element is assigned to the removed object, and the others move up behind it. -/
theorem remove_middle (lt : i + 1 < l.ptr) (slot : b.slots i = some o)
    (slotNext : b.slots (i + 1) = some next) (destroyed : E.destroy o = some rest)
    (assigned : E.assign rest next = some (d, s)) :
    ∃ b', remove E l i h = .ok ({ l with ptr := predecessor l.ptr }, h.setBlock l.array b') ∧
      b'.size = b.size ∧ (∀ j < i, b'.element E j = b.element E j) ∧
      b'.element E i = E.value d ∧
      ∀ j, i < j → j + 1 < l.ptr → b'.element E j = b.element E (j + 1) := by
  have fits := holds.fits
  have size := holds.size
  obtain ⟨n, count⟩ : ∃ n, l.ptr = i + n + 2 := ⟨l.ptr - i - 2, by omega⟩
  -- the first round writes over what the destructor has left
  have nextLeft : (b.put i rest).slots (i + 1) = some next := by
    rwa [put_slots_of_ne (Nat.succ_ne_self i)]
  have first := shiftAt_eq (show i + 1 < (b.put i rest).size by rw [put_size]; omega)
    put_slots_self nextLeft assigned
  let b₁ := ((b.put i rest).put i d).put (i + 1) s
  have element : ∀ j, j ≠ i → j ≠ i + 1 → b₁.element E j = b.element E j := fun j ne ne' => by
    rw [element_put_of_ne ne', element_put_of_ne ne, element_put_of_ne ne]
  have value : ∃ v, E.value next = some v := by
    obtain ⟨v, value⟩ := Option.isSome_iff_exists.1 (holds.element lt)
    exact ⟨v, by rwa [Block.element, slotNext] at value⟩
  obtain ⟨v, value⟩ := value
  obtain ⟨b₂, loop, shifted⟩ := @shiftAll _ _ E b₁ (i + 1) n
    (show i + 1 + n < b.size by omega) fun j le le' => by
      rcases Nat.eq_or_lt_of_le le with rfl | lt'
      · rw [element_put_self]
        exact E.assign_source value assigned
      · rw [element j (by omega) (by omega)]
        exact holds.element (by omega)
  have size₂ : b₂.size = b.size := shifted.size
  obtain ⟨u, here⟩ := Option.isSome_iff_exists.1 shifted.here
  obtain ⟨left, lastDestroyed⟩ := @destroyAt_element _ _ E b₂ (i + 1 + n) u (by omega) here
  refine ⟨b₂.put (i + 1 + n) left, ?_, size₂, fun j lt' => ?_, ?_, fun j lt' lt'' => ?_⟩
  · have rounds : predecessor l.ptr - i = n + 1 := by
      rw [count, show i + n + 2 = (i + n + 1) + 1 from rfl, predecessor_succ]
      omega
    have lastSlot : predecessor l.ptr = i + 1 + n := by
      rw [count, show i + n + 2 = (i + n + 1) + 1 from rfl, predecessor_succ]
      omega
    rw [remove_eq found (by omega), destroyAt_eq (by omega) slot destroyed, ok_bind, rounds,
      Loop.forRange, first, Except.bind, loop, ok_bind, lastSlot, lastDestroyed]
    rfl
  · rw [element_put_of_ne (by omega), shifted.before j (by omega),
      element j (by omega) (by omega)]
  · rw [element_put_of_ne (by omega), shifted.before i (by omega),
      element_put_of_ne (by omega), element_put_self]
  · rw [element_put_of_ne (by omega), shifted.moved j (by omega) (by omega),
      element (j + 1) (by omega) (by omega)]

end

/-- The object that is element `i`. -/
def object (l : ArrayList) (h : ObjectHeap Object) (i : Nat) : Option Object :=
  if i < l.ptr then (h.blocks l.array).bind (·.slots i) else none

theorem object_eq (found : h.blocks l.array = some b) (lt : i < l.ptr) :
    l.object h i = b.slots i := by
  rw [object, if_pos lt, found]
  rfl

theorem remove_becomes (bounded : h.Bounded) (represents : Represents E h l xs) (lt : i < l.ptr)
    (removable : ∀ o, l.object h i = some o → E.Removable o (l.object h (i + 1))) :
    ∃ l' h', remove E l i h = .ok (l', h') ∧
      Becomes E h (some l.array) l' h' (xs.eraseIdx i) := by
  obtain ⟨b, found, holds⟩ := represents
  have fits := holds.fits
  have size := holds.size
  obtain ⟨o, slot, value⟩ := holds.slot lt
  have removable := removable o (by rw [object_eq found lt, slot])
  by_cases last : i + 1 < l.ptr
  · obtain ⟨next, slotNext, valueNext⟩ := holds.slot last
    rw [object_eq found last, slotNext] at removable
    obtain ⟨rest, d, s, destroyed, assigned, same⟩ := removable
    obtain ⟨b', run, size', before, here, behind⟩ :=
      remove_middle found holds last slot slotNext destroyed assigned
    refine ⟨_, _, run, becomes_setBlock bounded found { l with ptr := predecessor l.ptr } rfl
      (holds.erase lt size' before fun j le lt' => ?_)⟩
    rcases Nat.eq_or_lt_of_le le with rfl | above
    · rw [here, same, Block.element, slotNext]
      rfl
    · exact behind j above lt'
  · rw [object, if_neg last] at removable
    obtain ⟨rest, destroyed, again⟩ := removable
    obtain ⟨left, again⟩ := Option.isSome_iff_exists.1 again
    have count : l.ptr = i + 1 := by omega
    have emptied : Holds E ((b.put i rest).put i left) { l with ptr := predecessor l.ptr }
        (xs.eraseIdx i) := by
      refine holds.erase lt rfl (fun j lt' => ?_) fun j le lt' => absurd lt' (by omega)
      rw [element_put_of_ne (Nat.ne_of_lt lt'), element_put_of_ne (Nat.ne_of_lt lt')]
    refine ⟨_, _, ?_,
      becomes_setBlock bounded found { l with ptr := predecessor l.ptr } rfl emptied⟩
    rw [remove_last found holds count slot destroyed,
      destroyAt_eq (by rw [put_size]; omega) put_slots_self again, count, predecessor_succ]
    rfl

theorem mapM_range {f : Nat → Option Value} (same : ∀ i < xs.length, f i = xs[i]?) :
    (List.range xs.length).mapM f = some xs := by
  induction xs using List.reverseRecOn with
  | nil => rfl
  | append_singleton xs x ih =>
    have before : ∀ i < xs.length, f i = xs[i]? := fun i lt => by
      rw [same i (by simp; omega), List.getElem?_append_left lt]
    have last : f xs.length = some x := by
      rw [same xs.length (by simp), List.getElem?_concat_length]
    rw [List.length_append, List.length_singleton, List.range_succ, List.mapM_append, ih before]
    simp [last]

/-- What a program can see of a list: its elements from `begin()` to `end()`, its size, each
element, and whether it is empty. -/
structure Shows (E : ElementType Object Value) (h : ObjectHeap Object) (l : ArrayList)
    (xs : List Value) : Prop where
  elements : l.elements E h = some xs
  length : l.length = xs.length
  get : ∀ i < xs.length, ∃ o, l.get i h = .ok o ∧ E.value o = xs[i]?
  isEmpty : l.isEmpty = xs.isEmpty

theorem get_eq (found : h.blocks l.array = some b) (lt : i < l.size) :
    l.get i h = b.read i := by
  unfold get
  rw [if_pos lt, block_eq found, ok_bind]

theorem Represents.shows (represents : Represents E h l xs) : Shows E h l xs := by
  obtain ⟨b, found, holds⟩ := represents
  have fits := holds.fits
  have size := holds.size
  refine ⟨?_, holds.ptr, fun i lt => ?_, ?_⟩
  · unfold ArrayList.elements
    rw [found, holds.ptr]
    exact mapM_range holds.elements
  · rw [← holds.ptr] at lt
    obtain ⟨o, slot, value⟩ := holds.slot lt
    exact ⟨o, by rw [get_eq found (by omega), read_eq (by omega) slot], value⟩
  · unfold ArrayList.isEmpty
    rw [holds.ptr]
    cases xs <;> rfl

/-- What `get` reads is what the slot holds. -/
theorem element_of_get (found : h.blocks l.array = some b) (get : l.get i h = .ok o) :
    b.element E i = E.value o := by
  have slot : b.slots i = some o := by
    unfold ArrayList.get Block.read at get
    rw [block_eq found, ok_bind] at get
    split_ifs at get
    cases slot : b.slots i with
    | none =>
      rw [slot] at get
      cases get
    | some o' =>
      rw [slot] at get
      rw [Except.ok.inj get]
  rw [Block.element, slot]
  rfl

/-- A removal that goes through and leaves the other elements is one of a removable object. -/
theorem removable_of_remove (represents : Represents E h l xs) (lt : i < l.ptr) {l' : ArrayList}
    (run : remove E l i h = .ok (l', h')) (shows : Shows E h' l' (xs.eraseIdx i))
    (here : l.object h i = some o) : E.Removable o (l.object h (i + 1)) := by
  obtain ⟨b, found, holds⟩ := represents
  have ptr := holds.ptr
  rw [object_eq found lt] at here
  cases destroyed : E.destroy o with
  | none =>
    rw [remove_undestroyed found holds lt here destroyed] at run
    cases run
  | some rest =>
    by_cases last : i + 1 < l.ptr
    · obtain ⟨next, slotNext, valueNext⟩ := holds.slot last
      rw [object_eq found last, slotNext]
      cases assigned : E.assign rest next with
      | none =>
        rw [remove_middle_undefined found holds last here slotNext destroyed assigned] at run
        cases run
      | some objects =>
        obtain ⟨d, s⟩ := objects
        obtain ⟨b', run', -, -, element, -⟩ :=
          remove_middle found holds last here slotNext destroyed assigned
        rw [run'] at run
        obtain ⟨rfl, rfl⟩ := Prod.mk.inj (Except.ok.inj run)
        have inside : i < (xs.eraseIdx i).length := by
          rw [List.length_eraseIdx_of_lt (by omega)]
          omega
        obtain ⟨o', get, value⟩ := shows.get i inside
        have moved := element_of_get (E := E) (b := b') (Function.update_self _ _ _) get
        rw [List.getElem?_eraseIdx, if_neg (Nat.lt_irrefl i), ← valueNext] at value
        exact ⟨rest, d, s, destroyed, assigned, by rw [← element, moved, value]⟩
    · have count : l.ptr = i + 1 := by omega
      rw [object, if_neg last]
      refine ⟨rest, destroyed, ?_⟩
      cases again : E.destroy rest with
      | none =>
        rw [remove_last_undefined found holds count here destroyed again] at run
        cases run
      | some left => rfl

end

end ArrayList

end MatteOS.Utils
