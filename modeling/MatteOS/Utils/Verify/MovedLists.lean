import MatteOS.Utils.MovedLists
import MatteOS.Utils.Verify.ListPrograms

/-!
# The capacity of lists that are moved

A list has at least eight slots or it has no block. Growth makes room in the first case, as twice
the slots are more of them, and in the second case it does not: twice nothing is nothing, and the
element is stored behind `nullptr` (`within_iff`).
-/

namespace MatteOS.Utils

open Transition ArrayList ObjectHeap

variable {Object Value : Type} {E : ElementType Object Value}

/-! ## Sizes of blocks -/

/-- How many slots the block at an address has. -/
def ObjectHeap.capacity (h : ObjectHeap Object) (p : Nat) : Option Nat :=
  (h.blocks p).map Block.size

section

variable {h h' : ObjectHeap Object} {b b' : Block Object} {p q i n : Nat}

theorem Block.write_size {o : Object} (run : b.write i o = .ok b') : b'.size = b.size ∧ i < b.size := by
  unfold Block.write at run
  split_ifs at run with inside
  cases run
  exact ⟨rfl, inside⟩

theorem block_ok (run : h.block p = .ok b) : h.blocks p = some b := by
  unfold ObjectHeap.block at run
  cases found : h.blocks p with
  | none =>
    rw [found] at run
    cases run
  | some b' =>
    rw [found] at run
    exact congrArg some (Except.ok.inj run)

theorem capacity_update {block : Option (Block Object)} :
    ObjectHeap.capacity { blocks := Function.update h.blocks p block, next := n } q =
      if q = p then block.map Block.size else h.capacity q := by
  by_cases same : q = p
  · subst same
    simp [capacity]
  · simp [capacity, same]

theorem capacity_setBlock (found : h.capacity p = some b.size) :
    (h.setBlock p b).capacity q = h.capacity q := by
  rw [setBlock, capacity_update]
  split
  next same => rw [same, found, Option.map_some]
  next => rfl

theorem destroyAt_size (run : destroyAt E i b = .ok b') : b'.size = b.size := by
  obtain ⟨_, -, run⟩ := bind_eq_ok run
  obtain ⟨_, -, run⟩ := bind_eq_ok run
  exact (Block.write_size run).1

theorem copyAt_size {other : Block Object} (run : copyAt E other i b = .ok b') :
    b'.size = b.size := by
  obtain ⟨_, -, run⟩ := bind_eq_ok run
  exact (Block.write_size run).1

theorem shiftAt_size (run : shiftAt E i b = .ok b') : b'.size = b.size := by
  obtain ⟨_, -, run⟩ := bind_eq_ok run
  obtain ⟨_, -, run⟩ := bind_eq_ok run
  obtain ⟨_, -, run⟩ := bind_eq_ok run
  obtain ⟨_, first, run⟩ := bind_eq_ok run
  exact (Block.write_size run).1.trans (Block.write_size first).1

theorem moveAt_size {blocks blocks' : Block Object × Block Object}
    (run : moveAt E i blocks = .ok blocks') : blocks'.1.size = blocks.1.size := by
  obtain ⟨_, -, run⟩ := bind_eq_ok run
  obtain ⟨tmpArray, written, run⟩ := bind_eq_ok run
  obtain ⟨_, -, run⟩ := bind_eq_ok run
  obtain ⟨_, -, run⟩ := bind_eq_ok run
  cases run
  exact (Block.write_size written).1

end

/-! ## Operations -/

/-- Blocks have addresses from 1 on, up to the next one. -/
structure Wild (h : ObjectHeap Object) : Prop where
  null : h.blocks 0 = none
  positive : 0 < h.next
  bounded : h.Bounded

/-- A list has no block, or one of at least eight slots, among them those of its elements. -/
inductive Sound (h : ObjectHeap Object) : ArrayList → Prop where
  | moved : Sound h ArrayList.moved
  | block {l : ArrayList} (capacity : h.capacity l.array = some l.size)
      (least : DEFAULT_SIZE ≤ l.size) (fits : l.ptr ≤ l.size) : Sound h l

/-- A call leaves a list that is sound, in the block `own` or in a new one if it has any, and
changes the size of no other block. -/
structure Leaves (h : ObjectHeap Object) (own : Nat) (l : ArrayList) (h' : ObjectHeap Object) :
    Prop where
  sound : Sound h' l
  kept : ∀ p < h.next, p ≠ own → h'.capacity p = h.capacity p
  array : l.array = own ∨ h.next ≤ l.array ∨ l.array = 0
  next : h.next ≤ h'.next
  wild : Wild h'

/-- The block `own` is gone, and no other. -/
structure Freed (h : ObjectHeap Object) (own : Nat) (h' : ObjectHeap Object) : Prop where
  kept : ∀ p ≠ own, h'.capacity p = h.capacity p
  next : h'.next = h.next
  wild : Wild h'

section

variable {h h' : ObjectHeap Object} {l l' other : ArrayList} {b : Block Object} {own n i : Nat}

theorem Sound.fits (sound : Sound h l) : l.ptr ≤ l.size := by
  cases sound with
  | moved => exact Nat.le_refl 0
  | block _ _ fits => exact fits

theorem Wild.capacity_null (wild : Wild h) : h.capacity 0 = none := by
  rw [capacity, wild.null]
  rfl

theorem Wild.capacity_lt (wild : Wild h) {p : Nat} (capacity : h.capacity p = some n) :
    0 < p ∧ p < h.next := by
  obtain ⟨b, found, -⟩ := Option.map_eq_some_iff.1 capacity
  refine ⟨Nat.pos_of_ne_zero fun null => ?_, wild.bounded.lt found⟩
  rw [null, wild.null] at found
  cases found

/-- A list whose block is not touched stays sound. -/
theorem Sound.of_capacity (sound : Sound h l)
    (kept : ∀ n, h.capacity l.array = some n → h'.capacity l.array = some n) : Sound h' l := by
  cases sound with
  | moved => exact .moved
  | block capacity least fits => exact .block (kept _ capacity) least fits

theorem Freed.leaves (freed : Freed h own h') {l : ArrayList} {h'' : ObjectHeap Object}
    (leaves : Leaves h' 0 l h'') : Leaves h own l h'' where
  sound := leaves.sound
  kept p lt ne := by
    rw [← freed.kept p ne]
    by_cases null : p = 0
    · rw [null, leaves.wild.capacity_null, freed.wild.capacity_null]
    · exact leaves.kept p (freed.next ▸ lt) null
  array := by
    rcases leaves.array with null | fresh | null
    · exact .inr (.inr null)
    · exact .inr (.inl (freed.next ▸ fresh))
    · exact .inr (.inr null)
  next := freed.next ▸ leaves.next
  wild := leaves.wild

/-- The new block of a list, and its old one that is freed behind it. -/
theorem Leaves.freed (wild : Wild h) (leaves : Leaves h 0 l h') (apart : l.array ≠ own)
    {h'' : ObjectHeap Object} (freed : Freed h' own h'') : Leaves h own l h'' where
  sound := leaves.sound.of_capacity fun n found => by rw [freed.kept _ apart, found]
  kept p lt ne := by
    rw [freed.kept p ne]
    by_cases null : p = 0
    · rw [null, wild.capacity_null, leaves.wild.capacity_null]
    · exact leaves.kept p lt null
  array := by
    rcases leaves.array with null | fresh
    · exact .inr (.inr null)
    · exact .inr fresh
  next := freed.next ▸ leaves.next
  wild := freed.wild

theorem leaves_create (wild : Wild h) : Leaves h 0 (create h).1 (create h).2 where
  sound := by
    refine .block ?_ (Nat.le_refl _) (Nat.zero_le _)
    exact capacity_update.trans (if_pos rfl)
  kept p lt _ := capacity_update.trans (if_neg (Nat.ne_of_lt lt))
  array := .inr (.inl (Nat.le_refl _))
  next := Nat.le_succ _
  wild := by
    have fresh : (0 : Nat) ≠ h.next := Nat.ne_of_lt wild.positive
    refine ⟨(Function.update_of_ne fresh _ _).trans wild.null, Nat.succ_pos _, ?_⟩
    intro p le
    have le : h.next + 1 ≤ p := le
    exact (Function.update_of_ne (by omega) _ _).trans (wild.bounded p (by omega))

theorem leaves_moved (wild : Wild h) : Leaves h 0 moved h where
  sound := .moved
  kept _ _ _ := rfl
  array := .inl rfl
  next := Nat.le_refl _
  wild := wild

/-- A heap in which blocks are changed, but not where they are. -/
theorem Wild.update (wild : Wild h) {p : Nat} (inside : 0 < p ∧ p < h.next)
    (block : Option (Block Object)) :
    Wild { h with blocks := Function.update h.blocks p block } where
  null := (Function.update_of_ne (Nat.ne_of_lt inside.1) _ _).trans wild.null
  positive := wild.positive
  bounded q le := by
    have le : h.next ≤ q := le
    exact (Function.update_of_ne (by omega) _ _).trans (wild.bounded q le)

/-- A block is freed after its last objects are destroyed. -/
theorem kfree_freed (wild : Wild h) {p : Nat} (inside : 0 < p ∧ p < h.next)
    (run : (h.setBlock p b).kfree p = .ok h') : Freed h p h' := by
  rw [kfree_eq (Function.update_self _ _ _)] at run
  cases run
  refine ⟨fun q ne => ?_, rfl, (wild.update inside _).update inside _⟩
  exact capacity_update.trans ((if_neg ne).trans (capacity_update.trans (if_neg ne)))

theorem release_freed (wild : Wild h) (run : release E l h = .ok h') : Freed h l.array h' := by
  obtain ⟨b, found, run⟩ := bind_eq_ok run
  obtain ⟨b', -, run⟩ := bind_eq_ok run
  exact kfree_freed wild (wild.capacity_lt (congrArg (Option.map Block.size) (block_ok found))) run

theorem clear_freed (wild : Wild h) (run : Movable.clear E l h = .ok h') : Freed h l.array h' := by
  unfold Movable.clear at run
  split_ifs at run with none
  · cases run
    exact ⟨fun _ _ => rfl, rfl, wild⟩
  · exact release_freed wild run

/-- A list that stays as it is. -/
theorem Sound.leaves (sound : Sound h l) (wild : Wild h) : Leaves h l.array l h where
  sound := sound
  kept _ _ _ := rfl
  array := .inl rfl
  next := Nat.le_refl _
  wild := wild

/-- What is written into the block of a list leaves it sound. -/
theorem Leaves.setBlock (leaves : Leaves h own l h') (size : h'.capacity l.array = some b.size)
    {ptr : Nat} (fits : ptr ≤ l.size) :
    Leaves h own { l with ptr := ptr } (h'.setBlock l.array b) where
  sound := by
    cases leaves.sound with
    | moved =>
      rw [moved, leaves.wild.capacity_null] at size
      cases size
    | block capacity least _ =>
      exact .block ((capacity_setBlock size).trans capacity) least fits
  kept p lt ne := (capacity_setBlock size).trans (leaves.kept p lt ne)
  array := leaves.array
  next := leaves.next
  wild := leaves.wild.update (leaves.wild.capacity_lt size) _

theorem leaves_kmalloc (wild : Wild h) (least : DEFAULT_SIZE ≤ l.size) (fits : l.ptr ≤ l.size)
    (size : b.size = l.size) :
    Leaves h 0 { l with array := h.next } ((h.kmalloc l.size).2.setBlock h.next b) where
  sound := .block ((capacity_update.trans (if_pos rfl)).trans (congrArg some size)) least fits
  kept p lt _ := by
    have old : p ≠ h.next := Nat.ne_of_lt lt
    exact (capacity_update.trans (if_neg old)).trans (capacity_update.trans (if_neg old))
  array := .inr (.inl (Nat.le_refl _))
  next := Nat.le_succ _
  wild := by
    have fresh : (0 : Nat) ≠ h.next := Nat.ne_of_lt wild.positive
    refine ⟨(Function.update_of_ne fresh _ _).trans
      ((Function.update_of_ne fresh _ _).trans wild.null), Nat.succ_pos _, ?_⟩
    intro p le
    have le : h.next + 1 ≤ p := le
    exact (Function.update_of_ne (by omega) _ _).trans
      ((Function.update_of_ne (by omega) _ _).trans (wild.bounded p (by omega)))

theorem kmalloc_size (found : (h.kmalloc n).2.block h.next = .ok b) : b.size = n := by
  have handed : (h.kmalloc n).2.blocks h.next = some (.raw n) := Function.update_self _ _ _
  rw [← Option.some.inj (handed.symm.trans (block_ok found))]
  rfl

theorem copyElements_leaves (wild : Wild h) (sound : Sound h other)
    (run : Movable.copyElements E other h = .ok (l, h')) : Leaves h 0 l h' := by
  unfold Movable.copyElements at run
  split_ifs at run with none
  · cases run
    exact leaves_moved wild
  · cases sound with
    | moved => exact absurd ⟨rfl, rfl⟩ none
    | block _ least fits =>
      obtain ⟨otherBlock, -, run⟩ := bind_eq_ok run
      obtain ⟨b, found, run⟩ := bind_eq_ok run
      obtain ⟨b', loop, run⟩ := bind_eq_ok run
      cases run
      have size := Loop.forRange_keeps Block.size (fun _ _ _ => copyAt_size) loop
      exact leaves_kmalloc wild least fits (size.trans (kmalloc_size found))

theorem grow_leaves (wild : Wild h) (sound : Sound h l)
    (run : Movable.grow E l h = .ok (l', h')) :
    Leaves h l.array l' h' ∧ l'.ptr = l.ptr ∧ l'.size = l.size * 2 := by
  unfold Movable.grow at run
  split_ifs at run with none
  · obtain ⟨h₁, freed, run⟩ := bind_eq_ok run
    cases run
    have freed := clear_freed wild freed
    exact ⟨freed.leaves (leaves_moved freed.wild), none.2.symm, by rw [none.1]; rfl⟩
  · cases sound with
    | moved => exact absurd ⟨rfl, rfl⟩ none
    | block capacity least fits =>
      obtain ⟨tmpArray, found, run⟩ := bind_eq_ok run
      obtain ⟨b, foundOld, run⟩ := bind_eq_ok run
      obtain ⟨⟨tmpArray', b'⟩, loop, run⟩ := bind_eq_ok run
      obtain ⟨h₁, freed, run⟩ := bind_eq_ok run
      cases run
      have size : tmpArray'.size = l.size * 2 :=
        (Loop.forRange_keeps (fun blocks => blocks.1.size) (fun _ _ _ => moveAt_size) loop).trans
          (kmalloc_size found)
      have inside := wild.capacity_lt capacity
      have new := leaves_kmalloc (l := { l with size := l.size * 2 }) wild
        (Nat.le_trans least (Nat.le_mul_of_pos_right _ (by decide)))
        (Nat.le_trans fits (Nat.le_mul_of_pos_right _ (by decide))) size
      have freed := kfree_freed new.wild ⟨inside.1, Nat.lt_of_lt_of_le inside.2 new.next⟩ freed
      exact ⟨new.freed wild (Nat.ne_of_gt inside.2) freed, rfl, rfl⟩

/-- Where there are slots at all, there is room afterwards. -/
theorem makeRoom_leaves (wild : Wild h) (sound : Sound h l)
    (run : Movable.makeRoom E l h = .ok (l', h')) :
    Leaves h l.array l' h' ∧ l'.ptr = l.ptr ∧ (0 < l.size → l'.ptr < l'.size) := by
  have fits := sound.fits
  unfold Movable.makeRoom at run
  split_ifs at run with full
  · obtain ⟨leaves, ptr, twice⟩ := grow_leaves wild sound run
    exact ⟨leaves, ptr, fun some => by omega⟩
  · cases run
    exact ⟨sound.leaves wild, rfl, fun _ => Nat.not_le.1 full⟩

theorem addBy_leaves (wild : Wild h) (sound : Sound h l) {construct : Object → Object}
    {value : Reference Object} (run : Movable.addBy E construct l value h = .ok (n, l', h')) :
    Leaves h l.array l' h' := by
  obtain ⟨⟨l₁, h₁⟩, room, run⟩ := bind_eq_ok run
  obtain ⟨o, -, run⟩ := bind_eq_ok run
  obtain ⟨b, found, run⟩ := bind_eq_ok run
  obtain ⟨b', written, run⟩ := bind_eq_ok run
  cases run
  obtain ⟨leaves, -, -⟩ := makeRoom_leaves wild sound room
  obtain ⟨size, inside⟩ := Block.write_size written
  have capacity : h₁.capacity l₁.array = some b.size :=
    congrArg (Option.map Block.size) (block_ok found)
  have fits : l₁.ptr + 1 ≤ l₁.size := by
    cases leaves.sound with
    | moved =>
      rw [moved, leaves.wild.capacity_null] at capacity
      cases capacity
    | block capacity' _ _ =>
      have same := Option.some.inj (capacity.symm.trans capacity')
      omega
  exact leaves.setBlock (size.symm ▸ capacity) fits

theorem remove_leaves (wild : Wild h) (sound : Sound h l) (lt : i < l.ptr)
    (run : l.remove E i h = .ok (l', h')) : Leaves h l.array l' h' := by
  have fits := sound.fits
  unfold remove at run
  split_ifs at run with inside
  obtain ⟨b, found, run⟩ := bind_eq_ok run
  obtain ⟨b₁, first, run⟩ := bind_eq_ok run
  obtain ⟨b₂, loop, run⟩ := bind_eq_ok run
  obtain ⟨b₃, last, run⟩ := bind_eq_ok run
  cases run
  have size : b₃.size = b.size := by
    rw [destroyAt_size last, Loop.forRange_keeps Block.size (fun _ _ _ => shiftAt_size) loop,
      destroyAt_size first]
  have capacity : h.capacity l.array = some b.size :=
    congrArg (Option.map Block.size) (block_ok found)
  refine (sound.leaves wild).setBlock (size.symm ▸ capacity) ?_
  rw [predecessor, if_neg (by omega)]
  omega

theorem reset_leaves (wild : Wild h) (run : Movable.reset E l h = .ok (l', h')) :
    Leaves h l.array l' h' := by
  obtain ⟨h₁, cleared, run⟩ := bind_eq_ok run
  cases run
  have freed := clear_freed wild cleared
  exact freed.leaves (leaves_create freed.wild)

theorem copyAssign_leaves (wild : Wild h) (sound : Sound h other) (apart : other.array ≠ l.array ∨
    other = moved) (run : Movable.copyAssign E l other h = .ok (l', h')) :
    Leaves h l.array l' h' := by
  obtain ⟨h₁, cleared, run⟩ := bind_eq_ok run
  have freed := clear_freed wild cleared
  have sound' : Sound h₁ other := by
    rcases apart with apart | rfl
    · exact sound.of_capacity fun n found => by rw [freed.kept _ apart, found]
    · exact .moved
  exact freed.leaves (copyElements_leaves freed.wild sound' run)

end

/-! ## Programs -/

/-- Every list is sound, and no two have one block. -/
structure WithinCapacity (w : ListWorld Object) : Prop where
  wild : Wild w.heap
  sound : ∀ x l, w.lists x = some l → Sound w.heap l
  apart : ∀ x y l l', w.lists x = some l → w.lists y = some l' → l.array = l'.array →
    x = y ∨ l.array = 0

/-- The block that the list of a variable may have. -/
def Owns (w : ListWorld Object) (x own : Nat) : Prop :=
  own = 0 ∨ ∃ l, w.lists x = some l ∧ own = l.array

namespace WithinCapacity

variable {w w' : ListWorld Object} {x y own : Nat} {l other : ArrayList} {h' : ObjectHeap Object}

theorem empty : WithinCapacity (ListWorld.empty : ListWorld Object) :=
  ⟨⟨rfl, Nat.one_pos, fun _ _ => rfl⟩, fun _ _ found => absurd found.symm (Option.some_ne_none _),
    fun _ _ _ _ found => absurd found.symm (Option.some_ne_none _)⟩

theorem hand_lists : (w.hand x y l h').lists =
    Function.update (Function.update w.lists y (some moved)) x (some l) := rfl

/-- The block of another list is not the one that `x` has. -/
theorem ne_own (within : WithinCapacity w) (owns : Owns w x own) (ne : y ≠ x)
    (found : w.lists y = some l) (block : 0 < l.array) : l.array ≠ own := by
  intro same
  rcases owns with null | ⟨lx, foundX, array⟩
  · omega
  · rcases within.apart y x l lx found foundX (same.trans array) with equal | null
    · exact ne equal
    · omega

/-- The list of another variable is sound after a change to the block of `x`. -/
theorem sound_other (within : WithinCapacity w) (owns : Owns w x own) (ne : y ≠ x)
    (found : w.lists y = some l)
    (kept : ∀ p < w.heap.next, p ≠ own → h'.capacity p = w.heap.capacity p) : Sound h' l := by
  refine (within.sound y l found).of_capacity fun n capacity => ?_
  obtain ⟨positive, lt⟩ := within.wild.capacity_lt capacity
  rw [kept _ lt (within.ne_own owns ne found positive), capacity]

theorem array_lt (within : WithinCapacity w) (found : w.lists x = some l) :
    l.array < w.heap.next := by
  cases within.sound x l found with
  | moved => exact within.wild.positive
  | block capacity _ _ => exact (within.wild.capacity_lt capacity).2

theorem set (within : WithinCapacity w) (owns : Owns w x own) (leaves : Leaves w.heap own l h') :
    WithinCapacity (w.set x l h') := by
  -- no other list is in the block of `x`
  have outside : ∀ y l', y ≠ x → w.lists y = some l' → l.array = l'.array → l.array = 0 := by
    intro y l' ne found same
    have lt := within.array_lt found
    rcases leaves.array with array | fresh | null
    · by_contra block
      exact within.ne_own owns ne found (by omega) (same.symm.trans array)
    · omega
    · exact null
  refine ⟨leaves.wild, fun y l' => ?_, fun y z ly lz => ?_⟩
  · by_cases same : y = x
    · subst same
      rw [set_lists_self]
      rintro ⟨rfl⟩
      exact leaves.sound
    · rw [set_lists_of_ne same]
      intro found
      exact within.sound_other owns same found leaves.kept
  · by_cases sameY : y = x
    · by_cases sameZ : z = x
      · intro _ _ _
        exact .inl (sameY.trans sameZ.symm)
      · subst sameY
        rw [set_lists_self, set_lists_of_ne sameZ]
        rintro ⟨rfl⟩ found same
        exact .inr (outside z lz sameZ found same)
    · by_cases sameZ : z = x
      · subst sameZ
        rw [set_lists_self, set_lists_of_ne sameY]
        rintro found ⟨rfl⟩ same
        exact .inr (same.trans (outside y ly sameY found same.symm))
      · rw [set_lists_of_ne sameY, set_lists_of_ne sameZ]
        exact within.apart y z ly lz

theorem destroy (within : WithinCapacity w) (owns : Owns w x own) (freed : Freed w.heap own h') :
    WithinCapacity { lists := Function.update w.lists x none, heap := h' } := by
  have others : ∀ y l', Function.update w.lists x none y = some l' →
      y ≠ x ∧ w.lists y = some l' := by
    intro y l' found
    by_cases same : y = x
    · rw [same, Function.update_self] at found
      cases found
    · exact ⟨same, by rwa [Function.update_of_ne same] at found⟩
  refine ⟨freed.wild, fun y l' found => ?_, fun y z ly lz foundY foundZ => ?_⟩
  · obtain ⟨ne, found⟩ := others y l' found
    exact within.sound_other owns ne found fun p _ => freed.kept p
  · exact within.apart y z ly lz (others y ly foundY).2 (others z lz foundZ).2

/-- `x` gets the block of `y`. -/
theorem hand (within : WithinCapacity w) (owns : Owns w x own) (freed : Freed w.heap own h')
    (ne : x ≠ y) (found : w.lists y = some other) :
    WithinCapacity (w.hand x y other h') := by
  -- a list that is not the moved one was the list of `y` if it is in `x`, and else in its place
  have source : ∀ z l', (w.hand x y other h').lists z = some l' → l' = moved ∨
      ∃ z', z' ≠ x ∧ w.lists z' = some l' ∧ (z = x ∧ z' = y ∨ z ≠ y ∧ z' = z) := by
    intro z l' foundZ
    by_cases sameX : z = x
    · rw [hand_lists, sameX, Function.update_self] at foundZ
      exact .inr ⟨y, ne.symm, foundZ ▸ found, .inl ⟨sameX, rfl⟩⟩
    · rw [hand_lists, Function.update_of_ne sameX] at foundZ
      by_cases sameY : z = y
      · rw [sameY, Function.update_self] at foundZ
        exact .inl (Option.some.inj foundZ).symm
      · rw [Function.update_of_ne sameY] at foundZ
        exact .inr ⟨z, sameX, foundZ, .inr ⟨sameY, rfl⟩⟩
  refine ⟨freed.wild, fun z l' foundZ => ?_, fun z z' l' l'' foundZ foundZ' same => ?_⟩
  · rcases source z l' foundZ with rfl | ⟨v, neV, foundV, -⟩
    · exact .moved
    · exact within.sound_other owns neV foundV fun p _ => freed.kept p
  · rcases source z l' foundZ with rfl | ⟨v, neV, foundV, fromV⟩
    · exact .inr rfl
    rcases source z' l'' foundZ' with rfl | ⟨v', neV', foundV', fromV'⟩
    · exact .inr same
    refine (within.apart v v' l' l'' foundV foundV' same).imp (fun equal => ?_) id
    omega

end WithinCapacity

/-- A call that a program may make: its variables have lists, the one it constructs has none yet,
and there is an element at the index. -/
def MovingCall.Valid (w : ListWorld Object) : MovingCall Object → Prop
  | .create x => w.lists x = none
  | .copyConstruct x y | .moveConstruct x y => w.lists x = none ∧ (w.lists y).isSome
  | .copyAssign x y | .moveAssign x y => (w.lists x).isSome ∧ (w.lists y).isSome
  | .destroy x | .reset x | .add x _ | .addMoved x _ => (w.lists x).isSome
  | .addElement x y index =>
    (w.lists x).isSome ∧ ∃ other, w.lists y = some other ∧ index < other.ptr
  | .remove x index => ∃ l, w.lists x = some l ∧ index < l.ptr

/-- The list that a call adds to. -/
def MovingCall.addsTo : MovingCall Object → Option Nat
  | .add x _ | .addMoved x _ | .addElement x _ _ => some x
  | _ => none

variable (E)

/-- After the call no list has more elements than slots, and where an element is added, the block
has a slot for it. -/
structure Within (w : ListWorld Object) (call : MovingCall Object) : Prop where
  size : ∀ w', w.callMoving E call = .ok w' → ∀ x l, w'.lists x = some l → l.ptr ≤ l.size
  slot : ∀ x l l' h', call.addsTo = some x → w.lists x = some l →
    Movable.makeRoom E l w.heap = .ok (l', h') → ∃ n, h'.capacity l'.array = some n ∧ l'.ptr < n

/-- What is added to has slots at all. -/
def HasSlots (w : ListWorld Object) (call : MovingCall Object) : Prop :=
  ∀ x l, call.addsTo = some x → w.lists x = some l → 0 < l.size

variable {E} {w w' : ListWorld Object} {call : MovingCall Object}

theorem list_ok {x : Nat} {l : ArrayList} (run : w.list x = .ok l) : w.lists x = some l := by
  cases found : w.lists x with
  | none =>
    rw [ListWorld.list, found] at run
    cases run
  | some l' =>
    rw [list_eq found] at run
    exact congrArg some (Except.ok.inj run)

theorem addBy_within (within : WithinCapacity w) {x n : Nat} {l l' : ArrayList}
    {h' : ObjectHeap Object} (found : w.lists x = some l) {construct : Object → Object}
    {value : Reference Object}
    (run : Movable.addBy E construct l value w.heap = .ok (n, l', h')) :
    WithinCapacity (w.set x l' h') :=
  within.set (.inr ⟨l, found, rfl⟩) (addBy_leaves within.wild (within.sound x l found) run)

/-- Every call keeps the lists within their capacity, even where it adds to a list without slots:
then it does not go through. -/
theorem callMoving_within (within : WithinCapacity w) (valid : call.Valid w)
    (run : w.callMoving E call = .ok w') : WithinCapacity w' := by
  have wild := within.wild
  cases call with
  | create x =>
    cases run
    exact within.set (.inl rfl) (leaves_create wild)
  | copyConstruct x y =>
    obtain ⟨other, found, run⟩ := bind_eq_ok run
    obtain ⟨⟨l, h'⟩, copied, run⟩ := bind_eq_ok run
    cases run
    have sound := within.sound y other (list_ok found)
    exact within.set (.inl rfl) (copyElements_leaves wild sound copied)
  | moveConstruct x y =>
    obtain ⟨other, found, run⟩ := bind_eq_ok run
    cases run
    obtain ⟨fresh, some⟩ := valid
    refine within.hand (.inl rfl) ⟨fun _ _ => rfl, rfl, wild⟩ ?_ (list_ok found)
    rintro rfl
    rw [fresh] at some
    cases some
  | copyAssign x y =>
    obtain ⟨l, found, run⟩ := bind_eq_ok run
    obtain ⟨other, foundOther, run⟩ := bind_eq_ok run
    split_ifs at run with same
    · cases run
      exact within
    · obtain ⟨⟨l', h'⟩, assigned, run⟩ := bind_eq_ok run
      cases run
      have sound := within.sound y other (list_ok foundOther)
      refine within.set (.inr ⟨l, list_ok found, rfl⟩) (copyAssign_leaves wild sound ?_ assigned)
      cases sound with
      | moved => exact .inr rfl
      | block capacity _ _ =>
        have positive := (wild.capacity_lt capacity).1
        exact .inl (within.ne_own (.inr ⟨l, list_ok found, rfl⟩) (Ne.symm same)
          (list_ok foundOther) positive)
  | moveAssign x y =>
    obtain ⟨l, found, run⟩ := bind_eq_ok run
    obtain ⟨other, foundOther, run⟩ := bind_eq_ok run
    split_ifs at run with same
    · cases run
      exact within
    · obtain ⟨h', cleared, run⟩ := bind_eq_ok run
      cases run
      exact within.hand (.inr ⟨l, list_ok found, rfl⟩) (clear_freed wild cleared) same
        (list_ok foundOther)
  | destroy x =>
    obtain ⟨l, found, run⟩ := bind_eq_ok run
    obtain ⟨h', cleared, run⟩ := bind_eq_ok run
    cases run
    exact within.destroy (.inr ⟨l, list_ok found, rfl⟩) (clear_freed wild cleared)
  | reset x =>
    obtain ⟨l, found, run⟩ := bind_eq_ok run
    obtain ⟨⟨l', h'⟩, fresh, run⟩ := bind_eq_ok run
    cases run
    exact within.set (.inr ⟨l, list_ok found, rfl⟩) (reset_leaves wild fresh)
  | add x value =>
    obtain ⟨l, found, run⟩ := bind_eq_ok run
    obtain ⟨⟨n, l', h'⟩, added, run⟩ := bind_eq_ok run
    cases run
    exact addBy_within within (list_ok found) added
  | addMoved x value =>
    obtain ⟨l, found, run⟩ := bind_eq_ok run
    obtain ⟨⟨n, l', h'⟩, added, run⟩ := bind_eq_ok run
    cases run
    exact addBy_within within (list_ok found) added
  | addElement x y index =>
    obtain ⟨l, found, run⟩ := bind_eq_ok run
    obtain ⟨other, -, run⟩ := bind_eq_ok run
    obtain ⟨⟨n, l', h'⟩, added, run⟩ := bind_eq_ok run
    cases run
    exact addBy_within within (list_ok found) added
  | remove x index =>
    obtain ⟨l, found, run⟩ := bind_eq_ok run
    obtain ⟨⟨l', h'⟩, removed, run⟩ := bind_eq_ok run
    cases run
    obtain ⟨l₀, found₀, lt⟩ := valid
    obtain rfl := Option.some.inj (found₀.symm.trans (list_ok found))
    exact within.set (.inr ⟨l₀, found₀, rfl⟩)
      (remove_leaves wild (within.sound x l₀ found₀) lt removed)

/-- Growth makes room in a list with slots, and only in such a list. -/
theorem within_iff_hasSlots (within : WithinCapacity w) (valid : call.Valid w) :
    Within E w call ↔ HasSlots w call := by
  constructor
  · intro ⟨_, slot⟩ x l adds found
    cases within.sound x l found with
    | moved =>
      obtain ⟨n, capacity, -⟩ := slot x moved moved w.heap adds found rfl
      rw [moved, within.wild.capacity_null] at capacity
      cases capacity
    | block _ least _ => exact Nat.lt_of_lt_of_le (by decide) least
  · intro slots
    refine ⟨fun w' run x l found => ?_, fun x l l' h' adds found room => ?_⟩
    · exact ((callMoving_within within valid run).sound x l found).fits
    · obtain ⟨leaves, ptr, inside⟩ := makeRoom_leaves within.wild (within.sound x l found) room
      have lt := inside (slots x l adds found)
      cases leaves.sound with
      | moved => exact absurd lt (Nat.lt_irrefl 0)
      | block capacity _ _ => exact ⟨_, capacity, lt⟩

theorem stepMoving_within (within : WithinCapacity w) (valid : call.Valid w) :
    WithinCapacity (w.stepMoving E call) := by
  unfold ListWorld.stepMoving
  cases run : w.callMoving E call with
  | ok w' => exact callMoving_within within valid run
  | error fault => exact within

variable (E)

/-- **Within the capacity.** In a program that constructs, copies, moves, assigns, resets and
destroys lists, adds to them and removes from them, all lists stay within their capacity and every
element gets a slot of its block, if and only if every element is added to a list with slots. -/
theorem within_iff (calls : List (MovingCall Object))
    (valid : Along (ListWorld.stepMoving E) (fun w call => call.Valid w) .empty calls) :
    Along (ListWorld.stepMoving E) (Within E) .empty calls ↔
      Along (ListWorld.stepMoving E) HasSlots .empty calls :=
  Along.iff (J := WithinCapacity) (fun _ _ within valid => within_iff_hasSlots within valid)
    (fun _ _ within valid _ => stepMoving_within within valid) .empty valid

/-- The new list gets its element. -/
theorem within_iff_taken :
    Along (ListWorld.stepMoving (plain Nat)) (Within (plain Nat)) .empty
        [.create 0, .moveConstruct 1 0, .add 1 7] ↔
      Along (ListWorld.stepMoving (plain Nat)) HasSlots .empty
        [.create 0, .moveConstruct 1 0, .add 1 7] :=
  within_iff (plain Nat) _ ⟨rfl, ⟨rfl, rfl⟩, rfl, trivial⟩

/-- An element is added to a list that was moved. -/
theorem not_within_moved :
    Along (ListWorld.stepMoving (plain Nat)) (fun w call => call.Valid w) .empty
        [.create 0, .moveConstruct 1 0, .add 0 7] ∧
      ¬Along (ListWorld.stepMoving (plain Nat)) (Within (plain Nat)) .empty
        [.create 0, .moveConstruct 1 0, .add 0 7] := by
  refine ⟨⟨rfl, ⟨rfl, rfl⟩, rfl, trivial⟩, ?_⟩
  rintro ⟨-, -, ⟨-, slot⟩, -⟩
  obtain ⟨n, capacity, -⟩ := slot 0 moved moved _ rfl rfl rfl
  cases capacity

end MatteOS.Utils
