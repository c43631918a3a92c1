import MatteOS.Utils.Verify.MovedLists

/-!
# The check of an index

`get`, `operator[]` and `remove` check an index against the capacity of the list. It is zero for a
list that was moved, and a doubling of the default one for any other (`capacities_run`), so that the
raw slots behind the elements pass the check (`rejects_iff`).
-/

namespace MatteOS.Utils

open ArrayList

variable {Object Value : Type} {E : ElementType Object Value}

/-! ## Capacities -/

/-- The capacity of a moved list, or one that comes from the default one by doublings. -/
def Capacity (n : Nat) : Prop := n = 0 ∨ ∃ k, n = DEFAULT_SIZE * 2 ^ k

theorem Capacity.twice {n : Nat} (capacity : Capacity n) : Capacity (n * 2) := by
  rcases capacity with rfl | ⟨k, rfl⟩
  · exact .inl (Nat.zero_mul 2)
  · exact .inr ⟨k + 1, by rw [Nat.pow_succ, Nat.mul_assoc]⟩

theorem capacity_default : Capacity DEFAULT_SIZE := .inr ⟨0, (Nat.mul_one _).symm⟩

namespace ArrayList

variable {l l' other : ArrayList} {h h' : ObjectHeap Object} {i : Nat}

theorem copyElements_size (run : Movable.copyElements E other h = .ok (l, h')) :
    l.size = other.size := by
  unfold Movable.copyElements at run
  split_ifs at run with none
  · cases run
    exact none.1.symm
  · obtain ⟨_, -, run⟩ := bind_eq_ok run
    obtain ⟨_, -, run⟩ := bind_eq_ok run
    obtain ⟨_, -, run⟩ := bind_eq_ok run
    cases run
    rfl

theorem reset_size (run : Movable.reset E l h = .ok (l', h')) : l'.size = DEFAULT_SIZE := by
  obtain ⟨_, -, run⟩ := bind_eq_ok run
  cases run
  rfl

theorem copyAssign_size (run : Movable.copyAssign E l other h = .ok (l', h')) :
    l'.size = other.size := by
  obtain ⟨_, -, run⟩ := bind_eq_ok run
  exact copyElements_size run

theorem grow_size (run : Movable.grow E l h = .ok (l', h')) : l'.size = l.size * 2 := by
  unfold Movable.grow at run
  split_ifs at run with none
  · obtain ⟨_, -, run⟩ := bind_eq_ok run
    cases run
    rw [none.1]
    rfl
  · obtain ⟨_, -, run⟩ := bind_eq_ok run
    obtain ⟨_, -, run⟩ := bind_eq_ok run
    obtain ⟨_, -, run⟩ := bind_eq_ok run
    obtain ⟨_, -, run⟩ := bind_eq_ok run
    cases run
    rfl

theorem addBy_size {construct : Object → Object} {value : Reference Object} {n : Nat}
    (run : Movable.addBy E construct l value h = .ok (n, l', h')) :
    l'.size = l.size ∨ l'.size = l.size * 2 := by
  obtain ⟨⟨roomy, _⟩, room, run⟩ := bind_eq_ok run
  obtain ⟨_, -, run⟩ := bind_eq_ok run
  obtain ⟨_, -, run⟩ := bind_eq_ok run
  obtain ⟨_, -, run⟩ := bind_eq_ok run
  cases run
  unfold Movable.makeRoom at room
  split_ifs at room with full
  · have twice := grow_size room
    exact .inr twice
  · cases room
    exact .inl rfl

theorem remove_size (run : remove E l i h = .ok (l', h')) : l'.size = l.size := by
  unfold remove at run
  split at run
  · obtain ⟨_, -, run⟩ := bind_eq_ok run
    obtain ⟨_, -, run⟩ := bind_eq_ok run
    obtain ⟨_, -, run⟩ := bind_eq_ok run
    obtain ⟨_, -, run⟩ := bind_eq_ok run
    cases run
    rfl
  · cases run

end ArrayList

/-! ## Programs -/

/-- Every list has a capacity of these. -/
def Capacities (w : ListWorld Object) : Prop := ∀ x l, w.lists x = some l → Capacity l.size

namespace Capacities

variable {w w' : ListWorld Object} {x y : Nat} {l l' : ArrayList} {h' : ObjectHeap Object}

theorem update (capacities : Capacities w) (x : Nat) {entry : Option ArrayList}
    (capacity : ∀ l, entry = some l → Capacity l.size) :
    Capacities { lists := Function.update w.lists x entry, heap := h' } := by
  intro y l found
  by_cases same : y = x
  · subst same
    simp only [Function.update_self] at found
    exact capacity l found
  · simp only [Function.update_of_ne same] at found
    exact capacities y l found

theorem set (capacities : Capacities w) (x : Nat) (capacity : Capacity l.size) :
    Capacities (w.set x l h') :=
  capacities.update x fun _ same => Option.some.inj same ▸ capacity

theorem hand (capacities : Capacities w) (x y : Nat) (capacity : Capacity l.size) :
    Capacities (w.hand x y l h') := by
  have taken : Capacities (w.set y moved h') := capacities.set y (.inl rfl)
  exact taken.set x capacity

theorem ofList (capacities : Capacities w) (found : w.list x = .ok l) : Capacity l.size :=
  capacities x l (list_ok found)

theorem add (capacities : Capacities w) (found : w.list x = .ok l) {construct : Object → Object}
    {value : Reference Object} {n : Nat}
    (added : Movable.addBy E construct l value w.heap = .ok (n, l', h')) :
    Capacities (w.set x l' h') := by
  refine capacities.set x ?_
  rcases addBy_size added with same | twice
  · rw [same]
    exact capacities.ofList found
  · rw [twice]
    exact (capacities.ofList found).twice

/-- Whatever a call is, it keeps the capacities where it goes through. -/
theorem call (capacities : Capacities w) {call : MovingCall Object}
    (run : w.callMoving E call = .ok w') : Capacities w' := by
  cases call with
  | create x =>
    cases run
    exact capacities.set x capacity_default
  | copyConstruct x y =>
    obtain ⟨other, found, run⟩ := bind_eq_ok run
    obtain ⟨⟨l, h'⟩, copied, run⟩ := bind_eq_ok run
    cases run
    exact capacities.set x (copyElements_size copied ▸ capacities.ofList found)
  | moveConstruct x y =>
    obtain ⟨other, found, run⟩ := bind_eq_ok run
    cases run
    exact capacities.hand x y (capacities.ofList found)
  | copyAssign x y =>
    obtain ⟨l, -, run⟩ := bind_eq_ok run
    obtain ⟨other, found, run⟩ := bind_eq_ok run
    split_ifs at run with same
    · cases run
      exact capacities
    · obtain ⟨⟨l', h'⟩, assigned, run⟩ := bind_eq_ok run
      cases run
      exact capacities.set x (copyAssign_size assigned ▸ capacities.ofList found)
  | moveAssign x y =>
    obtain ⟨l, -, run⟩ := bind_eq_ok run
    obtain ⟨other, found, run⟩ := bind_eq_ok run
    split_ifs at run with same
    · cases run
      exact capacities
    · obtain ⟨h', -, run⟩ := bind_eq_ok run
      cases run
      exact capacities.hand x y (capacities.ofList found)
  | destroy x =>
    obtain ⟨l, -, run⟩ := bind_eq_ok run
    obtain ⟨h', -, run⟩ := bind_eq_ok run
    cases run
    exact capacities.update x fun _ none => by cases none
  | reset x =>
    obtain ⟨l, -, run⟩ := bind_eq_ok run
    obtain ⟨⟨l', h'⟩, fresh, run⟩ := bind_eq_ok run
    cases run
    exact capacities.set x (reset_size fresh ▸ capacity_default)
  | add x value | addMoved x value =>
    obtain ⟨l, found, run⟩ := bind_eq_ok run
    obtain ⟨⟨n, l', h'⟩, added, run⟩ := bind_eq_ok run
    cases run
    exact capacities.add found added
  | addElement x y index =>
    obtain ⟨l, found, run⟩ := bind_eq_ok run
    obtain ⟨other, -, run⟩ := bind_eq_ok run
    obtain ⟨⟨n, l', h'⟩, added, run⟩ := bind_eq_ok run
    cases run
    exact capacities.add found added
  | remove x index =>
    obtain ⟨l, found, run⟩ := bind_eq_ok run
    obtain ⟨⟨l', h'⟩, removed, run⟩ := bind_eq_ok run
    cases run
    exact capacities.set x (remove_size removed ▸ capacities.ofList found)

end Capacities

theorem capacities_run (calls : List (MovingCall Object)) :
    Capacities (calls.foldl (ListWorld.stepMoving E) .empty) := by
  suffices all : ∀ w : ListWorld Object, Capacities w →
      Capacities (calls.foldl (ListWorld.stepMoving E) w) from
    all .empty fun _ _ found => absurd found.symm (Option.some_ne_none _)
  induction calls with
  | nil => exact fun _ capacities => capacities
  | cons call calls ih =>
    intro w capacities
    refine ih _ ?_
    unfold ListWorld.stepMoving
    cases run : w.callMoving E call with
    | error fault => exact capacities
    | ok w' => exact capacities.call run

/-! ## The bounds check -/

/-- The calls with an index fail their check, before they touch anything. -/
structure Rejects (E : ElementType Object Value) (h : ObjectHeap Object) (l : ArrayList)
    (i : Nat) : Prop where
  get : l.get i h = .error (.assertion "Array: Index out of bounds!")
  index : l.index i h = .error (.assertion "Array: Index out of bounds!")
  remove : l.remove E i h = .error (.assertion "Array: Index out of bounds!")

theorem rejects_of_capacity_le {h : ObjectHeap Object} {l : ArrayList} {i : Nat} (outside : l.size ≤ i) :
    Rejects E h l i :=
  ⟨if_neg (Nat.not_lt.2 outside), if_neg (Nat.not_lt.2 outside), if_neg (Nat.not_lt.2 outside)⟩

/-- Within the capacity, `get` does not fail its check. -/
theorem get_ne_assertion {h : ObjectHeap Object} {l : ArrayList} {i : Nat} {message : String}
    (inside : i < l.size) :
    l.get i h ≠ .error (.assertion message) := by
  unfold ArrayList.get ObjectHeap.block Block.read
  rw [if_pos inside]
  cases h.blocks l.array with
  | none => exact fun same => by cases same
  | some b =>
    rw [orUndefined, ok_bind]
    split_ifs
    · cases b.slots i <;> exact fun same => by cases same
    · exact fun same => by cases same

/-- **The bounds check.** Of the indices behind the elements of a list, in every state that calls
lead to, moves among them, those are rejected that are not below the capacity. That is zero, or eight
or a multiple of eight by a power of two. -/
theorem rejects_iff (E : ElementType Object Value) (calls : List (MovingCall Object)) (x : Nat)
    (l : ArrayList) (found : (calls.foldl (ListWorld.stepMoving E) .empty).lists x = some l) :
    (l.size = 0 ∨ ∃ k, l.size = 8 * 2 ^ k) ∧ ∀ i, l.length ≤ i →
      (Rejects E (calls.foldl (ListWorld.stepMoving E) .empty).heap l i ↔ l.size ≤ i) := by
  refine ⟨capacities_run calls x l found, fun i _ => ⟨fun rejects => ?_, rejects_of_capacity_le⟩⟩
  by_contra inside
  exact get_ne_assertion (Nat.not_le.1 inside) rejects.get

/-- A list that was moved rejects every index, and the list it was moved to those from 8 on. -/
theorem rejects_iff_taken :
    (∀ i, Rejects (plain Nat) ([.create 0, .moveConstruct 1 0].foldl
        (ListWorld.stepMoving (plain Nat)) .empty).heap moved i) ∧
      ∀ i, Rejects (plain Nat) ([.create 0, .moveConstruct 1 0].foldl
        (ListWorld.stepMoving (plain Nat)) .empty).heap ⟨1, 8, 0⟩ i ↔ 8 ≤ i :=
  ⟨fun i => ((rejects_iff (plain Nat) [.create 0, .moveConstruct 1 0] 0 moved rfl).2 i
      (Nat.zero_le i)).2 (Nat.zero_le i),
    fun i => (rejects_iff (plain Nat) [.create 0, .moveConstruct 1 0] 1 ⟨1, 8, 0⟩ rfl).2 i
      (Nat.zero_le i)⟩

/-- An element of a new list can be asked for, and an element of it removed: either call goes on to
a slot that is raw. -/
theorem not_rejects_new :
    ∃ l, ([.create 0].foldl (ListWorld.stepMoving (plain Nat)) .empty).lists 0 = some l ∧
      l.length ≤ 0 ∧
      ¬Rejects (plain Nat) ([.create 0].foldl (ListWorld.stepMoving (plain Nat)) .empty).heap l 0 ∧
      l.remove (plain Nat) 0
        ([.create 0].foldl (ListWorld.stepMoving (plain Nat)) .empty).heap = .error .undefined := by
  refine ⟨⟨1, 8, 0⟩, rfl, Nat.le_refl 0, fun rejects => ?_, rfl⟩
  cases rejects.remove

end MatteOS.Utils
