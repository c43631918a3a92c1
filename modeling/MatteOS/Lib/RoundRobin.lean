import Mathlib.Data.List.Rotate
import Mathlib.Data.List.Count
import Mathlib.Tactic.Common

/-!
# Round robin

A ring of distinct items is turned until an item that is ready comes to the front; that
item is returned and stays in front. After `n` rotations the front is `front ring n`, so a
history of turns is a walk through the positions (`Turns`). An item that is ready at every
turn is returned as often as it passes the front (`Turns.count_returned`), and every item
passes once in a full round (`count_fronts_round`). Hence two items that stay ready
alternate (`Turns.exactly_once`).
-/

namespace RoundRobin

variable {α : Type}

/-- A turn: which items were ready, and the item that was returned. -/
structure Turn (α : Type) where
  ready : α → Prop
  returned : α

/-- The item in front after `n` rotations. -/
def front (ring : List α) (n : Nat) : Option α := ring[n % ring.length]?

/-- The walk from position `n` to `n'`: each turn goes to the first later position whose item is
ready. -/
inductive Turns (ring : List α) : Nat → List (Turn α) → Nat → Prop where
  | nil (n : Nat) : Turns ring n [] n
  | cons {n m n' : Nat} {turn : Turn α} {turns : List (Turn α)} (forward : n < m)
      (skipped : ∀ k, n < k → k < m → ∀ x ∈ front ring k, ¬ turn.ready x)
      (arrived : front ring m = some turn.returned) (ready : turn.ready turn.returned)
      (later : Turns ring m turns n') : Turns ring n (turn :: turns) n'

/-- The items that pass the front in the `d` rotations after position `n`. -/
def fronts (ring : List α) (n d : Nat) : List (Option α) :=
  (List.range' (n + 1) d).map (front ring)

/-! ## The front of a rotated ring -/

theorem front_eq_head? (ring : List α) (n : Nat) : front ring n = (ring.rotate n).head? := by
  cases ring with
  | nil => simp [front]
  | cons x xs =>
    rw [← List.rotate_mod, List.head?_rotate (Nat.mod_lt _ (by simp))]
    rfl

/-- Distinct items are in front at positions that differ by whole rounds only. -/
theorem front_eq_front_iff {ring : List α} (distinct : ring.Nodup) (nonempty : ring ≠ [])
    (m n : Nat) : front ring m = front ring n ↔ m % ring.length = n % ring.length := by
  have length := List.length_pos_of_ne_nil nonempty
  have hm := Nat.mod_lt m length
  have hn := Nat.mod_lt n length
  unfold front
  rw [List.getElem?_eq_getElem hm, List.getElem?_eq_getElem hn, Option.some_inj,
    distinct.getElem_inj_iff]

theorem exists_front {ring : List α} {x : α} (mem : x ∈ ring) (n : Nat) :
    ∃ m, n < m ∧ m ≤ n + ring.length ∧ front ring m = some x := by
  have mem' : x ∈ ring.rotate (n + 1) := by simpa using mem
  obtain ⟨i, hi, eq⟩ := List.getElem_of_mem mem'
  rw [List.length_rotate] at hi
  refine ⟨n + 1 + i, by omega, by omega, ?_⟩
  rw [List.getElem_rotate] at eq
  rw [front, Nat.add_comm, List.getElem?_eq_getElem (Nat.mod_lt _ (by omega)), eq]

/-! ## What passes the front -/

theorem fronts_add (ring : List α) (n d d' : Nat) :
    fronts ring n (d + d') = fronts ring n d ++ fronts ring (n + d) d' := by
  have split : List.range' (n + 1) (d + d') = List.range' (n + 1) d ++ List.range' (n + d + 1) d' := by
    rw [Nat.add_right_comm n d 1, List.range'_append_1]
  rw [fronts, split, List.map_append, fronts, fronts]

/-- A full round shows a rotation of the ring. -/
theorem fronts_round (ring : List α) (n : Nat) :
    fronts ring n ring.length = (ring.rotate (n + 1)).map some := by
  apply List.ext_getElem
  · simp [fronts]
  · intro i hi _
    have length : i < ring.length := by simpa [fronts] using hi
    simp only [fronts, List.getElem_map, List.getElem_range', List.getElem_rotate, front]
    rw [Nat.one_mul, Nat.add_comm, List.getElem?_eq_getElem (Nat.mod_lt _ (by omega))]

/-- Every item passes exactly once in a full round. -/
theorem count_fronts_round [DecidableEq α] {ring : List α} (distinct : ring.Nodup) {x : α}
    (mem : x ∈ ring) (n : Nat) : (fronts ring n ring.length).count (some x) = 1 := by
  rw [fronts_round, List.count_map_of_injective _ _ fun _ _ => Option.some.inj]
  exact List.count_eq_one_of_mem (List.nodup_rotate.2 distinct) (by simpa using mem)

theorem some_mem_fronts {ring : List α} {n d : Nat} {x : α} :
    some x ∈ fronts ring n d ↔ ∃ m, n < m ∧ m ≤ n + d ∧ front ring m = some x := by
  simp only [fronts, List.mem_map, List.mem_range'_1]
  constructor
  · rintro ⟨m, bounds, eq⟩
    exact ⟨m, by omega, by omega, eq⟩
  · rintro ⟨m, lower, upper, eq⟩
    exact ⟨m, by omega, eq⟩

/-! ## Histories -/

namespace Turns

variable {ring : List α}

theorem append {n n' n'' : Nat} {turns turns' : List (Turn α)} (left : Turns ring n turns n')
    (right : Turns ring n' turns' n'') : Turns ring n (turns ++ turns') n'' := by
  induction left with
  | nil => exact right
  | cons forward skipped arrived ready _ ih => exact .cons forward skipped arrived ready (ih right)

theorem split {n n'' : Nat} {turns turns' : List (Turn α)}
    (history : Turns ring n (turns ++ turns') n'') :
    ∃ n', Turns ring n turns n' ∧ Turns ring n' turns' n'' := by
  induction turns generalizing n with
  | nil => exact ⟨n, .nil n, history⟩
  | cons turn turns ih =>
    cases history with
    | cons forward skipped arrived ready later =>
      obtain ⟨n', left, right⟩ := ih later
      exact ⟨n', .cons forward skipped arrived ready left, right⟩

theorem le {n n' : Nat} {turns : List (Turn α)} (history : Turns ring n turns n') : n ≤ n' := by
  induction history with
  | nil => exact Nat.le_refl _
  | cons forward _ _ _ _ ih => omega

/-- An item that is ready at every turn is returned exactly when it passes the front. -/
theorem count_returned [DecidableEq α] {n n' : Nat} {turns : List (Turn α)} {x : α}
    (history : Turns ring n turns n') (ready : ∀ turn ∈ turns, turn.ready x) :
    (turns.map Turn.returned).count x = (fronts ring n (n' - n)).count (some x) := by
  induction history with
  | nil => simp [fronts]
  | @cons n m n' turn turns forward skipped arrived _ later ih =>
    have le := later.le
    have now := ready turn (by simp)
    -- the positions before the arrival show other items
    have before : (fronts ring n (m - 1 - n)).count (some x) = 0 := by
      rw [List.count_eq_zero, some_mem_fronts]
      rintro ⟨k, lower, upper, eq⟩
      exact skipped k lower (by omega) x eq now
    have parts : n' - n = (m - 1 - n) + (1 + (n' - m)) := by omega
    have here : n + (m - 1 - n) = m - 1 := by omega
    have arrival : fronts ring (m - 1) 1 = [some turn.returned] := by
      rw [fronts, Nat.sub_add_cancel (by omega)]
      simp [arrived]
    rw [parts, fronts_add, fronts_add, here, Nat.sub_add_cancel (by omega), arrival,
      List.count_append, List.count_append, before, ← ih fun t mem => ready t (by simp [mem]),
      List.map_cons, List.count_cons, List.count_singleton]
    simp [Nat.add_comm]

/-- The last turn of a history ends at the item it returned. -/
theorem front_eq {n n' : Nat} {turns : List (Turn α)} {turn : Turn α}
    (history : Turns ring n (turns ++ [turn]) n') : front ring n' = some turn.returned := by
  obtain ⟨_, _, last⟩ := history.split
  cases last with
  | cons _ _ arrived _ later =>
    cases later
    exact arrived

/-- **Fairness.** While two items are ready at every turn, one is returned exactly once between
consecutive returns of the other. -/
theorem exactly_once [DecidableEq α] (distinct : ring.Nodup) {n n' : Nat} {s t : α} (ne : s ≠ t)
    (mem : t ∈ ring) {first last : Turn α} {between : List (Turn α)}
    (history : Turns ring n (first :: between ++ [last]) n') (hfirst : first.returned = s)
    (hlast : last.returned = s) (consecutive : ∀ turn ∈ between, turn.returned ≠ s)
    (readyS : ∀ turn ∈ between ++ [last], turn.ready s)
    (readyT : ∀ turn ∈ between ++ [last], turn.ready t) :
    (between.map Turn.returned).count t = 1 := by
  have nonempty : ring ≠ [] := List.ne_nil_of_mem mem
  cases history with
  | @cons _ a _ _ _ _ _ arrived _ later =>
  change Turns ring a (between ++ [last]) n' at later
  rw [hfirst] at arrived
  have arrived' := later.front_eq
  rw [hlast] at arrived'
  -- `s` passes the front once, at the end: the walk is one round
  have countS := later.count_returned readyS
  rw [List.map_append, List.count_append, List.count_eq_zero.2
    (fun mem => by
      obtain ⟨turn, mem, eq⟩ := List.mem_map.1 mem
      exact consecutive turn mem eq)] at countS
  simp only [List.map_cons, List.map_nil, hlast, List.count_singleton_self, Nat.zero_add] at countS
  have length := List.length_pos_of_ne_nil nonempty
  have forward : a < n' := by
    by_contra le
    have zero : n' - a = 0 := by omega
    simp [zero, fronts] at countS
  have rounds := (front_eq_front_iff distinct nonempty n' a).1 (arrived'.trans arrived.symm)
  have round : n' - a = ring.length := by
    have atLeast : ring.length ≤ n' - a :=
      Nat.le_of_dvd (by omega) (Nat.dvd_of_mod_eq_zero (Nat.sub_mod_eq_zero_of_mod_eq rounds))
    by_contra ne
    have parts : n' - a = ring.length + (n' - a - ring.length) := by omega
    have sMem : s ∈ ring := by
      have isSome := arrived
      rw [front] at isSome
      exact List.mem_of_getElem? isSome
    have more : some s ∈ fronts ring (a + ring.length) (n' - a - ring.length) :=
      some_mem_fronts.2 ⟨n', by omega, by omega, arrived'⟩
    rw [parts, fronts_add, List.count_append, count_fronts_round distinct sMem] at countS
    have := List.count_pos_iff.2 more
    omega
  have countT := later.count_returned readyT
  rw [round, count_fronts_round distinct mem, List.map_append, List.count_append] at countT
  simpa [hlast, ne] using countT

end Turns

end RoundRobin
