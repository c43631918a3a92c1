import MatteOS.Utils.HashMap
import Mathlib.Data.List.Nodup
import Mathlib.Data.List.Induction

/-!
# When a hash map is a map

The loop of `set` runs while there is no next entry, so that a bucket of one entry leads
it to the null entry. A sequence of `set` calls gives a map exactly if no two of its keys
have the same bucket (`isMapOf_iff`).
-/

namespace MatteOS.Utils.HashMap

variable {Key Value : Type} {function : Key → BitVec 32}

/-! ## Chains -/

section

variable [DecidableEq Key]

theorem find_eq_ok_iff {key : Key} {value : Value} {chain : List (Key × Value)}
    (distinct : (chain.map Prod.fst).Nodup) :
    find key chain = .ok value ↔ (key, value) ∈ chain := by
  induction chain with
  | nil => simp [find]
  | cons entry next ih =>
    rw [List.map_cons, List.nodup_cons] at distinct
    obtain ⟨new, rest⟩ := distinct
    rw [find, List.mem_cons]
    by_cases h : entry.1 = key
    · have absent : (key, value) ∉ next := by
        intro mem
        exact new (h ▸ List.mem_map_of_mem mem)
      rw [if_pos h, or_iff_left absent, Except.ok.injEq, Prod.ext_iff]
      simp [h, eq_comm]
    · rw [if_neg h, ih rest]
      have other : (key, value) ≠ entry := by
        rintro rfl
        exact h rfl
      simp [other]

theorem contains_iff {key : Key} {chain : List (Key × Value)} :
    contains key chain = true ↔ key ∈ chain.map Prod.fst := by
  induction chain with
  | nil => simp [contains]
  | cons entry next ih =>
    rw [contains, List.map_cons, List.mem_cons, ← ih]
    by_cases h : entry.1 = key
    · simp [h]
    · simp [h, Ne.symm h]

theorem find_eq_error {key : Key} {chain : List (Key × Value)} (absent : key ∉ chain.map Prod.fst) :
    find key chain = .error "Key not found in map!" := by
  induction chain with
  | nil => rfl
  | cons entry next ih =>
    rw [List.map_cons, List.mem_cons, not_or] at absent
    rw [find, if_neg (Ne.symm absent.1), ih absent.2]

end

/-! ## Operations -/

section

variable {m m' : HashMap function Value} {key : Key} {value : Value}

/-- The loop of `remove` leaves every chain as it is, and reads the null entry of an empty one. -/
theorem remove_eq_some_iff :
    m.remove key = some m' ↔ m.entries (index function key) ≠ [] ∧ m' = m := by
  unfold remove
  cases m.entries (index function key) with
  | nil => simp
  | cons entry next => simp [eq_comm]

theorem set_empty (h : m.entries (index function key) = []) :
    m.set key value = some
      { entries := Function.update m.entries (index function key) [(key, value)] } := by
  simp only [set, h]

/-- From a bucket of one entry the loop of `set` goes to the null entry. -/
theorem set_single {entry : Key × Value} (h : m.entries (index function key) = [entry]) :
    m.set key value = none := by
  simp [set, h, skip]

end

/-- No bucket has more than one entry, and the entry has its key's bucket. -/
structure Sparse (m : HashMap function Value) : Prop where
  single : ∀ i, m.entries i = [] ∨ ∃ entry, m.entries i = [entry]
  hashed : ∀ i, ∀ entry ∈ m.entries i, index function entry.1 = i

theorem empty_sparse : (empty : HashMap function Value).Sparse where
  single _ := Or.inl rfl
  hashed _ _ h := absurd h List.not_mem_nil

namespace Sparse

variable {m m' : HashMap function Value} {key : Key} {value : Value}

/-- A `set` that goes through was made to an empty bucket. -/
theorem set_cases (sparse : m.Sparse) (run : m.set key value = some m') :
    m.entries (index function key) = [] ∧
      m' = { entries := Function.update m.entries (index function key) [(key, value)] } := by
  rcases sparse.single (index function key) with h | ⟨entry, h⟩
  · rw [set_empty h] at run
    exact ⟨h, (Option.some.inj run).symm⟩
  · rw [set_single h] at run
    cases run

theorem set (sparse : m.Sparse) (run : m.set key value = some m') : m'.Sparse := by
  obtain ⟨-, rfl⟩ := sparse.set_cases run
  constructor
  · intro i
    by_cases h : i = index function key
    · subst h
      exact Or.inr ⟨_, Function.update_self _ _ _⟩
    · simp only [Function.update_of_ne h]
      exact sparse.single i
  · intro i entry mem
    by_cases h : i = index function key
    · subst h
      simp only [Function.update_self, List.mem_singleton] at mem
      rw [mem]
    · simp only [Function.update_of_ne h] at mem
      exact sparse.hashed i entry mem

theorem distinct (sparse : m.Sparse) (i : Nat) : ((m.entries i).map Prod.fst).Nodup := by
  rcases sparse.single i with h | ⟨entry, h⟩ <;> simp [h]

end Sparse

section

variable [DecidableEq Key] {m m' : HashMap function Value} {key : Key} {value : Value}

theorem hasKey_iff : m.hasKey key = true ↔ ∃ value, m.get key = .ok value := by
  rw [hasKey, get, contains_iff]
  induction m.entries (index function key) with
  | nil => simp [find]
  | cons entry next ih =>
    rw [List.map_cons, List.mem_cons, find]
    by_cases h : entry.1 = key
    · simp [h]
    · rw [if_neg h, ← ih]
      simp [Ne.symm h]

/-- `remove` has nothing to loop over where the key is present. -/
theorem remove_eq (h : m.get key = .ok value) : m.remove key = some m := by
  refine remove_eq_some_iff.2 ⟨fun empty => ?_, rfl⟩
  rw [get, empty] at h
  cases h

/-- A `set` that goes through gives the key its value and no other key another one. -/
theorem Sparse.get_set (sparse : m.Sparse) (run : m.set key value = some m') (key' : Key) :
    m'.get key' = if key' = key then .ok value else m.get key' := by
  obtain ⟨free, rfl⟩ := sparse.set_cases run
  unfold get
  by_cases same : key' = key
  · subst same
    simp [find]
  · rw [if_neg same]
    by_cases bucket : index function key' = index function key
    · simp [bucket, free, find, Ne.symm same]
    · simp [Function.update_of_ne bucket]

/-- A bucket is empty when none of the keys present is in it. -/
theorem Sparse.entries_eq_nil_iff (sparse : m.Sparse) {i : Nat} :
    m.entries i = [] ↔ ∀ key, m.hasKey key = true → index function key ≠ i := by
  constructor
  · rintro free key present rfl
    rw [hasKey, free] at present
    cases present
  · intro absent
    rcases sparse.single i with h | ⟨entry, h⟩
    · exact h
    · have bucket := sparse.hashed i entry (by simp [h])
      refine absurd bucket (absent entry.1 ?_)
      rw [hasKey, bucket, h]
      simp [contains]

/-- A key can be set where its bucket is empty. -/
theorem Sparse.set_isSome_iff (sparse : m.Sparse) : (m.set key value).isSome ↔
    ∀ key', m.hasKey key' = true → index function key' ≠ index function key := by
  rw [← sparse.entries_eq_nil_iff]
  rcases sparse.single (index function key) with free | ⟨entry, full⟩
  · rw [set_empty free]
    exact iff_of_true rfl free
  · rw [set_single full, full]
    exact iff_of_false Bool.false_ne_true (List.cons_ne_nil _ _)

end

/-! ## Sequences of `set` calls -/

/-- The value of the last call for a key. -/
def lastValue [DecidableEq Key] (calls : List (Key × Value)) (key : Key) : Option Value :=
  (calls.reverse.find? fun call => call.1 = key).map Prod.snd

/-- What a map should answer after the calls. -/
structure IsMapOf [DecidableEq Key] (m : HashMap function Value) (calls : List (Key × Value)) : Prop where
  get : ∀ key, m.get key =
    match lastValue calls key with
    | some value => .ok value
    | none => .error "Key not found in map!"
  hasKey : ∀ key, m.hasKey key = true ↔ key ∈ calls.map Prod.fst
  once : (m.forEach.map Prod.fst).Nodup
  current : ∀ key value, (key, value) ∈ m.forEach ↔ lastValue calls key = some value

/-- The buckets of the calls, in order. -/
def buckets (function : Key → BitVec 32) (calls : List (Key × Value)) : List Nat :=
  calls.map fun call => index function call.1

theorem sets_append (m : HashMap function Value) (calls calls' : List (Key × Value)) :
    m.sets (calls ++ calls') = (m.sets calls).bind fun m => m.sets calls' :=
  List.foldlM_append

theorem sets_sparse {calls : List (Key × Value)} {m : HashMap function Value}
    (run : empty.sets calls = some m) : m.Sparse := by
  induction calls using List.reverseRecOn generalizing m with
  | nil =>
    obtain rfl := Option.some.inj run
    exact empty_sparse
  | append_singleton calls call ih =>
    rw [sets_append] at run
    obtain ⟨m', before, run⟩ := Option.bind_eq_some_iff.1 run
    obtain ⟨m'', step, last⟩ := Option.bind_eq_some_iff.1 run
    obtain rfl := Option.some.inj last
    exact (ih before).set step

/-- Calls with different buckets fill them. -/
theorem sets_eq {calls : List (Key × Value)} (different : (buckets function calls).Nodup) :
    (empty : HashMap function Value).sets calls = some
      { entries := fun i => calls.filter fun call => index function call.1 = i } := by
  induction calls using List.reverseRecOn with
  | nil => rfl
  | append_singleton calls call ih =>
    rw [buckets, List.map_append, List.nodup_append] at different
    obtain ⟨before, -, apart⟩ := different
    have free : (calls.filter fun c => index function c.1 = index function call.1) = [] := by
      rw [List.filter_eq_nil_iff]
      intro c mem same
      exact apart _ (List.mem_map_of_mem mem) _ List.mem_cons_self (by simpa using same)
    rw [sets_append, ih before, Option.bind_some]
    show (HashMap.set _ call.1 call.2).bind some = _
    rw [set_empty free, Option.bind_some]
    congr 2
    funext i
    rw [List.filter_append]
    by_cases h : i = index function call.1
    · subst h
      simp [free]
    · simp [Function.update_of_ne h, Ne.symm h]

/-- Two calls with one bucket end at the null entry. -/
theorem sets_eq_none {calls : List (Key × Value)} (same : ¬ (buckets function calls).Nodup) :
    (empty : HashMap function Value).sets calls = none := by
  induction calls using List.reverseRecOn with
  | nil => exact absurd List.nodup_nil same
  | append_singleton calls call ih =>
    rw [sets_append]
    by_cases before : (buckets function calls).Nodup
    · have met : index function call.1 ∈ buckets function calls := by
        by_contra new
        apply same
        rw [buckets, List.map_append, List.nodup_append]
        refine ⟨before, by simp, ?_⟩
        rintro a ha b hb rfl
        simp only [List.map_cons, List.map_nil, List.mem_singleton] at hb
        exact new (hb ▸ ha)
      obtain ⟨c, mem, bucket⟩ := List.mem_map.1 met
      have filled := sets_eq before
      rw [filled, Option.bind_some]
      show (HashMap.set _ call.1 call.2).bind some = _
      rcases (sets_sparse filled).single (index function call.1) with h | ⟨entry, h⟩
      · rw [List.filter_eq_nil_iff] at h
        exact absurd bucket (by simpa using h c mem)
      · rw [set_single h, Option.bind_none]
    · rw [ih before, Option.bind_none]

section

variable [DecidableEq Key] {calls : List (Key × Value)}

/-- Calls with different keys leave their own value each. -/
theorem lastValue_eq_some_iff (distinct : (calls.map Prod.fst).Nodup) {key : Key} {value : Value} :
    lastValue calls key = some value ↔ (key, value) ∈ calls := by
  rw [lastValue, Option.map_eq_some_iff]
  constructor
  · rintro ⟨call, found, rfl⟩
    have mem := List.mem_of_find?_eq_some found
    have same := List.find?_some found
    simp only [decide_eq_true_eq] at same
    subst same
    simpa using mem
  · intro mem
    have some : (calls.reverse.find? fun call => call.1 = key).isSome := by
      rw [List.find?_isSome]
      exact ⟨_, by simpa using mem, by simp⟩
    obtain ⟨call, found⟩ := Option.isSome_iff_exists.1 some
    have mem' : call ∈ calls := by simpa using List.mem_of_find?_eq_some found
    have same := List.find?_some found
    simp only [decide_eq_true_eq] at same
    have : call = (key, value) := List.inj_on_of_nodup_map distinct mem' mem same
    exact ⟨call, found, congrArg Prod.snd this⟩

theorem lastValue_eq_none {key : Key} (absent : key ∉ calls.map Prod.fst) :
    lastValue calls key = none := by
  rw [lastValue, Option.map_eq_none_iff, List.find?_eq_none]
  intro call mem
  simp only [decide_eq_true_eq]
  rintro rfl
  exact absent (List.mem_map_of_mem (by simpa using mem))

/-- The map that calls with different buckets fill. -/
theorem isMapOf_of_nodup (different : (buckets function calls).Nodup) :
    IsMapOf ({ entries := fun i => calls.filter fun call => index function call.1 = i } :
      HashMap function Value) calls := by
  have keys : (calls.map Prod.fst).Nodup := by
    apply List.Nodup.of_map (index function)
    rwa [List.map_map]
  have here (call : Key × Value) : call ∈ (calls.filter fun c =>
      index function c.1 = index function call.1) ↔ call ∈ calls := by
    simp
  have chain (i : Nat) : ((calls.filter fun c => index function c.1 = i).map Prod.fst).Nodup :=
    keys.sublist (List.filter_sublist.map _)
  have absent (key : Key) (h : key ∉ calls.map Prod.fst) : key ∉
      (calls.filter fun c => index function c.1 = index function key).map Prod.fst :=
    fun mem => h ((List.filter_sublist.map _).subset mem)
  constructor
  case get =>
    intro key
    by_cases h : key ∈ calls.map Prod.fst
    · obtain ⟨call, mem, rfl⟩ := List.mem_map.1 h
      rw [(lastValue_eq_some_iff keys).2 mem]
      exact (find_eq_ok_iff (chain _)).2 ((here call).2 mem)
    · rw [lastValue_eq_none h]
      exact find_eq_error (absent key h)
  case hasKey =>
    intro key
    rw [HashMap.hasKey, contains_iff]
    constructor
    · intro mem
      exact (List.filter_sublist.map _).subset mem
    · intro known
      obtain ⟨call, mem, rfl⟩ := List.mem_map.1 known
      exact List.mem_map_of_mem ((here call).2 mem)
  case once =>
    rw [forEach, List.map_flatMap, List.nodup_flatMap]
    refine ⟨fun i _ => chain i, List.nodup_range.imp fun {i j} ne => ?_⟩
    -- a key is in the chain of its own bucket only
    intro key left right
    obtain ⟨call, mem, rfl⟩ := List.mem_map.1 left
    obtain ⟨call', mem', same⟩ := List.mem_map.1 right
    have bucket : index function call.1 = i := by simpa using List.of_mem_filter mem
    have bucket' : index function call'.1 = j := by simpa using List.of_mem_filter mem'
    exact ne (by rw [← bucket, ← bucket', same])
  case current =>
    intro key value
    rw [lastValue_eq_some_iff keys, forEach, List.mem_flatMap]
    constructor
    · rintro ⟨i, -, mem⟩
      exact List.mem_of_mem_filter mem
    · intro mem
      refine ⟨index function key, ?_, (here (key, value)).2 mem⟩
      exact List.mem_range.2 (Nat.mod_lt _ (by decide))

/-- **Finite map.** After a sequence of `set` calls on a new map, which follow no null entry, `get`,
`has_key` and `for_each` answer as the finite map of the last values, if and only if no two of the
calls have a key of the same bucket. -/
theorem isMapOf_iff (function : Key → BitVec 32) (calls : List (Key × Value)) :
    (∃ m : HashMap function Value, empty.sets calls = some m ∧ m.IsMapOf calls) ↔
      (buckets function calls).Nodup := by
  constructor
  · rintro ⟨m, run, -⟩
    by_contra same
    rw [sets_eq_none same] at run
    cases run
  · intro different
    exact ⟨_, sets_eq different, isMapOf_of_nodup different⟩

end

/-- Setting one key twice. -/
theorem not_isMapOf_twice :
    ¬ ∃ m : HashMap HashFunctions.djb2 Nat,
      empty.sets [([0x61], 1), ([0x61], 2)] = some m ∧ m.IsMapOf [([0x61], 1), ([0x61], 2)] := by
  rintro ⟨m, run, -⟩
  rw [sets_eq_none (by decide)] at run
  cases run

/-! ## Removal -/

section

variable [DecidableEq Key] {m : HashMap function Value} {key : Key}

/-- What is left of a map when a key is removed from it. -/
structure Removed (m : HashMap function Value) (key : Key) (m' : HashMap function Value) : Prop where
  gone : m'.hasKey key = false
  get : ∀ other ≠ key, m'.get other = m.get other
  hasKey : ∀ other ≠ key, m'.hasKey other = m.hasKey other
  absent : m.hasKey key = false → m' = m

/-- **Removal.** `remove` does without a null entry and leaves the map without the key, and the
same otherwise, if and only if the key is absent from a bucket that is not empty. -/
theorem removed_iff : (∃ m', m.remove key = some m' ∧ m.Removed key m') ↔
    m.entries (index function key) ≠ [] ∧ m.hasKey key = false := by
  constructor
  · rintro ⟨m', run, removed⟩
    obtain ⟨chain, rfl⟩ := remove_eq_some_iff.1 run
    exact ⟨chain, removed.gone⟩
  · rintro ⟨chain, absent⟩
    exact ⟨m, remove_eq_some_iff.2 ⟨chain, rfl⟩, absent, fun _ _ => rfl, fun _ _ => rfl,
      fun _ => rfl⟩

end

/-- The only key of a map stays, and removal from an empty map reads a null entry. -/
theorem not_removed :
    (∃ m : HashMap HashFunctions.djb2 Nat, empty.set [0x61] 1 = some m ∧
      ¬∃ m', m.remove [0x61] = some m' ∧ m.Removed [0x61] m') ∧
      ¬∃ m', (empty : HashMap HashFunctions.djb2 Nat).remove [0x61] = some m' ∧
        empty.Removed [0x61] m' := by
  constructor
  · refine ⟨_, set_empty rfl, ?_⟩
    rintro ⟨m', run, removed⟩
    obtain ⟨-, rfl⟩ := remove_eq_some_iff.1 run
    exact absurd removed.gone (by decide)
  · rintro ⟨m', run, -⟩
    cases run

end MatteOS.Utils.HashMap
