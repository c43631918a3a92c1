import Mathlib.Data.Set.Image
import Mathlib.Data.Set.Pairwise.Basic
import MatteOS.Lib.ByteMemory
import MatteOS.Lib.Transition

/-!
# Objects

What the clients of an allocator share: a set of objects, each of them bytes at an address of its
own. An object is allocated apart from the others, written byte by byte, and released; nothing else
changes it (`Step`), so the objects of every run are apart (`apart_of_run`). The regions of a memory
that are in use hold such objects (`objectsIn`): what is not in use may change, and a region that is
added, removed or written is an object that is.
-/

namespace ObjectStore

open ByteMemory Transition

/-- Bytes at an address. -/
abbrev Object := Nat × List (BitVec 8)

def Apart (o o' : Object) : Prop := o.1 + o.2.length ≤ o'.1 ∨ o'.1 + o'.2.length ≤ o.1

theorem Apart.symm {o o' : Object} (h : Apart o o') : Apart o' o := h.elim .inr .inl

inductive Action where
  | allocate (address length : Nat) (zeroed : Bool)
  | release (address : Nat)
  | write (address index : Nat) (value : BitVec 8)
deriving DecidableEq

inductive Step (S : Set Object) : Action → Set Object → Prop where
  | allocate {address : Nat} {bytes : List (BitVec 8)} {zeroed : Bool} (nonempty : bytes ≠ [])
      (fresh : ∀ o ∈ S, Apart o (address, bytes))
      (zeros : zeroed → ∀ b ∈ bytes, b = 0) :
      Step S (.allocate address bytes.length zeroed) (insert (address, bytes) S)
  | release {address : Nat} {bytes : List (BitVec 8)} (held : (address, bytes) ∈ S) :
      Step S (.release address) (S \ {(address, bytes)})
  | write {address index : Nat} {bytes : List (BitVec 8)} {value : BitVec 8}
      (held : (address, bytes) ∈ S) (inside : index < bytes.length) :
      Step S (.write address index value)
        (insert (address, bytes.set index value) (S \ {(address, bytes)}))

/-- The objects are pairwise apart. -/
abbrev AllApart (S : Set Object) : Prop := S.Pairwise Apart

/-- **One step** keeps the objects apart. -/
theorem Step.apart {S S' : Set Object} {a : Action} (step : Step S a S') (apart : AllApart S) :
    AllApart S' := by
  cases step with
  | allocate nonempty fresh zeros =>
    refine apart.insert fun o mem _ => ⟨(fresh o mem).symm, fresh o mem⟩
  | release held => exact apart.mono Set.sdiff_subset
  | @write address index bytes value held inside =>
    refine (apart.mono Set.sdiff_subset).insert fun o mem _ => ?_
    -- the written object is where the old one was
    have other : Apart (address, bytes) o := apart held mem.1 fun same => mem.2 same.symm
    have moved : Apart (address, bytes.set index value) o := by
      simpa only [Apart, List.length_set] using other
    exact ⟨moved, moved.symm⟩

theorem apart_of_run {S' : Set Object} {as : List Action} (run : Run Step ∅ as S') : AllApart S' :=
  run.invariant (fun _ _ _ apart step => Step.apart step apart) (Set.pairwise_empty _)

/-! ## Objects in memory -/

/-- The objects in the regions `R`, given by address and length. -/
def objectsIn (m : Memory) (R : Set (Nat × Nat)) : Set Object :=
  (fun r => (r.1, loadBytes m r.1 r.2)) '' R

section

variable {m m' : Memory} {R : Set (Nat × Nat)} {r r' : Nat × Nat}

theorem mem_objectsIn (h : r ∈ R) : (r.1, loadBytes m r.1 r.2) ∈ objectsIn m R :=
  Set.mem_image_of_mem _ h

@[simp] theorem objectsIn_empty (m : Memory) : objectsIn m ∅ = ∅ := Set.image_empty _

/-- What is not in use may change. -/
theorem objectsIn_congr (same : ∀ r ∈ R, ∀ i < r.2, m' (r.1 + i) = m (r.1 + i)) :
    objectsIn m' R = objectsIn m R :=
  Set.image_congr fun r mem => Prod.ext rfl (loadBytes_congr (same r mem))

theorem objectsIn_insert (m : Memory) (r : Nat × Nat) (R : Set (Nat × Nat)) :
    objectsIn m (insert r R) = insert (r.1, loadBytes m r.1 r.2) (objectsIn m R) :=
  Set.image_insert_eq

/-- Objects in different regions are different. -/
theorem object_injective (m : Memory) :
    Function.Injective fun r : Nat × Nat => (r.1, loadBytes m r.1 r.2) := by
  intro r r' same
  obtain ⟨address, bytes⟩ := Prod.mk.inj same
  have length := congrArg List.length bytes
  rw [loadBytes_length, loadBytes_length] at length
  exact Prod.ext address length

theorem objectsIn_diff (m : Memory) (R : Set (Nat × Nat)) (r : Nat × Nat) :
    objectsIn m (R \ {r}) = objectsIn m R \ {(r.1, loadBytes m r.1 r.2)} := by
  rw [objectsIn, Set.image_sdiff (object_injective m), Set.image_singleton]
  rfl

/-- Regions whose bytes are apart. -/
def RegionsApart (r r' : Nat × Nat) : Prop := r.1 + r.2 ≤ r'.1 ∨ r'.1 + r'.2 ≤ r.1

theorem RegionsApart.symm (h : RegionsApart r r') : RegionsApart r' r := Or.symm h

instance : Std.Symm RegionsApart := ⟨fun _ _ h => h.symm⟩

theorem apart_iff : Apart (r.1, loadBytes m r.1 r.2) (r'.1, loadBytes m' r'.1 r'.2) ↔
    RegionsApart r r' := by
  simp only [Apart, RegionsApart, loadBytes_length]

/-- A region that is added is an object that is allocated. -/
theorem step_allocate (R : Set (Nat × Nat)) (zeroed : Bool) (nonempty : 0 < r.2)
    (same : ∀ s ∈ R, ∀ i < s.2, m' (s.1 + i) = m (s.1 + i)) (fresh : ∀ s ∈ R, RegionsApart s r)
    (zeros : zeroed → ∀ i < r.2, m' (r.1 + i) = 0) :
    Step (objectsIn m R) (.allocate r.1 r.2 zeroed) (objectsIn m' (insert r R)) := by
  rw [objectsIn_insert, objectsIn_congr same]
  have some : loadBytes m' r.1 r.2 ≠ [] := List.ne_nil_of_length_pos (by simpa using nonempty)
  have apart : ∀ o ∈ objectsIn m R, Apart o (r.1, loadBytes m' r.1 r.2) := by
    intro o mem
    obtain ⟨s, mem, rfl⟩ := mem
    exact apart_iff.2 (fresh s mem)
  have step : Step (objectsIn m R) (.allocate r.1 (loadBytes m' r.1 r.2).length zeroed)
      (insert (r.1, loadBytes m' r.1 r.2) (objectsIn m R)) := by
    refine .allocate some apart fun zero b mem => ?_
    obtain ⟨i, inside, rfl⟩ := List.getElem_of_mem mem
    rw [loadBytes_getElem]
    exact zeros zero i (by simpa using inside)
  rwa [loadBytes_length] at step

/-- A region that is removed is an object that is released. -/
theorem step_release (held : r ∈ R)
    (same : ∀ s ∈ R \ {r}, ∀ i < s.2, m' (s.1 + i) = m (s.1 + i)) :
    Step (objectsIn m R) (.release r.1) (objectsIn m' (R \ {r})) := by
  rw [objectsIn_congr same, objectsIn_diff]
  exact .release (mem_objectsIn held)

/-- A byte of a region that is written is a byte of its object. -/
theorem step_write {i : Nat} (value : BitVec 8) (apart : R.Pairwise RegionsApart) (held : r ∈ R)
    (inside : i < r.2) :
    Step (objectsIn m R) (.write r.1 i value) (objectsIn (store8 m (r.1 + i) value) R) := by
  have whole : R = insert r (R \ {r}) := by
    rw [Set.insert_sdiff_singleton, Set.insert_eq_of_mem held]
  have others : objectsIn (store8 m (r.1 + i) value) (R \ {r}) =
      objectsIn m R \ {(r.1, loadBytes m r.1 r.2)} := by
    rw [← objectsIn_diff]
    refine objectsIn_congr fun s mem j hj => store8_apply_of_ne _ _ ?_
    have := apart mem.1 held mem.2
    simp only [RegionsApart] at this
    omega
  have written : loadBytes (store8 m (r.1 + i) value) r.1 r.2 =
      (loadBytes m r.1 r.2).set i value := by
    refine List.ext_getElem (by simp) fun j h _ => ?_
    rw [loadBytes_getElem, List.getElem_set]
    by_cases same : i = j
    · rw [if_pos same, same, store8_apply_self]
    · rw [if_neg same, store8_apply_of_ne _ _ (by omega), loadBytes_getElem]
  have step : Step (objectsIn m R) (.write r.1 i value)
      (insert (r.1, (loadBytes m r.1 r.2).set i value)
        (objectsIn m R \ {(r.1, loadBytes m r.1 r.2)})) :=
    .write (mem_objectsIn held) (by rwa [loadBytes_length])
  rw [← others, ← written, ← objectsIn_insert, ← whole] at step
  exact step

end

end ObjectStore
