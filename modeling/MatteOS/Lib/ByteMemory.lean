import Mathlib.Algebra.GroupWithZero.Nat
import Mathlib.Data.Nat.Init
import Mathlib.Tactic.Common

/-!
# Byte-addressed memory

A flat memory of bytes with little-endian 64-bit accesses. Loads and stores are
related by two rules only: a load of the stored word (`load64_store64`) and a
load away from the store (`load64_store64_of_disjoint`). Everything a client
needs about stores beside a range is `store64_apply_of_outside`, and loads see
only the eight bytes they read (`load64_congr`).
-/

namespace ByteMemory

/-- A memory: one byte at every address. -/
abbrev Memory := Nat → BitVec 8

/-- The little-endian 64-bit word at `a`. -/
def load64 (m : Memory) (a : Nat) : BitVec 64 :=
  m (a + 7) ++ m (a + 6) ++ m (a + 5) ++ m (a + 4) ++ m (a + 3) ++ m (a + 2) ++ m (a + 1) ++ m a

/-- Store the 64-bit word `v` at `a`. -/
def store64 (m : Memory) (a : Nat) (v : BitVec 64) : Memory := fun x =>
  if a ≤ x ∧ x < a + 8 then v.extractLsb' (8 * (x - a)) 8 else m x

/-- Store the byte `v` at `a`. -/
def store8 (m : Memory) (a : Nat) (v : BitVec 8) : Memory := fun x => if x = a then v else m x

/-- Clear the `n` bytes from `a` on. -/
def clear (m : Memory) (a n : Nat) : Memory := fun x => if a ≤ x ∧ x < a + n then 0 else m x

/-- Store `bytes` from `a` on. -/
def storeBytes (m : Memory) (a : Nat) (bytes : List (BitVec 8)) : Memory := fun x =>
  if a ≤ x then (bytes[x - a]?).getD (m x) else m x

/-- The `n` bytes from `a` on. -/
def loadBytes (m : Memory) (a n : Nat) : List (BitVec 8) := (List.range n).map fun i => m (a + i)

/-! ## Bytes -/

@[simp] theorem store8_apply_self (m : Memory) (a : Nat) (v : BitVec 8) : store8 m a v a = v := by
  simp [store8]

theorem store8_apply_of_ne (m : Memory) {a x : Nat} (v : BitVec 8) (h : x ≠ a) :
    store8 m a v x = m x := by
  simp [store8, h]

theorem store64_apply_of_outside (m : Memory) {a x : Nat} (v : BitVec 64)
    (h : x < a ∨ a + 8 ≤ x) : store64 m a v x = m x := by
  unfold store64
  rw [if_neg (by omega)]

theorem store64_zero_apply (m : Memory) {a x : Nat} (h1 : a ≤ x) (h2 : x < a + 8) :
    store64 m a 0 x = 0 := by
  unfold store64
  rw [if_pos ⟨h1, h2⟩]
  ext i hi
  simp

theorem clear_apply_inside (m : Memory) {a n x : Nat} (h1 : a ≤ x) (h2 : x < a + n) :
    clear m a n x = 0 := by
  unfold clear
  rw [if_pos ⟨h1, h2⟩]

theorem clear_apply_outside (m : Memory) {a n x : Nat} (h : x < a ∨ a + n ≤ x) :
    clear m a n x = m x := by
  unfold clear
  rw [if_neg (by omega)]

/-! ## Words -/

/-- A load sees only the eight bytes at its address. -/
theorem load64_congr {m m' : Memory} {a : Nat} (h : ∀ x, a ≤ x → x < a + 8 → m x = m' x) :
    load64 m a = load64 m' a := by
  unfold load64
  rw [h a (by omega) (by omega), h (a + 1) (by omega) (by omega), h (a + 2) (by omega) (by omega),
    h (a + 3) (by omega) (by omega), h (a + 4) (by omega) (by omega),
    h (a + 5) (by omega) (by omega), h (a + 6) (by omega) (by omega),
    h (a + 7) (by omega) (by omega)]

@[simp] theorem load64_store64 (m : Memory) (a : Nat) (v : BitVec 64) :
    load64 (store64 m a v) a = v := by
  have byte : ∀ k, k < 8 → store64 m a v (a + k) = v.extractLsb' (8 * k) 8 := by
    intro k hk
    unfold store64
    rw [if_pos (by omega), Nat.add_sub_cancel_left]
  have byte0 := byte 0 (by omega)
  simp only [Nat.add_zero] at byte0
  unfold load64
  rw [byte 7 (by omega), byte 6 (by omega), byte 5 (by omega), byte 4 (by omega),
    byte 3 (by omega), byte 2 (by omega), byte 1 (by omega), byte0]
  apply BitVec.eq_of_getLsbD_eq
  intro i hi
  simp only [BitVec.getLsbD_append, BitVec.getLsbD_extractLsb']
  grind

theorem load64_store64_of_disjoint (m : Memory) {a b : Nat} (v : BitVec 64)
    (h : a + 8 ≤ b ∨ b + 8 ≤ a) : load64 (store64 m b v) a = load64 m a :=
  load64_congr fun x _ _ => store64_apply_of_outside m v (by omega)

theorem extractLsb'_load64 (m : Memory) (a : Nat) {k : Nat} (hk : k < 8) :
    (load64 m a).extractLsb' (8 * k) 8 = m (a + k) := by
  apply BitVec.eq_of_getLsbD_eq
  intro i hi
  unfold load64
  simp only [BitVec.getLsbD_append, BitVec.getLsbD_extractLsb']
  grind

/-- Storing back what is there. -/
theorem store64_load64 (m : Memory) (a : Nat) : store64 m a (load64 m a) = m := by
  funext x
  unfold store64
  split
  · rename_i inside
    rw [extractLsb'_load64 m a (by omega)]
    congr 1
    omega
  · rfl

/-- A word of zero bytes is the zero word. -/
theorem load64_eq_zero {m : Memory} {a : Nat} (h : ∀ x, a ≤ x → x < a + 8 → m x = 0) :
    load64 m a = 0 := by
  have zeros : load64 m a = load64 (fun _ => 0) a := load64_congr h
  rw [zeros]
  unfold load64
  beta_reduce
  decide

theorem load64_clear_inside (m : Memory) {a n b : Nat} (h1 : a ≤ b) (h2 : b + 8 ≤ a + n) :
    load64 (clear m a n) b = 0 :=
  load64_eq_zero fun _ _ _ => clear_apply_inside m (by omega) (by omega)

theorem load64_clear_outside (m : Memory) {a n b : Nat} (h : b + 8 ≤ a ∨ a + n ≤ b) :
    load64 (clear m a n) b = load64 m b :=
  load64_congr fun _ _ _ => clear_apply_outside m (by omega)

theorem storeBytes_apply_of_outside (m : Memory) {a x : Nat} {bytes : List (BitVec 8)}
    (outside : ∀ i < bytes.length, x ≠ a + i) : storeBytes m a bytes x = m x := by
  unfold storeBytes
  split
  · rw [List.getElem?_eq_none, Option.getD_none]
    by_contra inside
    exact outside (x - a) (by omega) (by omega)
  · rfl

@[simp] theorem storeBytes_nil (m : Memory) (a : Nat) : storeBytes m a [] = m := by
  funext x
  simp [storeBytes]

theorem storeBytes_apply_inside (m : Memory) {a i : Nat} {bytes : List (BitVec 8)}
    (inside : i < bytes.length) : storeBytes m a bytes (a + i) = bytes[i] := by
  simp [storeBytes, inside]

/-- Adjacent runs of bytes are one. -/
theorem storeBytes_append (m : Memory) (a : Nat) (bytes later : List (BitVec 8)) :
    storeBytes (storeBytes m a bytes) (a + bytes.length) later = storeBytes m a (bytes ++ later) := by
  funext x
  simp only [storeBytes]
  by_cases low : a ≤ x
  · by_cases first : x - a < bytes.length
    · rw [if_neg (by omega), if_pos low, if_pos low, List.getElem?_append_left first]
    · rw [if_pos (by omega), if_pos low, if_pos low, List.getElem?_append_right (by omega),
        List.getElem?_eq_none (l := bytes) (by omega), Option.getD_none,
        show x - (a + bytes.length) = x - a - bytes.length by omega]
  · rw [if_neg (by omega), if_neg low, if_neg low]

@[simp] theorem loadBytes_length (m : Memory) (a n : Nat) : (loadBytes m a n).length = n := by
  simp [loadBytes]

@[simp] theorem loadBytes_zero (m : Memory) (a : Nat) : loadBytes m a 0 = [] := rfl

theorem loadBytes_getElem (m : Memory) {a n i : Nat} (inside : i < (loadBytes m a n).length) :
    (loadBytes m a n)[i] = m (a + i) := by
  simp [loadBytes]

/-- Bytes are the same where the memories agree. -/
theorem loadBytes_congr {m m' : Memory} {a n : Nat} (h : ∀ i < n, m (a + i) = m' (a + i)) :
    loadBytes m a n = loadBytes m' a n :=
  List.map_congr_left fun i hi => h i (List.mem_range.1 hi)

/-- What was stored is loaded. -/
@[simp] theorem loadBytes_storeBytes (m : Memory) (a : Nat) (bytes : List (BitVec 8)) :
    loadBytes (storeBytes m a bytes) a bytes.length = bytes := by
  refine List.ext_getElem (loadBytes_length _ _ _) fun i _ inside => ?_
  rw [loadBytes_getElem, storeBytes_apply_inside m inside]

/-! ## Agreement -/

/-- The memories agree on the bytes of `p`. -/
def AgreeOn (p : Nat → Prop) (m m' : Memory) : Prop := ∀ a, p a → m' a = m a

/-- The `n` bytes at `a`. -/
def bytesAt (a n : Nat) : Nat → Prop := fun x => a ≤ x ∧ x < a + n

namespace AgreeOn

variable {p q : Nat → Prop} {m m' m'' : Memory}

theorem refl (p : Nat → Prop) (m : Memory) : AgreeOn p m m := fun _ _ => rfl

theorem trans (h : AgreeOn p m m') (h' : AgreeOn p m' m'') : AgreeOn p m m'' :=
  fun a ha => (h' a ha).trans (h a ha)

theorem mono (h : AgreeOn q m m') (sub : ∀ a, p a → q a) : AgreeOn p m m' :=
  fun a ha => h a (sub a ha)

theorem load64 {a n : Nat} (h : AgreeOn (bytesAt a n) m m') {b : Nat} (lower : a ≤ b)
    (upper : b + 8 ≤ a + n) : load64 m' b = load64 m b :=
  load64_congr fun x _ _ => h x ⟨by omega, by omega⟩

/-- Storing a word that misses the bytes. -/
theorem store64 (h : AgreeOn p m m') {a : Nat} (v : BitVec 64)
    (miss : ∀ x, p x → x < a ∨ a + 8 ≤ x) : AgreeOn p m (store64 m' a v) := fun x hx => by
  rw [store64_apply_of_outside _ _ (miss x hx), h x hx]

/-- Storing the same word in both. -/
theorem store64_both (h : AgreeOn p m m') (a : Nat) (v : BitVec 64) :
    AgreeOn p (ByteMemory.store64 m a v) (ByteMemory.store64 m' a v) := fun x hx => by
  rw [ByteMemory.store64, ByteMemory.store64, h x hx]

end AgreeOn

/-! ## Runs of stores -/

/-- Store `v i` at `a i` for each `i` of the list. -/
def storeAll (a : Nat → Nat) (v : Nat → BitVec 64) (is : List Nat) (m : Memory) : Memory :=
  is.foldl (fun m i => store64 m (a i) (v i)) m

section

variable {a : Nat → Nat} {v : Nat → BitVec 64} {is : List Nat} {m : Memory}

theorem storeAll_apply_of_outside {x : Nat} (miss : ∀ i ∈ is, x < a i ∨ a i + 8 ≤ x) :
    storeAll a v is m x = m x := by
  induction is generalizing m with
  | nil => rfl
  | cons i is ih =>
    rw [storeAll, List.foldl_cons]
    exact (ih fun j mem => miss j (by simp [mem])).trans
      (store64_apply_of_outside _ _ (miss i (by simp)))

theorem load64_storeAll_of_disjoint {b : Nat} (miss : ∀ i ∈ is, b + 8 ≤ a i ∨ a i + 8 ≤ b) :
    load64 (storeAll a v is m) b = load64 m b :=
  load64_congr fun x _ _ => storeAll_apply_of_outside fun i mem => by
    have := miss i mem
    omega

theorem load64_storeAll (distinct : is.Nodup)
    (apart : ∀ i ∈ is, ∀ j ∈ is, i ≠ j → a i + 8 ≤ a j ∨ a j + 8 ≤ a i) {i : Nat} (mem : i ∈ is) :
    load64 (storeAll a v is m) (a i) = v i := by
  induction is generalizing m with
  | nil => cases mem
  | cons j is ih =>
    obtain ⟨fresh, distinct⟩ := List.nodup_cons.1 distinct
    rw [storeAll, List.foldl_cons]
    rcases List.mem_cons.1 mem with rfl | mem
    · have later : load64 (storeAll a v is (store64 m (a i) (v i))) (a i) =
          load64 (store64 m (a i) (v i)) (a i) :=
        load64_storeAll_of_disjoint fun j mem =>
          apart i (by simp) j (by simp [mem]) (ne_of_mem_of_not_mem mem fresh).symm
      exact later.trans (load64_store64 _ _ _)
    · exact ih distinct (fun i hi j hj => apart i (by simp [hi]) j (by simp [hj])) mem

end

end ByteMemory
