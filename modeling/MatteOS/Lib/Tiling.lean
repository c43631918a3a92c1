import Mathlib.Algebra.GroupWithZero.Nat
import Mathlib.Data.List.Basic
import Mathlib.Algebra.BigOperators.Group.List.Basic
import Mathlib.Tactic.Common

/-!
# Tilings walked by headers

An arena is cut into tiles, and the only record of the cut is the header at the
start of each tile, which gives its size. `Tiles size header a hs` says that walking
from `a` meets the headers `hs`; `places` are the tiles with their addresses. The
places of a walk follow each other without a gap (`places_pairwise`, `le_places`),
a walk depends on the headers at its places only (`Tiles.congr`), and it can be cut
and joined at any tile (`tiles_append`, `places_append`).
-/

namespace Tiling

variable {H : Type} (size : H → Nat)

/-- How far a walk over `hs` gets. -/
def total (hs : List H) : Nat := (hs.map size).sum

/-- The walk from `a` meets the headers `hs`. -/
def Tiles (header : Nat → H) : Nat → List H → Prop
  | _, [] => True
  | a, h :: hs => header a = h ∧ Tiles header (a + size h) hs

/-- The tiles of a walk with their addresses. -/
def places : Nat → List H → List (Nat × H)
  | _, [] => []
  | a, h :: hs => (a, h) :: places (a + size h) hs

variable {size}

@[simp] theorem total_nil : total size [] = 0 := rfl

@[simp] theorem total_cons (h : H) (hs : List H) : total size (h :: hs) = size h + total size hs := by
  simp [total]

@[simp] theorem total_append (hs gs : List H) :
    total size (hs ++ gs) = total size hs + total size gs := by
  simp [total]

theorem tiles_append {header : Nat → H} {a : Nat} {hs gs : List H} :
    Tiles size header a (hs ++ gs) ↔
      Tiles size header a hs ∧ Tiles size header (a + total size hs) gs := by
  induction hs generalizing a with
  | nil => simp [Tiles]
  | cons h hs ih => simp [Tiles, ih, and_assoc, Nat.add_assoc]

theorem places_append (a : Nat) (hs gs : List H) :
    places size a (hs ++ gs) = places size a hs ++ places size (a + total size hs) gs := by
  induction hs generalizing a with
  | nil => simp [places]
  | cons h hs ih => simp [places, ih, Nat.add_assoc]

/-- A place lies inside the walk. -/
theorem le_places {a : Nat} {hs : List H} {p : Nat × H} (hp : p ∈ places size a hs) :
    a ≤ p.1 ∧ p.1 + size p.2 ≤ a + total size hs := by
  induction hs generalizing a with
  | nil => simp [places] at hp
  | cons h hs ih =>
    rw [total_cons]
    rcases List.mem_cons.1 hp with rfl | hp
    · exact ⟨Nat.le_refl _, by simp only; omega⟩
    · have := ih hp
      omega

/-- A place cuts the walk. -/
theorem exists_of_mem_places {a : Nat} {hs : List H} {p : Nat × H} (hp : p ∈ places size a hs) :
    ∃ l r, hs = l ++ p.2 :: r ∧ p.1 = a + total size l := by
  induction hs generalizing a with
  | nil => simp [places] at hp
  | cons h hs ih =>
    rcases List.mem_cons.1 hp with rfl | hp
    · exact ⟨[], hs, rfl, rfl⟩
    · obtain ⟨l, r, rfl, e⟩ := ih hp
      exact ⟨h :: l, r, rfl, by rw [e, total_cons]; omega⟩

theorem mem_places_middle (a : Nat) (l : List H) (h : H) (r : List H) :
    (a + total size l, h) ∈ places size a (l ++ h :: r) := by
  rw [places_append]
  exact List.mem_append_right _ List.mem_cons_self

/-- The places of a walk follow each other. -/
theorem places_pairwise (size : H → Nat) (a : Nat) (hs : List H) :
    (places size a hs).Pairwise fun p q => p.1 + size p.2 ≤ q.1 := by
  induction hs generalizing a with
  | nil => exact List.Pairwise.nil
  | cons h hs ih => exact List.pairwise_cons.2 ⟨fun q hq => (le_places hq).1, ih _⟩

/-- Two different places of a walk do not overlap. -/
theorem places_apart {a : Nat} {hs : List H} {p q : Nat × H} (hp : p ∈ places size a hs)
    (hq : q ∈ places size a hs) (ne : p ≠ q) : p.1 + size p.2 ≤ q.1 ∨ q.1 + size q.2 ≤ p.1 := by
  have order := places_pairwise size a hs
  induction hs generalizing a with
  | nil => simp [places] at hp
  | cons h hs ih =>
    obtain ⟨first, rest⟩ := List.pairwise_cons.1 order
    rcases List.mem_cons.1 hp with rfl | hp' <;> rcases List.mem_cons.1 hq with rfl | hq'
    · exact absurd rfl ne
    · exact Or.inl (first q hq')
    · exact Or.inr (first p hp')
    · exact ih hp' hq' rest

namespace Tiles

variable {header header' : Nat → H} {a : Nat} {hs : List H}

theorem header_middle {l r : List H} {h : H} (tiles : Tiles size header a (l ++ h :: r)) :
    header (a + total size l) = h := ((tiles_append.1 tiles).2).1

/-- The header at a place. -/
theorem header_eq (tiles : Tiles size header a hs) {p : Nat × H} (hp : p ∈ places size a hs) :
    header p.1 = p.2 := by
  obtain ⟨l, r, rfl, e⟩ := exists_of_mem_places hp
  rw [e]
  exact tiles.header_middle

/-- A walk depends on the headers at its places only. -/
theorem congr (tiles : Tiles size header a hs)
    (same : ∀ p ∈ places size a hs, header' p.1 = header p.1) : Tiles size header' a hs := by
  induction hs generalizing a with
  | nil => trivial
  | cons h hs ih =>
    refine ⟨(same (a, h) List.mem_cons_self).trans tiles.1, ih tiles.2 fun p hp => ?_⟩
    exact same p (List.mem_cons_of_mem _ hp)

/-- **Recutting.** A run of tiles may be cut anew into tiles of the same total size, when the
headers outside of it stay. -/
theorem replace {l c r d : List H} (tiles : Tiles size header a (l ++ c ++ r))
    (same : total size d = total size c) (cut : Tiles size header' (a + total size l) d)
    (frame : ∀ p ∈ places size a (l ++ c ++ r),
      p.1 + size p.2 ≤ a + total size l ∨ a + total size l + total size c ≤ p.1 →
        header' p.1 = header p.1) : Tiles size header' a (l ++ d ++ r) := by
  rw [List.append_assoc, tiles_append, tiles_append] at tiles ⊢
  rw [List.append_assoc] at frame
  obtain ⟨left, -, right⟩ := tiles
  refine ⟨left.congr fun p hp => ?_, cut, ?_⟩
  · have := le_places hp
    exact frame p (by rw [places_append]; exact List.mem_append_left _ hp) (by omega)
  · rw [same]
    refine right.congr fun p hp => ?_
    have := le_places hp
    refine frame p ?_ (by omega)
    rw [places_append, places_append]
    exact List.mem_append_right _ (List.mem_append_right _ hp)

/-- Headers determine the walk of a given length. -/
theorem unique (tiles : Tiles size header a hs) {gs : List H} (tiles' : Tiles size header a gs)
    (pos : ∀ h ∈ hs ++ gs, 0 < size h) (same : total size hs = total size gs) : hs = gs := by
  induction hs generalizing a gs with
  | nil =>
    cases gs with
    | nil => rfl
    | cons g gs =>
      have := pos g (by simp)
      simp at same
      omega
  | cons h hs ih =>
    cases gs with
    | nil =>
      have := pos h (by simp)
      simp at same
      omega
    | cons g gs =>
      obtain rfl : h = g := tiles.1.symm.trans tiles'.1
      rw [ih tiles.2 tiles'.2 (fun k hk => pos k (by
        rcases List.mem_append.1 hk with hk | hk <;> simp [hk])) (by simpa using same)]

end Tiles

end Tiling
