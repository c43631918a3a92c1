import Mathlib.Algebra.GroupWithZero.Nat
import Mathlib.Data.List.Pairwise
import Mathlib.Data.Nat.Count
import Mathlib.Order.Interval.Finset.Nat
import Mathlib.Tactic.Common

/-!
# Blocks marked in a table

A table of cells records a set of blocks of consecutive cells: every cell of a block
but the last carries one mark, the last cell carries another, and the cells of no
block are free (`Encodes`). The ends of the blocks are stored nowhere else. Adding a
block in free cells (`Encodes.add`) and clearing the cells of a block
(`Encodes.remove`) keep such a table, and the cells that are not free count the
lengths of the blocks (`Encodes.count`).
-/

namespace BlockTable

/-- `len` cells from `start` on. -/
structure Block where
  start : Nat
  len : Nat
deriving DecidableEq

/-- The block has the cell `x`. -/
def Block.Has (b : Block) (x : Nat) : Prop := b.start ≤ x ∧ x < b.start + b.len

instance (b : Block) (x : Nat) : Decidable (b.Has x) :=
  inferInstanceAs (Decidable (_ ∧ _))

/-- The blocks share no cell. -/
def Block.Apart (b c : Block) : Prop := b.start + b.len ≤ c.start ∨ c.start + c.len ≤ b.start

/-- Some block has the cell `x`. -/
def Covers (bs : List Block) (x : Nat) : Prop := ∃ b ∈ bs, b.Has x

instance (bs : List Block) (x : Nat) : Decidable (Covers bs x) :=
  inferInstanceAs (Decidable (∃ b ∈ bs, b.Has x))

theorem Block.Apart.symm {b c : Block} (h : b.Apart c) : c.Apart b := Or.symm h

instance : Std.Symm Block.Apart := ⟨fun _ _ h => h.symm⟩

theorem Block.Apart.not_has {b c : Block} (h : b.Apart c) {x : Nat} (hb : b.Has x) :
    ¬ c.Has x := by
  unfold Block.Has Block.Apart at *
  omega

/-- Pairwise apart blocks below `n` have as many cells as their lengths add up to. -/
theorem count_covers {bs : List Block} (apart : bs.Pairwise Block.Apart) {n : Nat}
    (within : ∀ b ∈ bs, b.start + b.len ≤ n) :
    Nat.count (Covers bs) n = (bs.map (·.len)).sum := by
  induction bs with
  | nil =>
    rw [Nat.count_eq_card_filter_range, Finset.card_eq_zero.2]
    · rfl
    · exact Finset.filter_eq_empty_iff.2 fun x _ ⟨_, hb, _⟩ => by simp at hb
  | cons b bs ih =>
    obtain ⟨first, rest⟩ := List.pairwise_cons.1 apart
    have cells : (Finset.range n).filter (Covers (b :: bs)) =
        Finset.Ico b.start (b.start + b.len) ∪ (Finset.range n).filter (Covers bs) := by
      have top := within b List.mem_cons_self
      ext x
      simp only [Finset.mem_filter, Finset.mem_range, Finset.mem_union, Finset.mem_Ico, Covers,
        List.mem_cons, exists_eq_or_imp, Block.Has]
      constructor
      · rintro ⟨hx, h | h⟩
        · exact Or.inl h
        · exact Or.inr ⟨hx, h⟩
      · rintro (h | ⟨hx, h⟩)
        · exact ⟨by omega, Or.inl h⟩
        · exact ⟨hx, Or.inr h⟩
    have disjoint : Disjoint (Finset.Ico b.start (b.start + b.len))
        ((Finset.range n).filter (Covers bs)) := by
      rw [Finset.disjoint_left]
      intro x hx hc
      obtain ⟨c, hc, has⟩ := (Finset.mem_filter.1 hc).2
      exact (first c hc).not_has (Finset.mem_Ico.1 hx) has
    have tail := ih rest fun c hc => within c (List.mem_cons_of_mem b hc)
    rw [Nat.count_eq_card_filter_range] at tail ⊢
    rw [cells, Finset.card_union_of_disjoint disjoint, tail, Nat.card_Ico, List.map_cons,
      List.sum_cons]
    omega

section Table

variable {C : Type} (free inner last : C)

/-- The cells below `n` mark exactly the blocks `bs`. -/
structure Encodes (n : Nat) (cell : Nat → C) (bs : List Block) : Prop where
  apart : bs.Pairwise Block.Apart
  nonempty : ∀ b ∈ bs, 0 < b.len
  within : ∀ b ∈ bs, b.start + b.len ≤ n
  inner : ∀ b ∈ bs, ∀ x, b.start ≤ x → x + 1 < b.start + b.len → cell x = inner
  last : ∀ b ∈ bs, ∀ x, x + 1 = b.start + b.len → cell x = last
  free : ∀ x < n, ¬ Covers bs x → cell x = free

variable {free inner last} {n : Nat} {cell cell' : Nat → C} {bs : List Block}

namespace Encodes

/-- The cell of a block carries one of the two marks. -/
theorem marked (enc : Encodes free inner last n cell bs) {x : Nat} (h : Covers bs x) :
    cell x = inner ∨ cell x = last := by
  obtain ⟨b, hb, h1, h2⟩ := h
  by_cases e : x + 1 = b.start + b.len
  · exact Or.inr (enc.last b hb x e)
  · exact Or.inl (enc.inner b hb x h1 (by omega))

theorem free_iff (enc : Encodes free inner last n cell bs) (hi : inner ≠ free) (hl : last ≠ free)
    {x : Nat} (hx : x < n) : cell x = free ↔ ¬ Covers bs x := by
  refine ⟨fun e h => ?_, enc.free x hx⟩
  rcases enc.marked h with m | m
  · exact hi (m.symm.trans e)
  · exact hl (m.symm.trans e)

/-- Only the cells below `n` matter. -/
theorem congr (enc : Encodes free inner last n cell bs) (same : ∀ x < n, cell' x = cell x) :
    Encodes free inner last n cell' bs where
  apart := enc.apart
  nonempty := enc.nonempty
  within := enc.within
  inner b hb x h1 h2 := by
    have top := enc.within b hb
    rw [same x (by omega)]
    exact enc.inner b hb x h1 h2
  last b hb x h := by
    have top := enc.within b hb
    rw [same x (by omega)]
    exact enc.last b hb x h
  free x hx h := by
    rw [same x hx]
    exact enc.free x hx h

/-- The order of the blocks does not matter. -/
theorem perm (enc : Encodes free inner last n cell bs) {bs' : List Block} (h : bs.Perm bs') :
    Encodes free inner last n cell bs' where
  apart := enc.apart.perm h fun h => h.symm
  nonempty b hb := enc.nonempty b (h.mem_iff.2 hb)
  within b hb := enc.within b (h.mem_iff.2 hb)
  inner b hb := enc.inner b (h.mem_iff.2 hb)
  last b hb := enc.last b (h.mem_iff.2 hb)
  free x hx uncovered := enc.free x hx fun ⟨b, hb, has⟩ => uncovered ⟨b, h.mem_iff.1 hb, has⟩

/-- Two blocks of the table that share a cell are one block. -/
theorem eq_of_has (enc : Encodes free inner last n cell bs) {b c : Block} (hb : b ∈ bs)
    (hc : c ∈ bs) {x : Nat} (bx : b.Has x) (cx : c.Has x) : b = c := by
  by_contra ne
  have far : b.Apart c := enc.apart.forall hb hc ne
  exact far.not_has bx cx

/-- The cells that are not free are as many as the lengths of the blocks add up to. -/
theorem count [DecidableEq C] (enc : Encodes free inner last n cell bs) (hi : inner ≠ free)
    (hl : last ≠ free) : Nat.count (fun x => cell x ≠ free) n = (bs.map (·.len)).sum := by
  rw [← count_covers enc.apart enc.within, Nat.count_eq_card_filter_range,
    Nat.count_eq_card_filter_range]
  congr 1
  refine Finset.filter_congr fun x hx => ?_
  rw [ne_eq, enc.free_iff hi hl (Finset.mem_range.1 hx), not_not]

/-- Marking free cells as a block adds the block. -/
theorem add (enc : Encodes free inner last n cell bs) (hi : inner ≠ free) (hl : last ≠ free)
    {b : Block} (pos : 0 < b.len) (top : b.start + b.len ≤ n)
    (unused : ∀ x, b.Has x → cell x = free)
    (cell_inner : ∀ x, b.start ≤ x → x + 1 < b.start + b.len → cell' x = inner)
    (cell_last : ∀ x, x + 1 = b.start + b.len → cell' x = last)
    (frame : ∀ x < n, ¬ b.Has x → cell' x = cell x) :
    Encodes free inner last n cell' (b :: bs) := by
  -- no block has a cell of the new one, since those are free
  have new : ∀ c ∈ bs, ∀ x, c.Has x → ¬ b.Has x := by
    intro c hc x hx bx
    have taken := (enc.free_iff hi hl (Nat.lt_of_lt_of_le bx.2 top)).1 (unused x bx)
    exact taken ⟨c, hc, hx⟩
  have old : ∀ c ∈ bs, ∀ x, c.Has x → cell' x = cell x := fun c hc x hx =>
    frame x (Nat.lt_of_lt_of_le hx.2 (enc.within c hc)) (new c hc x hx)
  constructor
  · refine List.pairwise_cons.2 ⟨fun c hc => ?_, enc.apart⟩
    have h1 := new c hc c.start
    have h2 := new c hc b.start
    have posc := enc.nonempty c hc
    unfold Block.Has at h1 h2
    unfold Block.Apart
    omega
  · rintro c (_ | ⟨_, hc⟩)
    · exact pos
    · exact enc.nonempty c hc
  · rintro c (_ | ⟨_, hc⟩)
    · exact top
    · exact enc.within c hc
  · rintro c (_ | ⟨_, hc⟩) x h1 h2
    · exact cell_inner x h1 h2
    · rw [old c hc x ⟨h1, by omega⟩]
      exact enc.inner c hc x h1 h2
  · rintro c (_ | ⟨_, hc⟩) x h
    · exact cell_last x h
    · have posc := enc.nonempty c hc
      rw [old c hc x ⟨by omega, by omega⟩]
      exact enc.last c hc x h
  · intro x hx uncovered
    have out : ¬ b.Has x := fun h => uncovered ⟨b, List.mem_cons_self, h⟩
    rw [frame x hx out]
    exact enc.free x hx fun ⟨c, hc, h⟩ => uncovered ⟨c, List.mem_cons_of_mem b hc, h⟩

/-- Clearing exactly the cells of a block removes the block. -/
theorem remove {b : Block} (enc : Encodes free inner last n cell (b :: bs))
    (cleared : ∀ x, b.Has x → cell' x = free) (frame : ∀ x < n, ¬ b.Has x → cell' x = cell x) :
    Encodes free inner last n cell' bs := by
  obtain ⟨far, apart⟩ := List.pairwise_cons.1 enc.apart
  have mem : ∀ c ∈ bs, c ∈ b :: bs := fun c hc => List.mem_cons_of_mem b hc
  -- a block that stays shares no cell with the removed one
  have same : ∀ c ∈ bs, ∀ x, c.Has x → cell' x = cell x := fun c hc x hx =>
    frame x (Nat.lt_of_lt_of_le hx.2 (enc.within c (mem c hc))) ((far c hc).symm.not_has hx)
  constructor
  · exact apart
  · exact fun c hc => enc.nonempty c (mem c hc)
  · exact fun c hc => enc.within c (mem c hc)
  · intro c hc x h1 h2
    rw [same c hc x ⟨h1, by omega⟩]
    exact enc.inner c (mem c hc) x h1 h2
  · intro c hc x h
    have posc := enc.nonempty c (mem c hc)
    rw [same c hc x ⟨by omega, by omega⟩]
    exact enc.last c (mem c hc) x h
  · intro x hx uncovered
    by_cases bx : b.Has x
    · exact cleared x bx
    · rw [frame x hx bx]
      refine enc.free x hx fun ⟨c, hc, cx⟩ => ?_
      rcases List.mem_cons.1 hc with rfl | hc
      · exact bx cx
      · exact uncovered ⟨c, hc, cx⟩

end Encodes

end Table

end BlockTable
