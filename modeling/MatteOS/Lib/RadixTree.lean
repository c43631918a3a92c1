import Mathlib.Logic.Function.Basic
import Mathlib.Data.List.Basic
import Mathlib.Tactic.Common

/-!
# Radix trees held in tables

A radix tree is looked up along a path of indices. Its nodes are tables, and each
table carries a label (where it lives). `Held E h t` says that a heap `h` of tables
(`h l i` is word `i` of table `l`) holds the tree `t` under the encoding `E` of
children in words.

The laws are those of a finite map built by replacing one slot at a time:
`lookup_set_append` and `lookup_set_of_not_prefix` give the lookups after a
replacement, and `Held.set` says that one word write performs it, provided no
label is shared (`Separated`) and the new part brings only fresh labels.
-/

namespace RadixTree

/-- A radix tree: an absent part, a leaf, or a table of subtrees. -/
inductive Tree (L ι α : Type) where
  | empty
  | leaf (value : α)
  | node (table : L) (child : ι → Tree L ι α)

namespace Tree

variable {L ι W α : Type}

/-- Follow a path. A leaf answers for everything below it. -/
def lookup : Tree L ι α → List ι → Option α
  | .empty, _ => none
  | .leaf a, _ => some a
  | .node _ _, [] => none
  | .node _ c, i :: p => (c i).lookup p

/-- The part of the tree under a path. -/
def subtree : Tree L ι α → List ι → Tree L ι α
  | t, [] => t
  | .node _ c, i :: p => (c i).subtree p
  | _, _ :: _ => .empty

/-- The table and the index whose word decides the part under a path. -/
def slot : Tree L ι α → List ι → Option (L × ι)
  | .node l _, [i] => some (l, i)
  | .node _ c, i :: j :: p => (c i).slot (j :: p)
  | _, _ => none

/-- Replace the part under a path. -/
def set [DecidableEq ι] : Tree L ι α → List ι → Tree L ι α → Tree L ι α
  | _, [], s => s
  | .node l c, i :: p, s => .node l (Function.update c i ((c i).set p s))
  | t, _ :: _, _ => t

/-- The tree has exactly `n` levels of tables above its leaves. -/
def Levels : Nat → Tree L ι α → Prop
  | _, .empty => True
  | 0, .leaf _ => True
  | n + 1, .node _ c => ∀ i, (c i).Levels n
  | _, _ => False

/-- At most `n` levels of tables lie above the leaves, and a leaf with `k` of these levels left
under it satisfies `ok k`. -/
def LeavesAt (ok : Nat → α → Prop) : Nat → Tree L ι α → Prop
  | _, .empty => True
  | n, .leaf a => ok n a
  | 0, .node _ _ => False
  | n + 1, .node _ c => ∀ i, (c i).LeavesAt ok n

/-- `x` labels a table of the tree. -/
def Owns : Tree L ι α → L → Prop
  | .node l c, x => x = l ∨ ∃ i, (c i).Owns x
  | _, _ => False

/-- No two tables of the tree share a label. -/
def Separated : Tree L ι α → Prop
  | .node l c => (∀ i, ¬ (c i).Owns l) ∧
      (∀ i j x, (c i).Owns x → (c j).Owns x → i = j) ∧ ∀ i, (c i).Separated
  | _ => True

@[simp] theorem subtree_nil (t : Tree L ι α) : t.subtree [] = t := by cases t <;> rfl

@[simp] theorem set_nil [DecidableEq ι] (t s : Tree L ι α) : t.set [] s = s := by cases t <;> rfl

@[simp] theorem subtree_empty (p : List ι) : (empty : Tree L ι α).subtree p = .empty := by
  cases p <;> rfl

theorem subtree_append (t : Tree L ι α) (p q : List ι) :
    t.subtree (p ++ q) = (t.subtree p).subtree q := by
  induction p generalizing t with
  | nil => rw [List.nil_append, subtree_nil]
  | cons i p ih =>
    cases t with
    | empty => rw [List.cons_append, subtree_empty, subtree_empty, subtree_empty]
    | leaf a => exact (subtree_empty q).symm
    | node l c => exact ih (c i)

/-! ## Lookups -/

theorem lookup_append_of_slot {t : Tree L ι α} {p : List ι} {s : L × ι} (h : t.slot p = some s)
    (q : List ι) : t.lookup (p ++ q) = (t.subtree p).lookup q := by
  induction p generalizing t with
  | nil => simp [slot] at h
  | cons i p ih =>
    cases t with
    | empty => simp [slot] at h
    | leaf a => simp [slot] at h
    | node l c =>
      cases p with
      | nil => simp [lookup, subtree]
      | cons j p =>
        simp only [slot] at h
        simpa [lookup, subtree] using ih h

/-- A leaf answers for every path through it. -/
theorem lookup_of_subtree_leaf {t : Tree L ι α} {p : List ι} {a : α} (h : t.subtree p = .leaf a)
    (q : List ι) : t.lookup (p ++ q) = some a := by
  induction p generalizing t with
  | nil =>
    rw [subtree_nil] at h
    rw [h, lookup]
  | cons i p ih =>
    cases t with
    | empty => cases h
    | leaf b => cases h
    | node l c => exact ih h

section Set

variable [DecidableEq ι]

/-- The lookups below a replaced slot are those of the new part. -/
theorem lookup_set_append {t s : Tree L ι α} {p : List ι} {w : L × ι} (h : t.slot p = some w)
    (q : List ι) : (t.set p s).lookup (p ++ q) = s.lookup q := by
  induction p generalizing t with
  | nil => simp [slot] at h
  | cons i p ih =>
    cases t with
    | empty => simp [slot] at h
    | leaf a => simp [slot] at h
    | node l c =>
      cases p with
      | nil => simp [set, lookup]
      | cons j p =>
        simp only [slot] at h
        simpa [set, lookup] using ih h

/-- A replacement is invisible to every path that does not run through it. -/
theorem lookup_set_of_not_prefix (t s : Tree L ι α) {p q : List ι} (h : ¬ p <+: q) :
    (t.set p s).lookup q = t.lookup q := by
  induction p generalizing t q with
  | nil => exact absurd List.nil_prefix h
  | cons i p ih =>
    cases t with
    | empty => rfl
    | leaf a => rfl
    | node l c =>
      cases q with
      | nil => rfl
      | cons k q =>
        simp only [set, lookup]
        by_cases hk : k = i
        · subst hk
          rw [Function.update_self]
          exact ih _ fun hp => h ((List.prefix_cons_inj k).2 hp)
        · rw [Function.update_of_ne hk]

/-- Filling an absent part with an empty table changes no lookup. -/
theorem lookup_set_empty_node {t : Tree L ι α} {p : List ι} {w : L × ι} (h : t.slot p = some w)
    (hp : t.subtree p = .empty) (l : L) (q : List ι) :
    (t.set p (.node l fun _ => .empty)).lookup q = t.lookup q := by
  by_cases hq : p <+: q
  · obtain ⟨r, rfl⟩ := hq
    rw [lookup_set_append h, lookup_append_of_slot h, hp]
    cases r <;> rfl
  · exact lookup_set_of_not_prefix t _ hq

theorem subtree_set {t : Tree L ι α} {p : List ι} {w : L × ι} (h : t.slot p = some w)
    (s : Tree L ι α) : (t.set p s).subtree p = s := by
  induction p generalizing t with
  | nil => simp [slot] at h
  | cons i p ih =>
    cases t with
    | empty => simp [slot] at h
    | leaf a => simp [slot] at h
    | node l c =>
      cases p with
      | nil => simp [set, subtree]
      | cons j p =>
        simp only [slot] at h
        simpa [set, subtree] using ih h

/-- The slot of a path is not moved by a replacement at or below that path. -/
theorem slot_set {t : Tree L ι α} {p : List ι} (q : List ι) {w : L × ι} (h : t.slot p = some w)
    (s : Tree L ι α) : (t.set (p ++ q) s).slot p = some w := by
  induction p generalizing t with
  | nil => simp [slot] at h
  | cons i p ih =>
    cases t with
    | empty => simp [slot] at h
    | leaf a => simp [slot] at h
    | node l c =>
      cases p with
      | nil => simpa [set, slot] using h
      | cons j p =>
        simp only [slot] at h
        simpa [set, slot] using ih h

end Set

/-- One step further: the slot of an index of the table found under a path. -/
theorem slot_append {t : Tree L ι α} {p : List ι} {w : L × ι} (h : t.slot p = some w) {l : L}
    {c : ι → Tree L ι α} (hp : t.subtree p = .node l c) (i : ι) :
    t.slot (p ++ [i]) = some (l, i) := by
  induction p generalizing t with
  | nil => simp [slot] at h
  | cons k p ih =>
    cases t with
    | empty => simp [slot] at h
    | leaf a => simp [slot] at h
    | node l' c' =>
      cases p with
      | nil =>
        simp only [subtree] at hp
        simp [slot, hp]
      | cons j p =>
        simp only [slot] at h
        simp only [subtree] at hp
        simpa [slot] using ih h hp

/-! ## Labels -/

theorem owns_of_slot {t : Tree L ι α} {p : List ι} {l : L} {i : ι} (h : t.slot p = some (l, i)) :
    t.Owns l := by
  induction p generalizing t with
  | nil => simp [slot] at h
  | cons k p ih =>
    cases t with
    | empty => simp [slot] at h
    | leaf a => simp [slot] at h
    | node l' c =>
      cases p with
      | nil =>
        simp only [slot, Option.some.injEq, Prod.mk.injEq] at h
        exact Or.inl h.1.symm
      | cons j p =>
        simp only [slot] at h
        exact Or.inr ⟨k, ih h⟩

section Set

variable [DecidableEq ι]

theorem owns_of_set {t s : Tree L ι α} {p : List ι} {x : L} (h : (t.set p s).Owns x) :
    t.Owns x ∨ s.Owns x := by
  induction p generalizing t with
  | nil => exact Or.inr (by simpa using h)
  | cons i p ih =>
    cases t with
    | empty => exact Or.inl h
    | leaf a => exact Or.inl h
    | node l c =>
      rcases h with rfl | ⟨k, hk⟩
      · exact Or.inl (Or.inl rfl)
      · by_cases e : k = i
        · subst e
          rw [Function.update_self] at hk
          exact (ih hk).imp (fun h => Or.inr ⟨k, h⟩) id
        · rw [Function.update_of_ne e] at hk
          exact Or.inl (Or.inr ⟨k, hk⟩)

/-- Fresh labels keep the labels of a tree separated. -/
theorem Separated.set {t s : Tree L ι α} {p : List ι} (ht : t.Separated) (hs : s.Separated)
    (fresh : ∀ x, s.Owns x → ¬ t.Owns x) : (t.set p s).Separated := by
  induction p generalizing t with
  | nil => simpa using hs
  | cons i p ih =>
    cases t with
    | empty => trivial
    | leaf a => trivial
    | node l c =>
      obtain ⟨h1, h2, h3⟩ := ht
      -- the labels of a child of the new node are old labels of that child or labels of `s`
      have owned : ∀ k x, (Function.update c i ((c i).set p s) k).Owns x →
          (c k).Owns x ∨ (k = i ∧ s.Owns x) := by
        intro k x hx
        by_cases e : k = i
        · subst e
          rw [Function.update_self] at hx
          exact (owns_of_set hx).imp id fun h => ⟨rfl, h⟩
        · rw [Function.update_of_ne e] at hx
          exact Or.inl hx
      refine ⟨fun k hk => ?_, fun j k x hj hk => ?_, fun k => ?_⟩
      · rcases owned k l hk with h | ⟨-, h⟩
        · exact h1 k h
        · exact fresh l h (Or.inl rfl)
      · rcases owned j x hj with oj | ⟨ej, oj⟩ <;> rcases owned k x hk with ok | ⟨ek, ok⟩
        · exact h2 j k x oj ok
        · exact absurd (Or.inr ⟨j, oj⟩) (fresh x ok)
        · exact absurd (Or.inr ⟨k, ok⟩) (fresh x oj)
        · rw [ej, ek]
      · by_cases e : k = i
        · subst e
          rw [Function.update_self]
          exact ih (h3 k) fun x hx hc => fresh x hx (Or.inr ⟨k, hc⟩)
        · rw [Function.update_of_ne e]
          exact h3 k

end Set

/-! ## Levels -/

theorem LeavesAt.set [DecidableEq ι] {ok : Nat → α → Prop} {t s : Tree L ι α} {n : Nat} {p : List ι}
    (h : t.LeavesAt ok (n + p.length)) (hs : s.LeavesAt ok n) :
    (t.set p s).LeavesAt ok (n + p.length) := by
  induction p generalizing t with
  | nil => simpa using hs
  | cons i p ih =>
    cases t with
    | empty => trivial
    | leaf a => exact h
    | node l c =>
      intro k
      by_cases e : k = i
      · subst e
        rw [Function.update_self]
        exact ih (h k)
      · rw [Function.update_of_ne e]
        exact h k

/-- All leaves at the bottom is the case without large leaves. -/
theorem levels_iff_leavesAt {t : Tree L ι α} {n : Nat} :
    t.Levels n ↔ t.LeavesAt (fun k _ => k = 0) n := by
  induction t generalizing n with
  | empty => cases n <;> exact Iff.rfl
  | leaf a => cases n <;> simp [Levels, LeavesAt]
  | node l c ih =>
    cases n with
    | zero => exact Iff.rfl
    | succ n => exact forall_congr' fun i => ih i

theorem Levels.subtree {t : Tree L ι α} {n : Nat} {p : List ι} (h : t.Levels (n + p.length)) :
    (t.subtree p).Levels n := by
  induction p generalizing t with
  | nil => simpa using h
  | cons i p ih =>
    cases t with
    | empty => cases n <;> trivial
    | leaf a => simp [Levels] at h
    | node l c => exact ih (h i)

end Tree

/-! ## Trees in a heap of tables -/

/-- How the word of a slot tells an absent part, a leaf and a further table apart. -/
structure Encoding (L α W : Type) where
  blank : W → Prop
  leaf : α → W → Prop
  pointer : L → W → Prop

variable {L ι W α : Type}

/-- The word `w` announces the root of `t`. -/
def Encoding.Word (E : Encoding L α W) : Tree L ι α → W → Prop
  | .empty, w => E.blank w
  | .leaf a, w => E.leaf a w
  | .node l _, w => E.pointer l w

/-- The heap `h` holds the tables of `t`. -/
def Held (E : Encoding L α W) (h : L → ι → W) : Tree L ι α → Prop
  | .node l c => ∀ i, E.Word (c i) (h l i) ∧ Held E h (c i)
  | _ => True

namespace Held

variable {E : Encoding L α W} {h h' : L → ι → W} {t s : Tree L ι α} {p : List ι}

/-- Only the tables of the tree matter. -/
theorem congr (held : Held E h t) (frame : ∀ l i, t.Owns l → h' l i = h l i) : Held E h' t := by
  induction t with
  | empty => trivial
  | leaf a => trivial
  | node l c ih =>
    intro i
    rw [frame l i (Or.inl rfl)]
    exact ⟨(held i).1, ih i (held i).2 fun l' j hl => frame l' j (Or.inr ⟨i, hl⟩)⟩

/-- The word of a slot announces the part under its path. -/
theorem word_of_slot (held : Held E h t) {l : L} {i : ι} (hp : t.slot p = some (l, i)) :
    E.Word (t.subtree p) (h l i) := by
  induction p generalizing t with
  | nil => simp [Tree.slot] at hp
  | cons k p ih =>
    cases t with
    | empty => simp [Tree.slot] at hp
    | leaf a => simp [Tree.slot] at hp
    | node l' c =>
      cases p with
      | nil =>
        simp only [Tree.slot, Option.some.injEq, Prod.mk.injEq] at hp
        obtain ⟨rfl, rfl⟩ := hp
        simpa [Tree.subtree] using (held k).1
      | cons j p =>
        simp only [Tree.slot] at hp
        exact ih (held k).2 hp

/-- **One word write replaces one part.** If `h'` differs from `h` on the tables of `t` only
at the slot of `p`, holds the new part there and announces it in that slot, it holds the tree
with that part replaced. -/
theorem set [DecidableEq ι] (held : Held E h t) (sep : t.Separated) {l : L} {i : ι}
    (hp : t.slot p = some (l, i)) (word : E.Word s (h' l i)) (part : Held E h' s)
    (frame : ∀ l' j, t.Owns l' → (l', j) ≠ (l, i) → h' l' j = h l' j) : Held E h' (t.set p s) := by
  induction p generalizing t with
  | nil => simp [Tree.slot] at hp
  | cons k p ih =>
    cases t with
    | empty => simp [Tree.slot] at hp
    | leaf a => simp [Tree.slot] at hp
    | node l₀ c =>
      obtain ⟨sep₁, sep₂, sep₃⟩ := sep
      cases p with
      | nil =>
        simp only [Tree.slot, Option.some.injEq, Prod.mk.injEq] at hp
        obtain ⟨rfl, rfl⟩ := hp
        intro j
        by_cases e : j = k
        · subst e
          rw [Function.update_self, Tree.set_nil]
          exact ⟨word, part⟩
        · rw [Function.update_of_ne e, frame l₀ j (Or.inl rfl) (by simp [e])]
          refine ⟨(held j).1, (held j).2.congr fun l' i hl => frame l' i (Or.inr ⟨j, hl⟩) ?_⟩
          rintro ⟨rfl, -⟩
          exact sep₁ j hl
      | cons m p =>
        simp only [Tree.slot] at hp
        have own : (c k).Owns l := Tree.owns_of_slot hp
        have root : l₀ ≠ l := fun e => sep₁ k (e ▸ own)
        intro j
        rw [frame l₀ j (Or.inl rfl) (by simp [root])]
        by_cases e : j = k
        · subst e
          rw [Function.update_self]
          refine ⟨?_, ih (held j).2 (sep₃ j) hp fun l' i hl => frame l' i (Or.inr ⟨j, hl⟩)⟩
          -- the child keeps its own table, so its announcing word stays
          have w := (held j).1
          cases hc : c j with
          | empty => rw [hc] at hp; simp [Tree.slot] at hp
          | leaf a => rw [hc] at hp; simp [Tree.slot] at hp
          | node l' c' => rw [hc] at w; exact w
        · rw [Function.update_of_ne e]
          refine ⟨(held j).1, (held j).2.congr fun l' i hl => frame l' i (Or.inr ⟨j, hl⟩) ?_⟩
          rintro ⟨rfl, -⟩
          exact e (sep₂ j k _ hl own)

end Held

end RadixTree
