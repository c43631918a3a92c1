import Mathlib.Data.List.GetD
import MatteOS.Memory.HeapMapping
import MatteOS.Memory.Verify.KernelMemory
import MatteOS.Memory.Verify.Permissions

/-!
# The calls of `map` on the page heap

A table made of pages of the heap is one that comes from a page source: its pages are live blocks,
so no other table or caller has them. One iteration of the loop of `map` does what it does with
the source, and takes at most one page (`HeapTables.mapStep`); so the calls keep the finite map of
the table (`HeapTables.runCall`) and change nothing but descriptors and bytes of the table's own
pages (`Grown`).
-/

namespace MatteOS.Memory

open ByteMemory RadixTree ObjectStore

/-- The bytes of the descriptors. -/
def MemoryManager.descriptors (mm : MemoryManager) (x : Nat) : Prop :=
  mm.firstPage ≤ x ∧ x < mm.firstPage + mm.numberOfPages

/-! ## Pages of the heap -/

/-- Addressable pages, none of them twice. -/
structure DistinctPages (pages : List Nat) : Prop where
  nodup : pages.Nodup
  aligned : ∀ x ∈ pages, 4096 ∣ x
  ne_null : ∀ x ∈ pages, x ≠ 0
  addressable : ∀ x ∈ pages, x < 2 ^ 56

/-- The page source that has handed out `tables`. -/
def tableSource {root : Nat} {tables : List Nat} (ok : DistinctPages (root :: tables)) :
    PageSource root where
  page n := tables.getD n 0
  limit := tables.length
  root_aligned := ok.aligned root List.mem_cons_self
  aligned := by
    intro n small
    rw [List.getD_eq_getElem _ _ small]
    exact ok.aligned _ (List.mem_cons_of_mem _ (List.getElem_mem small))
  ne_null := by
    intro n small
    rw [List.getD_eq_getElem _ _ small]
    exact ok.ne_null _ (List.mem_cons_of_mem _ (List.getElem_mem small))
  addressable := by
    intro n small
    rw [List.getD_eq_getElem _ _ small]
    exact ok.addressable _ (List.mem_cons_of_mem _ (List.getElem_mem small))
  injective := by
    intro m smallM n smallN same
    rw [List.getD_eq_getElem _ _ smallM, List.getD_eq_getElem _ _ smallN] at same
    exact (List.nodup_cons.1 ok.nodup).2.getElem_inj_iff.1 same
  ne_root := by
    intro n small same
    rw [List.getD_eq_getElem _ _ small] at same
    exact (List.nodup_cons.1 ok.nodup).1 (same ▸ List.getElem_mem small)

section Source

variable {root : Nat} {tables more : List Nat} {m : Memory}

theorem tableSource_page (ok : DistinctPages (root :: tables)) {n : Nat} (small : n < tables.length) :
    (tableSource ok).page n = tables[n] := List.getD_eq_getElem _ _ small

theorem tableMemory_iff (ok : DistinctPages (root :: tables)) (x : Nat) :
    tableMemory (tableSource ok) tables.length x ↔
      ∃ table ∈ root :: tables, bytesAt table PAGE_SIZE x := by
  constructor
  · intro inside
    rcases inside with inside | ⟨k, small, inside⟩
    · exact ⟨root, List.mem_cons_self, inside⟩
    · rw [tableSource_page ok small] at inside
      exact ⟨_, List.mem_cons_of_mem _ (List.getElem_mem small), inside⟩
  · intro inside
    obtain ⟨table, mem, inside⟩ := inside
    rcases List.mem_cons.1 mem with rfl | mem
    · exact .inl inside
    · obtain ⟨k, small, rfl⟩ := List.getElem_of_mem mem
      exact .inr ⟨k, small, by rwa [tableSource_page ok small]⟩

/-- A source that has handed out more pages may stand in. -/
theorem Represents.extend {ok : DistinctPages (root :: tables)} {t : PageTree}
    (rep : Represents (tableSource ok) ⟨m, tables.length⟩ t)
    (ok' : DistinctPages (root :: (tables ++ more))) :
    Represents (tableSource ok') ⟨m, tables.length⟩ t where
  rooted := rep.rooted
  levels := rep.levels
  separated := rep.separated
  held := rep.held
  source := by
    intro x own
    rcases rep.source x own with same | ⟨k, small, same⟩
    · exact .inl same
    · refine .inr ⟨k, small, ?_⟩
      have within : k < (tables ++ more).length := by
        rw [List.length_append]
        exact Nat.lt_add_right _ small
      rw [same, tableSource_page ok small, tableSource_page ok' within,
        List.getElem_append_left small]
  within := by
    change tables.length ≤ (tables ++ more).length
    rw [List.length_append]
    exact Nat.le_add_right ..

/-- The pages of `tables` hold the tree `t` under `root`. -/
def HoldsPageTree (root : Nat) (tables : List Nat) (m : Memory) (t : PageTree) : Prop :=
  ∃ ok : DistinctPages (root :: tables), Represents (tableSource ok) ⟨m, tables.length⟩ t

/-- The pages of `tables` hold the map `g` under `root`. -/
def HoldsPageMap (root : Nat) (tables : List Nat) (m : Memory) (g : Nat → Option PageTableEntry) :
    Prop :=
  ∃ ok : DistinctPages (root :: tables), Implements (tableSource ok) ⟨m, tables.length⟩ g

theorem HoldsPageMap.congr {g : Nat → Option PageTableEntry} (holds : HoldsPageMap root tables m g)
    {m' : Memory}
    (same : AgreeOn (fun x => ∃ table ∈ root :: tables, bytesAt table PAGE_SIZE x) m m') :
    HoldsPageMap root tables m' g := by
  obtain ⟨ok, impl⟩ := holds
  exact ⟨ok, impl.congr fun x inside => same x ((tableMemory_iff ok x).1 inside)⟩

end Source

/-! ## `zalloc` -/

section Zalloc

variable {mm : MemoryManager} {h h' : PageHeap}

/-- A live block is made of pages behind the descriptors. -/
theorem PageHeap.Inv.block_inside (inv : h.Inv mm) (layout : mm.Layout) {b : Nat × Nat}
    (mem : b ∈ h.live) : 4096 ∣ b.1 ∧ mm.allocStart + 4096 ≤ b.1 ∧
      b.1 + 4096 * b.2 ≤ mm.allocStart + 4096 * mm.numberOfPages := by
  have placed := inv.placed b mem
  have top := inv.start_add_le mem
  have behind := inv.allocStart_lt mem
  have aligned := layout.aligned
  unfold PAGE_SIZE at *
  omega

/-- No byte of a live block is in a descriptor. -/
theorem PageHeap.Inv.not_descriptors (inv : h.Inv mm) (layout : mm.Layout) {b : Nat × Nat}
    (mem : b ∈ h.live) {x : Nat} (inside : bytesAt b.1 (PAGE_SIZE * b.2) x) :
    ¬ mm.descriptors x := by
  have behind := inv.allocStart_lt mem
  have before := layout.descriptors
  have first := layout.first
  unfold MemoryManager.descriptors
  unfold bytesAt at inside
  omega

/-- What `zalloc` returns is a new block, cleared, and no other byte changes but descriptors. -/
theorem PageHeap.Inv.zalloc (inv : h.Inv mm) (layout : mm.Layout) {pages ptr : Nat} (pos : 1 ≤ pages)
    (run : h.zalloc mm.allocStart pages = some (ptr, h')) :
    h'.Inv mm ∧ h'.live = (ptr, pages) :: h.live ∧
      AgreeOn (fun x => ¬ mm.descriptors x) (clear h.memory ptr (PAGE_SIZE * pages)) h'.memory := by
  unfold PageHeap.zalloc at run
  split at run
  case isFalse => cases run
  rename_i room
  dsimp only at run
  rw [Option.some.injEq, Prod.mk.injEq] at run
  obtain ⟨rfl, rfl⟩ := run
  obtain ⟨ptrEq, memoryEq, inv'⟩ := inv.zreturned layout pos room
  have ne := (inv.returned layout pos room).1
  obtain ⟨k, m, run, -, fits, -, -, -, frame⟩ := inv.alloc_spec layout pos room
  refine ⟨inv', ?_, ?_⟩
  · simp only [PageHeap.returned]
    rw [if_neg (by rw [ptrEq]; exact ne)]
  · intro x outside
    simp only [PageHeap.returned, memoryEq, ptrEq]
    unfold clear
    split
    · rfl
    · rw [run]
      refine frame x ?_
      unfold MemoryManager.descriptors at outside
      omega

end Zalloc

/-! ## Taking blocks -/

section Took

variable {mm : MemoryManager} {h h' : PageHeap}

/-- The blocks `h'` has more, with the bytes that stayed beside them. -/
structure Took (mm : MemoryManager) (blocks : List (Nat × Nat)) (h h' : PageHeap) : Prop where
  live : h'.live = blocks ++ h.live
  same : AgreeOn (fun x => ¬ mm.descriptors x ∧ ∀ b ∈ blocks, ¬ bytesAt b.1 (PAGE_SIZE * b.2) x)
    h.memory h'.memory

/-- Memory of an older block is not touched by taking more. -/
theorem Took.older {blocks : List (Nat × Nat)} (took : Took mm blocks h h') (inv : h'.Inv mm)
    (layout : mm.Layout) {b : Nat × Nat} (mem : b ∈ h.live) :
    AgreeOn (bytesAt b.1 (PAGE_SIZE * b.2)) h.memory h'.memory := by
  intro x inside
  have older : b ∈ h'.live := by
    rw [took.live]
    exact List.mem_append_right _ mem
  refine took.same x ⟨inv.not_descriptors layout older inside, fun c new inside' => ?_⟩
  have apart := inv.blocks_pairwise
  rw [took.live, List.pairwise_append] at apart
  have apart := apart.2.2 c new b mem
  unfold RegionsApart at apart
  unfold bytesAt at inside inside'
  simp only at apart
  omega

theorem Took.of_zalloc (inv : h.Inv mm) (layout : mm.Layout) {pages ptr : Nat} (pos : 1 ≤ pages)
    (run : h.zalloc mm.allocStart pages = some (ptr, h')) : Took mm [(ptr, pages)] h h' := by
  obtain ⟨-, live, same⟩ := inv.zalloc layout pos run
  refine ⟨live, fun x outside => ?_⟩
  have beside := outside.2 _ (List.mem_singleton_self (ptr, pages))
  unfold bytesAt at beside
  rw [same x outside.1, clear_apply_outside _ (by simp only at beside ⊢; omega)]

theorem Took.of_alloc (inv : h.Inv mm) (layout : mm.Layout) {pages : Nat} (pos : 1 ≤ pages)
    (room : HasRoom h mm.allocStart pages) :
    Took mm [((MemoryManager.alloc h.memory mm.allocStart pages).1, pages)] h
      (h.returned pages (MemoryManager.alloc h.memory mm.allocStart pages)) := by
  have ne := (inv.returned layout pos room).1
  obtain ⟨k, m, run, -, fits, -, -, -, frame⟩ := inv.alloc_spec layout pos room
  refine ⟨by simp only [PageHeap.returned, if_neg ne]; rfl, fun x outside => ?_⟩
  have noCell := outside.1
  unfold MemoryManager.descriptors at noCell
  simp only [PageHeap.returned, run]
  exact frame x (by omega)

end Took

/-! ## Tables of the heap -/

/-- The pages of the table at `root` are live blocks of their own. -/
structure HeapTables (mm : MemoryManager) (h : PageHeap) (root : Nat) (tables : List Nat) : Prop where
  inv : h.Inv mm
  live : ∀ x ∈ root :: tables, (x, 1) ∈ h.live
  nodup : (root :: tables).Nodup

/-- `new` pages were taken for the table, and bytes beside the table and the descriptors stay. -/
structure Grown (mm : MemoryManager) (root : Nat) (tables new : List Nat) (h h' : PageHeap) :
    Prop where
  live : h'.live = new.reverse.map (·, 1) ++ h.live
  same : AgreeOn (fun x => ¬ mm.descriptors x ∧
    ∀ table ∈ root :: (tables ++ new), ¬ bytesAt table PAGE_SIZE x) h.memory h'.memory

namespace Grown

variable {mm : MemoryManager} {root : Nat} {tables new new' : List Nat} {h h' h'' : PageHeap}

theorem refl (mm : MemoryManager) (root : Nat) (tables : List Nat) (h : PageHeap) :
    Grown mm root tables [] h h where
  live := rfl
  same := .refl _ _

theorem trans (first : Grown mm root tables new h h')
    (second : Grown mm root (tables ++ new) new' h' h'') :
    Grown mm root tables (new ++ new') h h'' where
  live := by
    rw [second.live, first.live, List.reverse_append, List.map_append, List.append_assoc]
  same := by
    refine (first.same.mono ?_).trans (second.same.mono ?_)
    · intro x outside
      refine ⟨outside.1, fun table mem => outside.2 table ?_⟩
      rw [← List.append_assoc, ← List.cons_append]
      exact List.mem_append_left _ mem
    · intro x outside
      rwa [List.append_assoc]

end Grown

section Steps

variable {mm : MemoryManager} {h h' : PageHeap} {root : Nat} {tables : List Nat} {t : PageTree}
  {g : Nat → Option PageTableEntry}

theorem HeapTables.distinct (on : HeapTables mm h root tables) (layout : mm.Layout)
    (low : mm.allocStart + 4096 * mm.numberOfPages ≤ 2 ^ 56) : DistinctPages (root :: tables) where
  nodup := on.nodup
  aligned x mem := (on.inv.block_inside layout (on.live x mem)).1
  ne_null x mem := by
    have inside := on.inv.block_inside layout (on.live x mem)
    simp only at inside
    omega
  addressable x mem := by
    have inside := on.inv.block_inside layout (on.live x mem)
    simp only at inside
    omega

/-- A page that `zalloc` has cleared is a root table without entries. -/
theorem HeapTables.start (inv : h.Inv mm) (layout : mm.Layout)
    (low : mm.allocStart + 4096 * mm.numberOfPages ≤ 2 ^ 56)
    (run : h.zalloc mm.allocStart 1 = some (root, h')) :
    HeapTables mm h' root [] ∧ HoldsPageMap root [] h'.memory fun _ => none := by
  obtain ⟨inv', live, same⟩ := inv.zalloc layout (Nat.le_refl 1) run
  have mem : (root, 1) ∈ h'.live := by
    rw [live]
    exact List.mem_cons_self
  have on : HeapTables mm h' root [] := by
    refine ⟨inv', fun x table => ?_, List.nodup_singleton root⟩
    rw [List.mem_singleton] at table
    exact table ▸ mem
  refine ⟨on, on.distinct layout low, implements_init _ fun x low high => ?_⟩
  rw [same x (inv'.not_descriptors layout mem ⟨low, high⟩)]
  exact clear_apply_inside _ low high

/-- A store to the tables keeps the heap. -/
theorem HeapTables.store (on : HeapTables mm h root tables) (layout : mm.Layout) {l : Nat}
    (mem : l ∈ root :: tables) (i : BitVec 9) (e : PageTableEntry) :
    HeapTables mm { h with memory := storeEntry h.memory (entryAddress l i) e } root tables where
  inv := by
    refine on.inv.write layout (on.live l mem) fun a outside => store64_apply_of_outside _ _ ?_
    have small := i.isLt
    unfold PAGE_SIZE at outside
    unfold entryAddress
    simp only at outside
    omega
  live := on.live
  nodup := on.nodup

/-- The bytes of an entry lie in its table. -/
theorem bytesAt_of_entry {l x : Nat} {i : BitVec 9} (low : entryAddress l i ≤ x)
    (high : x < entryAddress l i + 8) : bytesAt l PAGE_SIZE x := by
  have small := i.isLt
  unfold entryAddress at low high
  unfold bytesAt PAGE_SIZE
  omega

theorem Grown.store {l : Nat} (mem : l ∈ root :: tables) (i : BitVec 9) (e : PageTableEntry) :
    Grown mm root tables [] h
      { h with memory := storeEntry h.memory (entryAddress l i) e } where
  live := rfl
  same := by
    intro x outside
    refine store64_apply_of_outside _ _ ?_
    by_contra inside
    refine outside.2 l ?_ (@bytesAt_of_entry l x i (by omega) (by omega))
    rwa [List.append_nil]

/-- An entry of a table reads the same in memories that differ in descriptors only. -/
theorem HeapTables.loadEntry_congr (on : HeapTables mm h root tables) (layout : mm.Layout) {l : Nat}
    (mem : l ∈ root :: tables) (i : BitVec 9) {m m' : Memory}
    (same : AgreeOn (fun x => ¬ mm.descriptors x) m m') :
    loadEntry m' (entryAddress l i) = loadEntry m (entryAddress l i) := by
  unfold loadEntry
  rw [load64_congr fun x low high => same x ?_]
  refine on.inv.not_descriptors layout (on.live l mem) ?_
  rw [Nat.mul_one]
  exact bytesAt_of_entry low high

/-- The table of a slot is one of the pages. -/
theorem owner_mem {ok : DistinctPages (root :: tables)} {m : Memory}
    (rep : Represents (tableSource ok) ⟨m, tables.length⟩ t) {l : Nat} (own : t.Owns l) :
    l ∈ root :: tables := by
  rcases rep.source l own with rfl | ⟨k, small, rfl⟩
  · exact List.mem_cons_self
  · rw [tableSource_page ok small]
    exact List.mem_cons_of_mem _ (List.getElem_mem small)

theorem heapMapStep_of_valid {self a : Nat} {v : VirtualAddress} {k : Nat}
    (valid : (loadEntry h.memory a).isValid) : PageHeap.mapStep self v (a, h) k =
      some (entryAddress (loadEntry h.memory a).getPpn.toNat (stepIndex v k), h) := by
  rw [PageHeap.mapStep, (PageHeap.pageSupply self).mapStep_of_valid valid]
  rfl

theorem heapMapStep_of_invalid {self a : Nat} {v : VirtualAddress} {k : Nat}
    (invalid : (loadEntry h.memory a).isValid = false) : PageHeap.mapStep self v (a, h) k =
      (h.zalloc self 1).map fun taken =>
        let e := hang (loadEntry taken.2.memory a) taken.1
        (entryAddress e.getPpn.toNat (stepIndex v k),
          { taken.2 with memory := storeEntry taken.2.memory a e }) := by
  rw [PageHeap.mapStep, (PageHeap.pageSupply self).mapStep_of_invalid invalid]
  simp only [PageHeap.pageSupply, loadEntry_storeEntry]
  cases h.zalloc self 1 <;> rfl

/-- A page taken from the heap is one more table. -/
theorem HeapTables.take (on : HeapTables mm h root tables) (layout : mm.Layout) {page : Nat}
    (took : h.zalloc mm.allocStart 1 = some (page, h')) :
    HeapTables mm h' root (tables ++ [page]) ∧
      AgreeOn (fun x => ¬ mm.descriptors x) (clear h.memory page PAGE_SIZE) h'.memory ∧
      Grown mm root tables [page] h h' := by
  obtain ⟨inv, live, same⟩ := on.inv.zalloc layout (Nat.le_refl 1) took
  rw [Nat.mul_one] at same
  have fresh : page ∉ root :: tables := by
    intro old
    have ptrs := inv.ptrs_nodup
    rw [live, List.map_cons, List.nodup_cons] at ptrs
    exact ptrs.1 (List.mem_map_of_mem (on.live page old))
  refine ⟨⟨inv, fun x old => ?_, ?_⟩, same, live, fun x outside => ?_⟩
  · rw [live]
    rw [← List.cons_append, List.mem_append, List.mem_singleton] at old
    rcases old with old | rfl
    · exact List.mem_cons_of_mem _ (on.live x old)
    · exact List.mem_cons_self
  · rw [← List.cons_append]
    refine List.nodup_append.2 ⟨on.nodup, List.nodup_singleton page, fun x old y new same => ?_⟩
    rw [List.mem_singleton] at new
    exact fresh (new ▸ same ▸ old)
  · have beside := outside.2 page (by simp)
    unfold bytesAt at beside
    rw [same x outside.1, clear_apply_outside _ (by omega)]

/-- **One iteration of the loop of `map`** ends at a slot one level deeper, and no lookup changes:
either the table was there, or a page of the heap is hung in. -/
theorem HeapTables.mapStep (on : HeapTables mm h root tables) (layout : mm.Layout)
    (low : mm.allocStart + 4096 * mm.numberOfPages ≤ 2 ^ 56)
    (holds : HoldsPageTree root tables h.memory t) {p : List (BitVec 9)} {l : Nat} {i : BitVec 9}
    (hp : t.slot p = some (l, i)) (short : p.length < 3) {v : VirtualAddress} {k a : Nat}
    (run : PageHeap.mapStep mm.allocStart v (entryAddress l i, h) k = some (a, h')) :
    ∃ new t' l', a = entryAddress l' (stepIndex v k) ∧ HeapTables mm h' root (tables ++ new) ∧
      HoldsPageTree root (tables ++ new) h'.memory t' ∧
      t'.slot (p ++ [stepIndex v k]) = some (l', stepIndex v k) ∧
      (∀ q, t'.lookup q = t.lookup q) ∧ Grown mm root tables new h h' := by
  obtain ⟨ok, rep⟩ := holds
  have mem := owner_mem rep (Tree.owns_of_slot hp)
  cases valid : (loadEntry h.memory (entryAddress l i)).isValid with
  | true =>
    rw [heapMapStep_of_valid valid, Option.some.injEq, Prod.mk.injEq] at run
    obtain ⟨rfl, rfl⟩ := run
    have abstract := @mapStep_of_valid (tableSource ok).page v (entryAddress l i)
      ⟨h.memory, tables.length⟩ k _ valid rfl
    obtain ⟨t', l', s', step, rep', slot, same⟩ := rep.mapStep hp short v k
      (by rw [abstract]; exact Nat.le_refl _)
    rw [abstract, Prod.mk.injEq] at step
    obtain ⟨place, rfl⟩ := step
    refine ⟨[], t', l', place, ?_⟩
    rw [List.append_nil]
    exact ⟨on, ⟨ok, rep'⟩, slot, same, .refl ..⟩
  | false =>
    rw [heapMapStep_of_invalid valid, Option.map_eq_some_iff] at run
    obtain ⟨⟨page, h₁⟩, took, run⟩ := run
    rw [Prod.mk.injEq] at run
    obtain ⟨rfl, rfl⟩ := run
    obtain ⟨on₁, same₁, taken₁⟩ := on.take layout took
    have ok₁ := on₁.distinct layout low
    have mem₁ : l ∈ root :: (tables ++ [page]) := List.mem_append_left [page] mem
    have next : (tableSource ok₁).page tables.length = page := by
      rw [tableSource_page ok₁ (by simp)]
      simp
    have ne_null : page ≠ 0 := ok₁.ne_null page (by simp)
    have entry := on₁.loadEntry_congr layout mem₁ i same₁
    -- the same round with the page source
    have abstract := @mapStep_of_invalid (tableSource ok₁).page ⟨h.memory, tables.length⟩
      (entryAddress l i) v k valid (by rw [next]; exact ne_null)
    obtain ⟨t', l', s', step, rep', slot, same⟩ := (rep.extend ok₁).mapStep hp short v k (by
      rw [abstract]
      change tables.length + 1 ≤ (tables ++ [page]).length
      rw [List.length_append, List.length_singleton])
    rw [abstract, Prod.mk.injEq] at step
    obtain ⟨place, rfl⟩ := step
    simp only [next] at place rep'
    refine ⟨[page], t', l', ?_, on₁.store layout mem₁ i _, ⟨ok₁, ?_⟩, slot, same, ?_⟩
    · simp only [entry]
      exact place
    · rw [entry, List.length_append, List.length_singleton]
      refine rep'.congr (AgreeOn.store64_both (same₁.mono fun x inside => ?_) _ _)
      change tableMemory (tableSource ok₁) (tables.length + 1) x at inside
      rw [← List.length_singleton (a := page), ← List.length_append, tableMemory_iff] at inside
      obtain ⟨table, mem, inside⟩ := inside
      refine on₁.inv.not_descriptors layout (on₁.live table mem) ?_
      rwa [Nat.mul_one]
    · exact taken₁.trans (.store mem₁ i _)

/-- Where all tables are there, the loop of `map` only walks to the slot. -/
theorem Represents.walk {src : PageSource root} {s : Vm} (rep : Represents src s t)
    {v : VirtualAddress} {l : Nat} {i : BitVec 9} (slot : t.slot v.path = some (l, i)) :
    ([1, 0].filter (0 ≤ ·)).foldl (Memory.mapStep src.page v) (entryAddress root v.vpn2, s) =
      (entryAddress l i, s) := by
  obtain ⟨c, rfl⟩ := rep.rooted
  have h2 := rep.held v.vpn2
  simp only [VirtualAddress.path, Tree.slot] at slot
  cases e2 : c v.vpn2 with
  | empty =>
    rw [e2] at slot
    cases slot
  | leaf e =>
    rw [e2] at slot
    cases slot
  | node t2 c2 =>
    rw [e2] at h2 slot
    obtain ⟨⟨valid2, -, -, -, ppn2⟩, h2⟩ := h2
    have h1 := h2 v.vpn1
    simp only [Tree.slot] at slot
    cases e1 : c2 v.vpn1 with
    | empty =>
      rw [e1] at slot
      cases slot
    | leaf e =>
      rw [e1] at slot
      cases slot
    | node t1 c1 =>
      rw [e1] at h1 slot
      obtain ⟨⟨valid1, -, -, -, ppn1⟩, -⟩ := h1
      simp only [Tree.slot, Option.some.injEq, Prod.mk.injEq] at slot
      obtain ⟨rfl, rfl⟩ := slot
      rw [show [1, 0].filter (0 ≤ ·) = [1, 0] from rfl, List.foldl_cons, List.foldl_cons,
        List.foldl_nil, mapStep_of_valid valid2 ppn2]
      exact mapStep_of_valid valid1 ppn1

theorem map_of_walk {pages : Nat → Nat} {v : VirtualAddress} {p : PhysicalAddress}
    {bits : BitVec 64} {level a : Nat} {s s' : Vm}
    (walk : ([1, 0].filter (level ≤ ·)).foldl (Memory.mapStep pages v) (entryAddress root v.vpn2, s) =
      (a, s')) : Memory.map pages root v p bits level s =
      ⟨storeEntry s'.memory a (leafOf (loadEntry s'.memory a) p bits), s'.zallocs⟩ := by
  rw [Memory.map_eq, walk]

theorem PageHeap.mapRangeLoop_succ (self root : Nat) (bits : BitVec 64) (n : Nat) (v p : BitVec 64)
    (h : PageHeap) : h.mapRangeLoop self root bits (n + 1) v p =
      (h.map self root (.ofU64 v) (.ofU64 p) bits 0).bind
        (PageHeap.mapRangeLoop self root bits n (v + .ofNat 64 PAGE_SIZE) (p + .ofNat 64 PAGE_SIZE)) :=
  rfl

theorem PageHeap.mapRange_eq (self root : Nat) (vs ve ps bits : BitVec 64) (h : PageHeap) :
    h.mapRange self root vs ve ps bits =
      h.mapRangeLoop self root bits
        ((alignValue ve 12 - (vs &&& ~~~Align.lowMask 12)).toNat / PAGE_SIZE)
        (vs &&& ~~~Align.lowMask 12) (ps &&& ~~~Align.lowMask 12) :=
  rfl

theorem PageHeap.runCall_identityMapRange (self root : Nat) (start stop bits : BitVec 64)
    (h : PageHeap) : h.runCall self root (.identityMapRange start stop bits) =
      h.mapRange self root start stop start bits :=
  (PageHeap.pageSupply self).identityMapRange_eq root start stop bits h

/-- `map` takes two rounds of its loop and writes the entry they lead to. -/
theorem heapMap_eq {self : Nat} {v : VirtualAddress} {p : PhysicalAddress} {bits : BitVec 64} :
    h.map self root v p bits 0 =
      (PageHeap.mapStep self v (entryAddress root v.vpn2, h) 1).bind fun r₁ =>
        (PageHeap.mapStep self v r₁ 0).map fun r =>
          let e := leafOf (loadEntry r.2.memory r.1) p bits
          { r.2 with memory := storeEntry r.2.memory r.1 e } := by
  unfold PageHeap.map PageSupply.map PageHeap.mapStep
  rw [show [1, 0].filter (0 ≤ ·) = [1, 0] from rfl, List.foldlM_cons]
  cases (PageHeap.pageSupply self).mapStep v (entryAddress root v.vpn2, h) 1 with
  | none => rfl
  | some r₁ =>
    simp only [List.foldlM_cons, List.foldlM_nil, Option.bind_eq_bind, Option.bind_some,
      Option.pure_def]
    cases (PageHeap.pageSupply self).mapStep v r₁ 0 <;> rfl

/-- **`map` on the heap** sends one page, and takes the pages it needs. -/
theorem HeapTables.map (on : HeapTables mm h root tables) (layout : mm.Layout)
    (low : mm.allocStart + 4096 * mm.numberOfPages ≤ 2 ^ 56)
    (holds : HoldsPageMap root tables h.memory g) {v p bits : BitVec 64} (hv : v.toNat < 2 ^ 39)
    (hp : p.toNat < 2 ^ 56) (flags : bits.toNat < 256)
    (run : h.map mm.allocStart root (.ofU64 v) (.ofU64 p) bits 0 = some h') :
    ∃ new, HeapTables mm h' root (tables ++ new) ∧
      HoldsPageMap root (tables ++ new) h'.memory
        (overwrite (v.toNat / 4096) 1 (p.toNat / 4096) bits g) ∧
      Grown mm root tables new h h' := by
  obtain ⟨ok, t, rep, lookups⟩ := holds
  have slot₂ : t.slot [(VirtualAddress.ofU64 v).vpn2] = some (root, (VirtualAddress.ofU64 v).vpn2) := by
    obtain ⟨c, rfl⟩ := rep.rooted
    rfl
  rw [heapMap_eq, Option.bind_eq_some_iff] at run
  obtain ⟨⟨a₁, h₁⟩, first, run⟩ := run
  obtain ⟨⟨a₀, h₀⟩, second, rfl⟩ := Option.map_eq_some_iff.1 run
  obtain ⟨new₁, t₁, l₁, rfl, on₁, holds₁, slot₁, same₁, grown₁⟩ := on.mapStep layout low ⟨ok, rep⟩
    slot₂ (by simp) first
  obtain ⟨new₀, t₀, l₀, rfl, on₀, ⟨ok₀, rep₀⟩, slot₀, same₀, grown₀⟩ := on₁.mapStep layout low holds₁
    slot₁ (by simp) second
  have slot : t₀.slot (VirtualAddress.ofU64 v).path = some (l₀, (VirtualAddress.ofU64 v).vpn0) :=
    slot₀
  have mem := owner_mem rep₀ (Tree.owns_of_slot slot)
  have impl : Implements (tableSource ok₀) ⟨h₀.memory, (tables ++ new₁ ++ new₀).length⟩ g :=
    ⟨t₀, rep₀, fun a ha => (same₀ _).trans ((same₁ _).trans (lookups a ha))⟩
  -- the source's `map` finds all its tables and stores the same entry
  have abstract := @map_of_walk root _ _ (.ofU64 p) bits _ _ _ _ (rep₀.walk slot)
  have mapped := impl.map hv hp flags (by rw [abstract]; exact Nat.le_refl _)
  rw [abstract] at mapped
  refine ⟨new₁ ++ new₀, ?_, ?_, ?_⟩
  · rw [← List.append_assoc]
    exact on₀.store layout mem _ _
  · rw [← List.append_assoc]
    exact ⟨ok₀, mapped⟩
  · rw [← List.append_nil new₀]
    exact grown₁.trans (grown₀.trans (.store mem _ _))

/-- The loops of the ranges send one interval of pages. -/
theorem HeapTables.mapRangeLoop (on : HeapTables mm h root tables) (layout : mm.Layout)
    (low : mm.allocStart + 4096 * mm.numberOfPages ≤ 2 ^ 56)
    (holds : HoldsPageMap root tables h.memory g) {bits : BitVec 64} (flags : bits.toNat < 256)
    (n : Nat) {v p : BitVec 64} (hv : 4096 ∣ v.toNat) (hp : 4096 ∣ p.toNat)
    (vtop : v.toNat + 4096 * n ≤ 2 ^ 39) (ptop : ∀ i < n, p.toNat + 4096 * i < 2 ^ 56)
    (run : h.mapRangeLoop mm.allocStart root bits n v p = some h') :
    ∃ new, HeapTables mm h' root (tables ++ new) ∧
      HoldsPageMap root (tables ++ new) h'.memory
        (overwrite (v.toNat / 4096) n (p.toNat / 4096) bits g) ∧
      Grown mm root tables new h h' := by
  induction n generalizing v p h g tables with
  | zero =>
    obtain rfl := Option.some.inj run
    refine ⟨[], ?_, ?_, .refl ..⟩
    · rwa [List.append_nil]
    · rwa [List.append_nil, overwrite_zero]
  | succ n ih =>
    rw [PageHeap.mapRangeLoop_succ, Option.bind_eq_some_iff] at run
    obtain ⟨h₁, one, rest⟩ := run
    have first := ptop 0 (by omega)
    have nextV : (v + .ofNat 64 PAGE_SIZE).toNat = v.toNat + 4096 := nextPage_toNat (by omega)
    have nextP : (p + .ofNat 64 PAGE_SIZE).toNat = p.toNat + 4096 := nextPage_toNat (by omega)
    obtain ⟨new, on₁, holds₁, grown₁⟩ := on.map layout low holds (by omega) (by omega) flags one
    obtain ⟨more, on₂, holds₂, grown₂⟩ := ih on₁ holds₁ (by rw [nextV]; omega)
      (by rw [nextP]; omega) (by rw [nextV]; omega) (nextPage_below ptop) rest
    rw [nextV, nextP, Nat.add_div_right _ (by omega), Nat.add_div_right _ (by omega),
      overwrite_succ] at holds₂
    rw [List.append_assoc] at on₂ holds₂
    exact ⟨new ++ more, on₂, holds₂, grown₁.trans grown₂⟩

theorem HeapTables.mapRange (on : HeapTables mm h root tables) (layout : mm.Layout)
    (low : mm.allocStart + 4096 * mm.numberOfPages ≤ 2 ^ 56)
    (holds : HoldsPageMap root tables h.memory g) {vs ve ps bits : BitVec 64}
    (ordered : vs.toNat ≤ ve.toNat) (vtop : ve.toNat ≤ 2 ^ 39) (flags : bits.toNat < 256)
    (ptop : ∀ page, vs.toNat / 4096 ≤ page → page < (ve.toNat + 4095) / 4096 →
      4096 * (ps.toNat / 4096 + (page - vs.toNat / 4096)) < 2 ^ 56)
    (run : h.mapRange mm.allocStart root vs ve ps bits = some h') :
    ∃ new, HeapTables mm h' root (tables ++ new) ∧
      HoldsPageMap root (tables ++ new) h'.memory
        (overwrite (vs.toNat / 4096) ((ve.toNat + 4095) / 4096 - vs.toNat / 4096)
          (ps.toNat / 4096) bits g) ∧
      Grown mm root tables new h h' := by
  have v := pageStart_toNat vs
  have p := pageStart_toNat ps
  rw [PageHeap.mapRange_eq, rangePages ordered vtop] at run
  obtain ⟨new, on', holds', grown⟩ := on.mapRangeLoop layout low holds flags _ (by omega) (by omega)
    (by omega) (fun i hi => by have := ptop (vs.toNat / 4096 + i) (by omega) (by omega); omega) run
  rw [v, p, Nat.mul_div_cancel _ (by omega), Nat.mul_div_cancel _ (by omega)] at holds'
  exact ⟨new, on', holds', grown⟩

theorem Call.entry_map (v p bits : BitVec 64) (g : Nat → Option PageTableEntry) :
    (fun page => (Call.map v p bits).entry page (g page)) =
      overwrite (v.toNat / 4096) 1 (p.toNat / 4096) bits g := by
  funext page
  simp only [Call.entry, Call.target, Call.bits, overwrite]
  by_cases here : page = v.toNat / 4096
  · rw [if_pos here, if_pos (by omega), here, Nat.sub_self, Nat.add_zero]
  · rw [if_neg here, if_neg (by omega)]

theorem Call.entry_mapRange (vs ve ps bits : BitVec 64) (g : Nat → Option PageTableEntry) :
    (fun page => (Call.mapRange vs ve ps bits).entry page (g page)) =
      overwrite (vs.toNat / 4096) ((ve.toNat + 4095) / 4096 - vs.toNat / 4096)
        (ps.toNat / 4096) bits g := by
  funext page
  simp only [Call.entry, Call.target, Call.bits, overwrite]
  by_cases here : vs.toNat / 4096 ≤ page ∧ page < (ve.toNat + 4095) / 4096
  · rw [if_pos here, if_pos (by omega)]
  · rw [if_neg here, if_neg (by omega)]

theorem Call.entry_identityMapRange (start stop bits : BitVec 64)
    (g : Nat → Option PageTableEntry) :
    (fun page => (Call.identityMapRange start stop bits).entry page (g page)) =
      overwrite (start.toNat / 4096) ((stop.toNat + 4095) / 4096 - start.toNat / 4096)
        (start.toNat / 4096) bits g := by
  rw [← Call.entry_mapRange start stop start bits]
  funext page
  simp only [Call.entry, Call.target, Call.bits]
  by_cases here : start.toNat / 4096 ≤ page ∧ page < (stop.toNat + 4095) / 4096
  · rw [if_pos here, if_pos here, Nat.add_sub_of_le here.1]
  · rw [if_neg here, if_neg here]

/-- **A call on the heap** puts its targets over the map that was there. -/
theorem HeapTables.runCall (on : HeapTables mm h root tables) (layout : mm.Layout)
    (low : mm.allocStart + 4096 * mm.numberOfPages ≤ 2 ^ 56)
    (holds : HoldsPageMap root tables h.memory g) {c : Call} (ok : c.WithinBounds)
    (run : h.runCall mm.allocStart root c = some h') :
    ∃ new, HeapTables mm h' root (tables ++ new) ∧
      HoldsPageMap root (tables ++ new) h'.memory (fun page => c.entry page (g page)) ∧
      Grown mm root tables new h h' := by
  cases c with
  | map v p bits =>
    obtain ⟨hv, hp, flags⟩ := ok
    rw [Call.entry_map]
    exact on.map layout low holds hv hp flags run
  | mapRange vs ve ps bits =>
    obtain ⟨ordered, vtop, flags, ptop⟩ := ok
    rw [Call.entry_mapRange]
    exact on.mapRange layout low holds ordered vtop flags ptop run
  | identityMapRange start stop bits =>
    obtain ⟨ordered, vtop, flags⟩ := ok
    rw [Call.entry_identityMapRange]
    rw [PageHeap.runCall_identityMapRange] at run
    exact on.mapRange layout low holds ordered vtop flags (fun page low high => by omega) run

theorem HeapTables.runCalls (on : HeapTables mm h root tables) (layout : mm.Layout)
    (low : mm.allocStart + 4096 * mm.numberOfPages ≤ 2 ^ 56)
    (holds : HoldsPageMap root tables h.memory g) {calls : List Call}
    (ok : ∀ c ∈ calls, c.WithinBounds)
    (run : h.runCalls mm.allocStart root calls = some h') :
    ∃ new, HeapTables mm h' root (tables ++ new) ∧
      HoldsPageMap root (tables ++ new) h'.memory
        (fun page => calls.foldl (fun old c => c.entry page old) (g page)) ∧
      Grown mm root tables new h h' := by
  induction calls generalizing h g tables with
  | nil =>
    obtain rfl := Option.some.inj run
    refine ⟨[], ?_, ?_, .refl ..⟩
    · rwa [List.append_nil]
    · rwa [List.append_nil]
  | cons c calls ih =>
    rw [PageHeap.runCalls, List.foldlM_cons, Option.bind_eq_bind, Option.bind_eq_some_iff] at run
    obtain ⟨h₁, one, rest⟩ := run
    obtain ⟨new, on₁, holds₁, grown₁⟩ := on.runCall layout low holds (ok c List.mem_cons_self) one
    obtain ⟨more, on₂, holds₂, grown₂⟩ := ih on₁ holds₁ (fun d mem => ok d (List.mem_cons_of_mem c mem))
      rest
    rw [List.append_assoc] at on₂ holds₂
    exact ⟨new ++ more, on₂, holds₂, grown₁.trans grown₂⟩

end Steps

/-! ## Room for the tables -/

section Room

variable {mm : MemoryManager} {h h' : PageHeap} {root : Nat} {tables : List Nat} {t : PageTree}
  {g : Nat → Option PageTableEntry}

theorem HasRoom.mono {self n k : Nat} (room : HasRoom h self (n + k)) : HasRoom h self n := by
  obtain ⟨i, fits, free⟩ := room
  exact ⟨i, by omega, fun j low high => free j low (by omega)⟩

/-- Room is a matter of the descriptors. -/
theorem HasRoom.congr (inv : h.Inv mm) (inv' : h'.Inv mm)
    (same : AgreeOn mm.descriptors h.memory h'.memory) {n : Nat}
    (room : HasRoom h mm.allocStart n) : HasRoom h' mm.allocStart n := by
  unfold HasRoom at room ⊢
  rw [inv.manager] at room
  rw [inv'.manager]
  obtain ⟨i, fits, free⟩ := room
  refine ⟨i, fits, fun j low high => ?_⟩
  rw [Page.isFree, same _ ⟨Nat.le_add_right _ _, by omega⟩]
  exact free j low high

/-- The first fit lies in front of any free pages, so what it leaves of them is still free. -/
theorem PageHeap.Inv.zalloc_room (inv : h.Inv mm) (layout : mm.Layout) {pages n : Nat}
    (pos : 1 ≤ pages) (room : HasRoom h mm.allocStart (pages + n)) :
    ∃ ptr h', h.zalloc mm.allocStart pages = some (ptr, h') ∧ HasRoom h' mm.allocStart n := by
  have fits := room.mono
  obtain ⟨ptrEq, memoryEq, inv'⟩ := inv.zreturned layout pos fits
  obtain ⟨k, m, run, -, top, -, -, -, frame⟩ := inv.alloc_spec layout pos fits
  obtain ⟨i, last, free⟩ := room
  rw [inv.manager] at last free
  have addressable := layout.addressable
  unfold PAGE_SIZE at addressable
  -- the first fit
  obtain ⟨j, found, le, -⟩ := MemoryManager.findLoop_spec (n := mm.numberOfPages) pos (by omega)
    (fun x low high => free x low (by omega)) (Nat.zero_le i) (by omega)
  have same : j = k := by
    have ptr := congrArg Prod.fst run
    simp only [MemoryManager.alloc, inv.manager, found, PAGE_SIZE] at ptr
    omega
  refine ⟨_, _, by rw [PageHeap.zalloc, if_pos fits], ?_⟩
  unfold HasRoom
  rw [inv'.manager]
  refine ⟨i + pages, by omega, fun x low high => ?_⟩
  have descriptors := layout.descriptors
  have first := layout.first
  have outside : mm.firstPage + x < (MemoryManager.alloc h.memory mm.allocStart pages).1 := by
    rw [run]
    simp only
    omega
  rw [Page.isFree]
  simp only [PageHeap.returned, memoryEq]
  rw [clear_apply_outside _ (.inl outside), run]
  change (m (mm.firstPage + x) == PageStatus.free.toU8) = true
  rw [frame _ (by omega)]
  exact free x (by omega) (by omega)

/-- A store to a live block takes no room. -/
theorem HasRoom.write (inv : h.Inv mm) (layout : mm.Layout) {b : Nat × Nat} (mem : b ∈ h.live)
    {m : Memory} (outside : ∀ a, a < b.1 ∨ b.1 + PAGE_SIZE * b.2 ≤ a → m a = h.memory a) {n : Nat}
    (room : HasRoom h mm.allocStart n) : HasRoom { h with memory := m } mm.allocStart n := by
  refine room.congr inv (inv.write layout mem outside) fun x cell => outside x ?_
  have beside : ¬ bytesAt b.1 (PAGE_SIZE * b.2) x := fun inside =>
    inv.not_descriptors layout mem inside cell
  unfold bytesAt at beside
  omega

theorem HasRoom.storeEntry (on : HeapTables mm h root tables) (layout : mm.Layout) {l : Nat}
    (mem : l ∈ root :: tables) (i : BitVec 9) (e : PageTableEntry) {n : Nat}
    (room : HasRoom h mm.allocStart n) :
    HasRoom { h with memory := storeEntry h.memory (entryAddress l i) e } mm.allocStart n := by
  refine room.write on.inv layout (on.live l mem) fun a outside => store64_apply_of_outside _ _ ?_
  have small := i.isLt
  unfold PAGE_SIZE at outside
  unfold entryAddress
  simp only at outside
  omega

/-- An iteration of the loop of `map` takes at most one page. -/
theorem HeapTables.mapStep_room (on : HeapTables mm h root tables) (layout : mm.Layout)
    {l : Nat} (mem : l ∈ root :: tables) (i : BitVec 9) (v : VirtualAddress) (k : Nat) {n : Nat}
    (room : HasRoom h mm.allocStart (n + 1)) :
    ∃ a h', PageHeap.mapStep mm.allocStart v (entryAddress l i, h) k = some (a, h') ∧
      HasRoom h' mm.allocStart n := by
  cases valid : (loadEntry h.memory (entryAddress l i)).isValid with
  | true => exact ⟨_, _, heapMapStep_of_valid valid, room.mono⟩
  | false =>
    rw [Nat.add_comm] at room
    obtain ⟨page, h₁, took, room₁⟩ := on.inv.zalloc_room layout (Nat.le_refl 1) room
    obtain ⟨on₁, -, -⟩ := on.take layout took
    have mem₁ : l ∈ root :: (tables ++ [page]) := List.mem_append_left [page] mem
    exact ⟨_, _, by rw [heapMapStep_of_invalid valid, took, Option.map_some],
      room₁.storeEntry on₁ layout mem₁ i _⟩

theorem HeapTables.map_room (on : HeapTables mm h root tables) (layout : mm.Layout)
    (low : mm.allocStart + 4096 * mm.numberOfPages ≤ 2 ^ 56)
    (holds : HoldsPageMap root tables h.memory g) (v : VirtualAddress) (p : PhysicalAddress)
    (bits : BitVec 64) {n : Nat} (room : HasRoom h mm.allocStart (n + 2)) :
    ∃ h', h.map mm.allocStart root v p bits 0 = some h' ∧ HasRoom h' mm.allocStart n := by
  obtain ⟨ok, t, rep, -⟩ := holds
  have slot₂ : t.slot [v.vpn2] = some (root, v.vpn2) := by
    obtain ⟨c, rfl⟩ := rep.rooted
    rfl
  obtain ⟨a₁, h₁, first, room₁⟩ := on.mapStep_room layout List.mem_cons_self v.vpn2 v 1 room
  obtain ⟨new₁, t₁, l₁, rfl, on₁, ⟨ok₁, rep₁⟩, slot₁, -⟩ := on.mapStep layout low ⟨ok, rep⟩ slot₂
    (by simp) first
  have mem₁ := owner_mem rep₁ (Tree.owns_of_slot slot₁)
  obtain ⟨a₀, h₀, second, room₀⟩ := on₁.mapStep_room layout mem₁ _ v 0 room₁
  obtain ⟨new₀, t₀, l₀, rfl, on₀, ⟨ok₀, rep₀⟩, slot₀, -⟩ := on₁.mapStep layout low ⟨ok₁, rep₁⟩ slot₁
    (by simp) second
  have mem₀ := owner_mem rep₀ (Tree.owns_of_slot slot₀)
  exact ⟨_, by rw [heapMap_eq, first, Option.bind_some, second, Option.map_some],
    room₀.storeEntry on₀ layout mem₀ _ _⟩

/-- A range takes at most two pages for each of its pages. -/
theorem HeapTables.mapRangeLoop_room (on : HeapTables mm h root tables) (layout : mm.Layout)
    (low : mm.allocStart + 4096 * mm.numberOfPages ≤ 2 ^ 56)
    (holds : HoldsPageMap root tables h.memory g) {bits : BitVec 64} (flags : bits.toNat < 256)
    (count : Nat) {v p : BitVec 64} (vtop : v.toNat + 4096 * count ≤ 2 ^ 39)
    (ptop : ∀ i < count, p.toNat + 4096 * i < 2 ^ 56) {n : Nat}
    (room : HasRoom h mm.allocStart (n + 2 * count)) :
    ∃ h', h.mapRangeLoop mm.allocStart root bits count v p = some h' ∧
      HasRoom h' mm.allocStart n := by
  induction count generalizing v p h g tables with
  | zero => exact ⟨h, rfl, room⟩
  | succ count ih =>
    have first := ptop 0 (by omega)
    have nextV : (v + .ofNat 64 PAGE_SIZE).toNat = v.toNat + 4096 := nextPage_toNat (by omega)
    obtain ⟨h₁, one, room₁⟩ := on.map_room layout low holds (.ofU64 v) (.ofU64 p) bits
      (n := n + 2 * count) room
    obtain ⟨new, on₁, holds₁, -⟩ := on.map layout low holds (by omega) (by omega) flags one
    obtain ⟨h', rest, room'⟩ := ih on₁ holds₁ (by rw [nextV]; omega) (nextPage_below ptop) room₁
    exact ⟨h', by rw [PageHeap.mapRangeLoop_succ, one, Option.bind_some, rest], room'⟩

/-- The number of pages that a call maps. -/
def Call.pages : Call → Nat
  | .map _ _ _ => 1
  | .mapRange vs ve _ _ => (ve.toNat + 4095) / 4096 - vs.toNat / 4096
  | .identityMapRange start stop _ => (stop.toNat + 4095) / 4096 - start.toNat / 4096

theorem HeapTables.mapRange_room (on : HeapTables mm h root tables) (layout : mm.Layout)
    (low : mm.allocStart + 4096 * mm.numberOfPages ≤ 2 ^ 56)
    (holds : HoldsPageMap root tables h.memory g) {vs ve ps bits : BitVec 64}
    (ordered : vs.toNat ≤ ve.toNat) (vtop : ve.toNat ≤ 2 ^ 39) (flags : bits.toNat < 256)
    (ptop : ∀ page, vs.toNat / 4096 ≤ page → page < (ve.toNat + 4095) / 4096 →
      4096 * (ps.toNat / 4096 + (page - vs.toNat / 4096)) < 2 ^ 56) {n : Nat}
    (room : HasRoom h mm.allocStart (n + 2 * ((ve.toNat + 4095) / 4096 - vs.toNat / 4096))) :
    ∃ h', h.mapRange mm.allocStart root vs ve ps bits = some h' ∧ HasRoom h' mm.allocStart n := by
  have v := pageStart_toNat vs
  have p := pageStart_toNat ps
  rw [PageHeap.mapRange_eq, rangePages ordered vtop]
  exact on.mapRangeLoop_room layout low holds flags _ (by omega)
    (fun i small => by have := ptop (vs.toNat / 4096 + i) (by omega) (by omega); omega) room

theorem HeapTables.runCall_room (on : HeapTables mm h root tables) (layout : mm.Layout)
    (low : mm.allocStart + 4096 * mm.numberOfPages ≤ 2 ^ 56)
    (holds : HoldsPageMap root tables h.memory g) {c : Call} (ok : c.WithinBounds) {n : Nat}
    (room : HasRoom h mm.allocStart (n + 2 * c.pages)) :
    ∃ h', h.runCall mm.allocStart root c = some h' ∧ HasRoom h' mm.allocStart n := by
  cases c with
  | map v p bits => exact on.map_room layout low holds _ _ bits room
  | mapRange vs ve ps bits =>
    obtain ⟨ordered, vtop, flags, ptop⟩ := ok
    exact on.mapRange_room layout low holds ordered vtop flags ptop room
  | identityMapRange start stop bits =>
    obtain ⟨ordered, vtop, flags⟩ := ok
    rw [PageHeap.runCall_identityMapRange]
    exact on.mapRange_room layout low holds ordered vtop flags (fun page low high => by omega) room

/-- **Calls on the heap succeed** where two pages are free for each page they map. -/
theorem HeapTables.runCalls_room (on : HeapTables mm h root tables) (layout : mm.Layout)
    (low : mm.allocStart + 4096 * mm.numberOfPages ≤ 2 ^ 56)
    (holds : HoldsPageMap root tables h.memory g) {calls : List Call}
    (ok : ∀ c ∈ calls, c.WithinBounds) {n : Nat}
    (room : HasRoom h mm.allocStart (n + 2 * (calls.map Call.pages).sum)) :
    ∃ h', h.runCalls mm.allocStart root calls = some h' ∧ HasRoom h' mm.allocStart n := by
  induction calls generalizing h g tables with
  | nil => exact ⟨h, rfl, room⟩
  | cons c calls ih =>
    rw [List.map_cons, List.sum_cons] at room
    obtain ⟨h₁, one, room₁⟩ := on.runCall_room layout low holds (ok c List.mem_cons_self)
      (n := n + 2 * (calls.map Call.pages).sum) (by
        rwa [Nat.add_assoc, ← Nat.mul_add, Nat.add_comm _ c.pages])
    obtain ⟨new, on₁, holds₁, -⟩ := on.runCall layout low holds (ok c List.mem_cons_self) one
    obtain ⟨h', rest, room'⟩ := ih on₁ holds₁ (fun d mem => ok d (List.mem_cons_of_mem c mem)) room₁
    refine ⟨h', ?_, room'⟩
    rw [PageHeap.runCalls, List.foldlM_cons, one]
    exact rest

end Room

end MatteOS.Memory
