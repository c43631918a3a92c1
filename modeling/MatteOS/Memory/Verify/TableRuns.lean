import MatteOS.Memory.TableRuns
import MatteOS.Memory.Verify.HeapMapping

/-!
# Page tables over one heap are finite maps of their own

In every run each table translates by its own calls, the last one on top, whatever was done to the
other tables and the other blocks in between; and a call changes no block but those of its table
(`page_tables_apart`).
-/

namespace MatteOS.Memory

open ByteMemory ObjectStore

/-- The pages of the table. -/
def MappedTable.all (t : MappedTable) : List Nat := t.root :: t.pages

/-- The kernel keeps to its side of the allocator and touches tables by calls only. -/
def TableEvent.Allowed (self : Nat) (s : MappedHeap) : TableEvent → Prop
  | .page a => a.Allowed self s.heap ∧
    (∀ ptr, a = .dealloc ptr → ∀ t ∈ s.tables, ptr ∉ t.all) ∧
    ∀ x v, a = .write x v → ∀ t ∈ s.tables, ∀ page ∈ t.all, ¬ bytesAt page PAGE_SIZE x
  | .create => True
  | .call _ c => c.WithinBounds

def MappedHeap.Step (self fuel : Nat) (s : MappedHeap) (e : TableEvent) (s' : MappedHeap) : Prop :=
  e.Allowed self s ∧ s.run self fuel e = some s'

/-- The table holds what its calls have left. -/
structure MappedTable.Held (mm : MemoryManager) (h : PageHeap) (t : MappedTable) : Prop where
  on : HeapTables mm h t.root t.pages
  holds : HoldsPageMap t.root t.pages h.memory (lastEntry t.calls)
  within : ∀ c ∈ t.calls, c.WithinBounds

structure MappedHeap.Inv (mm : MemoryManager) (s : MappedHeap) : Prop where
  heap : s.heap.Inv mm
  held : ∀ (i : Nat) (t : MappedTable), s.tables[i]? = some t → t.Held mm s.heap
  apart : ∀ (i j : Nat) (t u : MappedTable), i ≠ j → s.tables[i]? = some t → s.tables[j]? = some u →
    ∀ x ∈ t.all, x ∉ u.all

section Steps

variable {mm : MemoryManager} {s : MappedHeap} {h : PageHeap}

/-- A table stays what it is while its pages stay live and their bytes stay. -/
theorem MappedTable.Held.keep {t : MappedTable} {h' : PageHeap} (held : t.Held mm h)
    (inv : h'.Inv mm) (live : ∀ x ∈ t.all, (x, 1) ∈ h'.live)
    (same : ∀ page ∈ t.all, AgreeOn (bytesAt page PAGE_SIZE) h.memory h'.memory) : t.Held mm h' where
  on := ⟨inv, live, held.on.nodup⟩
  holds := held.holds.congr fun x inside => by
    obtain ⟨page, mem, inside⟩ := inside
    exact same page mem x inside
  within := held.within

/-- A table is what it was when something is written to a block beside it. -/
theorem MappedTable.Held.write {t : MappedTable} (held : t.Held mm h)
    (layout : mm.Layout) {b : Nat × Nat} (live : b ∈ h.live) (other : b.1 ∉ t.all) {m : Memory}
    (same : AgreeOn (fun x => ¬ bytesAt b.1 (PAGE_SIZE * b.2) x) h.memory m) :
    t.Held mm { h with memory := m } := by
  refine held.keep (held.on.inv.write layout live fun x outside => same x ?_) held.on.live ?_
  · unfold bytesAt
    omega
  · intro page mem x inside
    refine same x fun inside' => ?_
    have ne : (page, 1) ≠ b := fun eq => other (eq ▸ mem)
    have apart := held.on.inv.blocks_apart (held.on.live page mem) live ne
    unfold RegionsApart at apart
    unfold bytesAt at inside inside'
    simp only at apart
    omega

/-- A table translates by its own calls. -/
theorem MappedTable.Held.translate {t : MappedTable} (held : t.Held mm h) {a : BitVec 64}
    (ha : a.toNat < 2 ^ 39) :
    (Memory.translate h.memory t.root (.ofU64 a)).toOption.map (·.getValue.toNat) =
      (lastTarget t.calls (a.toNat / 4096)).map fun page => 4096 * page + a.toNat % 4096 := by
  obtain ⟨ok, impl⟩ := held.holds
  rw [impl.translate ha, ← lastEntry_ppn held.within, Option.map_map]
  rfl

/-- Taking blocks leaves the tables as they are. -/
theorem MappedHeap.Inv.took (inv : s.Inv mm) (layout : mm.Layout) (inv' : h.Inv mm)
    {blocks : List (Nat × Nat)} (took : Took mm blocks s.heap h) {i : Nat} {t : MappedTable}
    (at_i : s.tables[i]? = some t) : t.Held mm h := by
  have held := inv.held i t at_i
  refine held.keep inv' (fun x mem => ?_) fun page mem x inside => ?_
  · rw [took.live]
    exact List.mem_append_right _ (held.on.live x mem)
  · exact took.older inv' layout (held.on.live page mem) x (by rwa [Nat.mul_one])

theorem MappedHeap.Inv.page (inv : s.Inv mm) (layout : mm.Layout) {fuel : Nat}
    (enough : mm.numberOfPages < fuel) {a : PageAction}
    (allowed : (TableEvent.page a).Allowed mm.allocStart s)
    (run : a.run mm.allocStart fuel s.heap = some h) : MappedHeap.Inv mm { s with heap := h } := by
  obtain ⟨fits, kept, written⟩ := allowed
  have inv' := inv.heap.step layout enough fits run
  refine ⟨inv', fun i t at_i => ?_, inv.apart⟩
  have held := inv.held i t at_i
  have table := List.mem_of_getElem? at_i
  cases a with
  | alloc pages =>
    obtain rfl : _ = h := Option.some.inj run
    exact inv.took layout inv' (.of_alloc inv.heap layout fits.1 fits.2) at_i
  | zalloc pages =>
    obtain rfl : _ = h := Option.some.inj run
    exact inv.took layout inv' (.of_zalloc inv.heap layout fits.1 (by
      rw [PageHeap.zalloc, if_pos fits.2])) at_i
  | dealloc ptr =>
    obtain ⟨pages, mem⟩ := fits
    obtain ⟨m, freed, cleared⟩ := inv.heap.dealloc_spec layout mem enough
    rw [PageAction.run, freed, Option.map_some] at run
    obtain rfl : _ = h := Option.some.inj run
    refine held.keep inv' (fun x mem' => ?_) fun page mem' x inside => ?_
    · have other : x ≠ ptr := fun same => kept ptr rfl t table (same ▸ mem')
      exact (List.mem_eraseP_of_neg (by simpa using other)).2 (held.on.live x mem')
    · have outside := inv.heap.not_descriptors layout (held.on.live page mem')
        (by rwa [Nat.mul_one])
      have top := inv.heap.start_add_le mem
      unfold MemoryManager.descriptors at outside
      simp only at top
      exact (cleared x).trans (if_neg (by simp only; omega))
  | write address value =>
    obtain rfl : _ = h := Option.some.inj run
    refine held.keep inv' held.on.live fun page mem x inside => store8_apply_of_ne _ _ ?_
    rintro rfl
    exact written _ _ rfl t table page mem inside

/-- The pointers of new blocks are new. -/
theorem fresh_of_live {blocks live : List (Nat × Nat)} (inv : h.Inv mm) (eq : h.live = blocks ++ live)
    {b c : Nat × Nat} (new : b ∈ blocks) (old : c ∈ live) : b.1 ≠ c.1 := by
  have ptrs := inv.ptrs_nodup
  rw [eq, List.map_append, List.nodup_append] at ptrs
  exact ptrs.2.2 _ (List.mem_map_of_mem new) _ (List.mem_map_of_mem old)

theorem MappedHeap.Inv.create (inv : s.Inv mm) (layout : mm.Layout)
    (low : mm.allocStart + 4096 * mm.numberOfPages ≤ 2 ^ 56) {root : Nat}
    (run : s.heap.zalloc mm.allocStart 1 = some (root, h)) :
    MappedHeap.Inv mm ⟨h, s.tables ++ [⟨root, [], []⟩]⟩ := by
  have took := Took.of_zalloc inv.heap layout (Nat.le_refl 1) run
  obtain ⟨on, holds⟩ := HeapTables.start inv.heap layout low run
  -- an index is one of before or that of the new table
  have cases : ∀ (i : Nat) (t : MappedTable), (s.tables ++ [⟨root, [], []⟩])[i]? = some t →
      s.tables[i]? = some t ∨ (i = s.tables.length ∧ t = ⟨root, [], []⟩) := by
    intro i t at_i
    by_cases old : i < s.tables.length
    · rw [List.getElem?_append_left old] at at_i
      exact .inl at_i
    · rw [List.getElem?_append_right (by omega)] at at_i
      obtain ⟨bound, eq⟩ := List.getElem?_eq_some_iff.1 at_i
      rw [List.length_singleton] at bound
      refine .inr ⟨by omega, ?_⟩
      rw [← eq, List.getElem_singleton]
  have fresh : ∀ (i : Nat) (t : MappedTable), s.tables[i]? = some t → root ∉ t.all := by
    intro i t at_i mem
    have old := (inv.held i t at_i).on.live root mem
    exact fresh_of_live on.inv took.live (List.mem_singleton_self _) old rfl
  refine ⟨on.inv, fun i t at_i => ?_, fun i j t u ne at_i at_j x mem mem' => ?_⟩
  · rcases cases i t at_i with old | ⟨-, rfl⟩
    · exact inv.took layout on.inv took old
    · exact ⟨on, holds, fun c none => absurd none List.not_mem_nil⟩
  · rcases cases i t at_i with old | ⟨rfl, rfl⟩
    · rcases cases j u at_j with old' | ⟨-, rfl⟩
      · exact inv.apart i j t u ne old old' x mem mem'
      · obtain rfl : x = root := List.mem_singleton.1 mem'
        exact fresh i t old mem
    · rcases cases j u at_j with old' | ⟨rfl, -⟩
      · obtain rfl : x = root := List.mem_singleton.1 mem
        exact fresh j u old' mem'
      · exact ne rfl

/-- A call changes no block but those of its table. -/
theorem Grown.beside {h' : PageHeap} {t : MappedTable} {new : List Nat}
    (on : HeapTables mm h' t.root (t.pages ++ new)) (layout : mm.Layout)
    (grown : Grown mm t.root t.pages new h h') {b : Nat × Nat} (mem : b ∈ h.live)
    (other : b.1 ∉ t.all) : AgreeOn (bytesAt b.1 (PAGE_SIZE * b.2)) h.memory h'.memory := by
  have live : b ∈ h'.live := by
    rw [grown.live]
    exact List.mem_append_right _ mem
  refine grown.same.mono fun x inside => ⟨on.inv.not_descriptors layout live inside, ?_⟩
  intro page table inside'
  have ne : b ≠ (page, 1) := by
    rintro rfl
    rw [← List.cons_append, List.mem_append] at table
    rcases table with old | fresh
    · exact other old
    · exact fresh_of_live on.inv grown.live (List.mem_map_of_mem (List.mem_reverse.2 fresh)) mem rfl
  have apart := on.inv.blocks_apart live (on.live page table) ne
  unfold RegionsApart at apart
  unfold bytesAt at inside inside'
  simp only at apart
  omega

theorem MappedHeap.Inv.call (inv : s.Inv mm) (layout : mm.Layout)
    (low : mm.allocStart + 4096 * mm.numberOfPages ≤ 2 ^ 56) {i : Nat} {t : MappedTable}
    (at_i : s.tables[i]? = some t) {c : Call} (ok : c.WithinBounds)
    (run : s.heap.runCall mm.allocStart t.root c = some h) :
    ∃ new, h.live = new.reverse.map (·, 1) ++ s.heap.live ∧
      MappedHeap.Inv mm ⟨h, s.tables.set i ⟨t.root, t.calls ++ [c], t.pages ++ new⟩⟩ ∧
      ∀ b ∈ s.heap.live, b.1 ∉ t.all →
        AgreeOn (bytesAt b.1 (PAGE_SIZE * b.2)) s.heap.memory h.memory := by
  have held := inv.held i t at_i
  obtain ⟨new, on, holds, grown⟩ := held.on.runCall layout low held.holds ok run
  have entries : lastEntry (t.calls ++ [c]) = fun page => c.entry page (lastEntry t.calls page) := by
    funext page
    rw [lastEntry, List.foldl_append]
    rfl
  have fresh : ∀ (j : Nat) (u : MappedTable), s.tables[j]? = some u → ∀ x ∈ new, x ∉ u.all := by
    intro j u at_j x mem mem'
    exact fresh_of_live on.inv grown.live (List.mem_map_of_mem (List.mem_reverse.2 mem))
      ((inv.held j u at_j).on.live x mem') rfl
  -- the table of the call, or another one
  have cases : ∀ (j : Nat) (u : MappedTable),
      (s.tables.set i ⟨t.root, t.calls ++ [c], t.pages ++ new⟩)[j]? = some u →
      (j = i ∧ u = ⟨t.root, t.calls ++ [c], t.pages ++ new⟩) ∨ (j ≠ i ∧ s.tables[j]? = some u) := by
    intro j u at_j
    by_cases same : i = j
    · subst same
      rw [List.getElem?_set_self (List.getElem?_eq_some_iff.1 at_i).1] at at_j
      exact .inl ⟨rfl, (Option.some.inj at_j).symm⟩
    · rw [List.getElem?_set_ne same] at at_j
      exact .inr ⟨Ne.symm same, at_j⟩
  have separate : ∀ (j : Nat) (u : MappedTable), j ≠ i → s.tables[j]? = some u →
      ∀ x ∈ t.root :: (t.pages ++ new), x ∉ u.all := by
    intro j u ne at_j x mem
    rw [← List.cons_append, List.mem_append] at mem
    rcases mem with old | taken
    · exact inv.apart i j t u (Ne.symm ne) at_i at_j x old
    · exact fresh j u at_j x taken
  refine ⟨new, grown.live, ⟨on.inv, fun j u at_j => ?_, fun j k u w ne at_j at_k x mem mem' => ?_⟩,
    fun b mem other => grown.beside on layout mem other⟩
  · rcases cases j u at_j with ⟨rfl, rfl⟩ | ⟨ne, old⟩
    · refine ⟨on, entries ▸ holds, fun d mem => ?_⟩
      rcases List.mem_append.1 mem with before | last
      · exact held.within d before
      · exact List.mem_singleton.1 last ▸ ok
    · have held' := inv.held j u old
      refine held'.keep on.inv (fun x mem => ?_) fun page mem x inside => ?_
      · rw [grown.live]
        exact List.mem_append_right _ (held'.on.live x mem)
      · exact grown.beside on layout (held'.on.live page mem)
          (inv.apart j i u t ne old at_i page mem) x (by rwa [Nat.mul_one])
  · rcases cases j u at_j with ⟨rfl, rfl⟩ | ⟨ne₁, old₁⟩
    · rcases cases k w at_k with ⟨rfl, -⟩ | ⟨ne₂, old₂⟩
      · exact ne rfl
      · exact separate k w ne₂ old₂ x mem mem'
    · rcases cases k w at_k with ⟨rfl, rfl⟩ | ⟨ne₂, old₂⟩
      · exact separate j u ne₁ old₁ x mem' mem
      · exact inv.apart j k u w ne old₁ old₂ x mem mem'

end Steps

/-- The pages that `map` took are those that became live. -/
theorem taken_eq {new : List Nat} {live live' : List (Nat × Nat)}
    (eq : live' = new.reverse.map (·, 1) ++ live) :
    ((live'.take (live'.length - live.length)).map Prod.fst).reverse = new := by
  rw [eq, List.length_append, Nat.add_sub_cancel, List.take_left, List.map_map]
  simp [Function.comp_def]

section Runs

variable {heapStart heapSize : BitVec 64}

theorem MappedHeap.Inv.step {mm : MemoryManager} {s s' : MappedHeap} (inv : s.Inv mm)
    (layout : mm.Layout) (low : mm.allocStart + 4096 * mm.numberOfPages ≤ 2 ^ 56) {fuel : Nat}
    (enough : mm.numberOfPages < fuel) {e : TableEvent} (step : s.Step mm.allocStart fuel e s') :
    s'.Inv mm ∧ ∀ i c, e = .call i c → ∀ t, s.tables[i]? = some t → ∀ b ∈ s.heap.live, b.1 ∉ t.all →
      b ∈ s'.heap.live ∧ AgreeOn (bytesAt b.1 (PAGE_SIZE * b.2)) s.heap.memory s'.heap.memory := by
  obtain ⟨allowed, run⟩ := step
  cases e with
  | page a =>
    obtain ⟨h, acted, rfl⟩ := Option.map_eq_some_iff.1 run
    exact ⟨inv.page layout enough allowed acted, fun i c call => by cases call⟩
  | create =>
    obtain ⟨⟨root, h⟩, made, rfl⟩ := Option.map_eq_some_iff.1 run
    exact ⟨inv.create layout low made, fun i c call => by cases call⟩
  | call i c =>
    simp only [MappedHeap.run, Option.bind_eq_bind, Option.bind_eq_some_iff, Option.some.injEq] at run
    obtain ⟨t, at_i, h, run, rfl⟩ := run
    obtain ⟨new, live, inv', beside⟩ := inv.call layout low at_i allowed run
    rw [taken_eq live]
    refine ⟨inv', fun j d same u at_j b mem other => ?_⟩
    rw [TableEvent.call.injEq] at same
    obtain ⟨rfl, rfl⟩ := same
    obtain rfl := Option.some.inj (at_i.symm.trans at_j)
    refine ⟨?_, beside b mem other⟩
    rw [live]
    exact List.mem_append_right _ mem

theorem init_mappedHeap (bounds : HeapBounds heapStart heapSize) (m : Memory) :
    MappedHeap.Inv (initialManager heapStart heapSize)
      ⟨⟨(MemoryManager.init heapStart heapSize m).2, []⟩, []⟩ where
  heap := init_inv bounds m
  held _ _ at_i := absurd (List.mem_of_getElem? at_i) List.not_mem_nil
  apart _ _ _ _ _ at_i := absurd (List.mem_of_getElem? at_i) List.not_mem_nil

/-- **Page tables are finite maps of their own**, in any interleaving of the calls on them with the
other uses of the allocator: a table translates an Sv39 address by the last of its own calls that
covers the page, and the next call on it lets all blocks beside its own pages be. -/
theorem page_tables_apart (bounds : HeapBounds heapStart heapSize)
    (low : heapStart.toNat + heapSize.toNat + heapSize.toNat / 4096 + 4096 ≤ 2 ^ 56) (m : Memory)
    {fuel : Nat} (enough : heapSize.toNat / 4096 < fuel) {es : List TableEvent} {s : MappedHeap}
    (run : Transition.Run (MappedHeap.Step (MemoryManager.init heapStart heapSize m).1 fuel)
      ⟨⟨(MemoryManager.init heapStart heapSize m).2, []⟩, []⟩ es s) :
    (∀ t ∈ s.tables, ∀ a : BitVec 64, a.toNat < 2 ^ 39 →
      (translate s.heap.memory t.root (.ofU64 a)).toOption.map (·.getValue.toNat) =
        (lastTarget t.calls (a.toNat / 4096)).map fun page => 4096 * page + a.toNat % 4096) ∧
    ∀ i c s', s.Step (MemoryManager.init heapStart heapSize m).1 fuel (.call i c) s' →
      ∀ t, s.tables[i]? = some t → ∀ b ∈ s.heap.live, b.1 ∉ t.all →
        b ∈ s'.heap.live ∧ AgreeOn (bytesAt b.1 (PAGE_SIZE * b.2)) s.heap.memory s'.heap.memory := by
  have layout := initialManager_layout bounds
  rw [init_allocStart bounds m] at run ⊢
  have top : (initialManager heapStart heapSize).allocStart +
      4096 * (initialManager heapStart heapSize).numberOfPages ≤ 2 ^ 56 := by
    simp only [initialManager]
    omega
  have inv : s.Inv (initialManager heapStart heapSize) := run.invariant
    (fun s e s' inv step => (inv.step layout top enough step).1) (init_mappedHeap bounds m)
  refine ⟨fun t mem a ha => ?_, fun i c s' step => (inv.step layout top enough step).2 i c rfl⟩
  obtain ⟨i, at_i⟩ := List.getElem?_of_mem mem
  exact (inv.held i t at_i).translate ha

/-- A table can be made with one page in it, where four pages are free. -/
theorem MappedHeap.Inv.make_table {mm : MemoryManager} {s : MappedHeap} (inv : s.Inv mm)
    (layout : mm.Layout) (low : mm.allocStart + 4096 * mm.numberOfPages ≤ 2 ^ 56) (fuel : Nat)
    {c : Call} (ok : c.WithinBounds) {n : Nat}
    (room : HasRoom s.heap mm.allocStart (1 + (n + 2 * c.pages))) :
    ∃ s' t, Transition.Run (MappedHeap.Step mm.allocStart fuel) s
        [.create, .call s.tables.length c] s' ∧
      s'.tables = s.tables ++ [t] ∧ t.calls = [c] ∧ HasRoom s'.heap mm.allocStart n := by
  obtain ⟨root, h, made, room₁⟩ := inv.heap.zalloc_room layout (Nat.le_refl 1) room
  have inv₁ := inv.create layout low made
  have at_last : (s.tables ++ [⟨root, [], []⟩])[s.tables.length]? = some ⟨root, [], []⟩ := by
    rw [List.getElem?_append_right (Nat.le_refl _), Nat.sub_self]
    rfl
  have held := inv₁.held _ _ at_last
  obtain ⟨h', mapped, room₂⟩ := held.on.runCall_room layout low held.holds ok room₁
  have step₁ : MappedHeap.Step mm.allocStart fuel s .create ⟨h, s.tables ++ [⟨root, [], []⟩]⟩ := by
    refine ⟨trivial, ?_⟩
    rw [MappedHeap.run, made]
    rfl
  obtain ⟨pages, took⟩ : ∃ pages, pages =
      ((h'.live.take (h'.live.length - h.live.length)).map Prod.fst).reverse := ⟨_, rfl⟩
  have step₂ : MappedHeap.Step mm.allocStart fuel ⟨h, s.tables ++ [(⟨root, [], []⟩ : MappedTable)]⟩
      (.call s.tables.length c)
      ⟨h', (s.tables ++ [(⟨root, [], []⟩ : MappedTable)]).set s.tables.length ⟨root, [c], pages⟩⟩ := by
    refine ⟨ok, ?_⟩
    simp only [MappedHeap.run, at_last, Option.bind_eq_bind, Option.bind_some]
    rw [mapped, took]
    rfl
  refine ⟨_, ⟨root, [c], pages⟩, .cons step₁ (.cons step₂ (.nil _)), ?_, rfl, room₂⟩
  rw [List.set_append_right _ _ (Nat.le_refl _), Nat.sub_self]
  rfl

end Runs

/-- Two tables send one page to two places. -/
theorem page_tables_apart_two :
    ∃ (s : MappedHeap) (t u : MappedTable), s.tables = [t, u] ∧
      (translate s.heap.memory t.root (.ofU64 0x1234)).toOption.map (·.getValue.toNat) = some 0x5234 ∧
      (translate s.heap.memory u.root (.ofU64 0x1234)).toOption.map (·.getValue.toNat) =
        some 0x9234 := by
  have bounds : HeapBounds 0x80001000 0x10000 := ⟨by decide, by decide⟩
  have layout := initialManager_layout bounds
  have room := init_hasRoom bounds (fun _ => 0) (show 1 + 6 ≤ _ by decide)
  have low : (initialManager 0x80001000 0x10000).allocStart +
      4096 * (initialManager 0x80001000 0x10000).numberOfPages ≤ 2 ^ 56 := by decide
  have start := init_mappedHeap bounds fun _ => 0
  have okT : (Call.map 0x1000 0x5000 2).WithinBounds := ⟨by decide, by decide, by decide⟩
  have okU : (Call.map 0x1000 0x9000 6).WithinBounds := ⟨by decide, by decide, by decide⟩
  obtain ⟨s₁, t, run₁, tables₁, calls₁, room₁⟩ := start.make_table layout low 17 okT (n := 3) room
  have inv₁ : s₁.Inv _ :=
    run₁.invariant (fun s e s' inv step => (inv.step layout low (by decide) step).1) start
  obtain ⟨s₂, u, run₂, tables₂, calls₂, -⟩ := inv₁.make_table layout low 17 okU (n := 0) room₁
  have run := run₁.append run₂
  rw [← init_allocStart bounds fun _ => 0] at run
  have translated := (page_tables_apart bounds (by decide) (fun _ => 0) (by decide) run).1
  rw [tables₁, List.nil_append] at tables₂
  refine ⟨s₂, t, u, tables₂, ?_, ?_⟩
  · rw [translated t (by rw [tables₂]; exact List.mem_cons_self) _ (by decide), calls₁]
    decide
  · rw [translated u (by rw [tables₂]; exact List.mem_cons_of_mem _ List.mem_cons_self) _ (by decide),
      calls₂]
    decide

end MatteOS.Memory
