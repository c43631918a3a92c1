import MatteOS.Memory.Verify.KernelHeap

/-!
# Runs of the kernel heap

In every state reached from the constructor the chunks tile the arena and the taken
ones are the live pointers (`KernelHeap.Inv`). The arena is a block of the page
allocator, so the invariant of that allocator is where a run begins.
-/

namespace MatteOS.Memory

open ByteMemory Tiling KernelMemoryAllocator

/-- What a caller may do: ask for at most `2 ^ 63` bytes when a free chunk is large enough, give
back a live pointer, and write to the payload of a live pointer. -/
def HeapAction.Allowed (k : KernelMemoryAllocator) (s : KernelHeap) : HeapAction → Prop
  | .kmalloc sz => 1 ≤ sz.toNat ∧ sz.toNat ≤ 2 ^ 63 ∧
      ∃ cs, Walk k s.memory cs ∧ ∃ c ∈ cs, Fits (needed sz) c
  | .kfree ptr => ∃ sz, (ptr, sz) ∈ s.live
  | .write address _ => ∃ b ∈ s.live, b.1 ≤ address ∧
      address < b.1 - 8 + (AllocHeader.load s.memory (b.1 - 8)).getSize

/-- One action of such a caller. -/
def KernelHeap.Step (k : KernelMemoryAllocator) (fuel : Nat) (s : KernelHeap) (a : HeapAction)
    (s' : KernelHeap) : Prop :=
  a.Allowed k s ∧ a.run k fuel s = some s'

/-- The chunks `cs` tile the arena, and the taken ones are the live pointers. -/
structure KernelHeap.Inv (k : KernelMemoryAllocator) (s : KernelHeap) (cs : List AllocHeader) :
    Prop where
  walk : Walk k s.memory cs
  live : (s.live.map (·.1)).Perm ((takenFrom k.head cs).map (·.1 + 8))
  owned : ∀ b ∈ s.live, ∃ c, (b.1 - 8, c) ∈ takenFrom k.head cs ∧ 8 ≤ b.1 ∧
    b.2.toNat + 8 ≤ c.getSize

namespace KernelHeap.Inv

variable {k : KernelMemoryAllocator} {s : KernelHeap} {cs : List AllocHeader}

theorem addresses_nodup (inv : s.Inv k cs) : ((takenFrom k.head cs).map (·.1)).Nodup := by
  have order := (places_pairwise AllocHeader.getSize k.head cs).filter (·.2.isTaken)
  refine List.pairwise_map.2 (order.imp_of_mem fun {p q} hp hq le => ?_)
  have size : 0 < p.2.getSize := by
    obtain ⟨_, _, split, -⟩ := exists_of_mem_places (List.mem_filter.1 hp).1
    exact inv.walk.pos p.2 (by rw [split]; simp)
  omega

theorem live_nodup (inv : s.Inv k cs) : (s.live.map (·.1)).Nodup := by
  refine (inv.live.nodup_iff).2 ?_
  have nodup := inv.addresses_nodup.map (f := (· + 8)) fun a b h => Nat.add_right_cancel h
  rwa [List.map_map] at nodup

/-- A live pointer is known by its address. -/
theorem eq_of_ptr (inv : s.Inv k cs) {b c : Nat × BitVec 64} (hb : b ∈ s.live) (hc : c ∈ s.live)
    (e : b.1 = c.1) : b = c :=
  List.inj_on_of_nodup_map inv.live_nodup hb hc e

/-- Writes to the payload of a live pointer keep the invariant. -/
theorem write (inv : s.Inv k cs) {b : Nat × BitVec 64} (hb : b ∈ s.live) {address : Nat}
    (low : b.1 ≤ address)
    (high : address < b.1 - 8 + (AllocHeader.load s.memory (b.1 - 8)).getSize)
    (value : BitVec 8) : KernelHeap.Inv k { s with memory := store8 s.memory address value } cs := by
  obtain ⟨c, hc, ge, -⟩ := inv.owned b hb
  have place := (mem_takenFrom.1 hc).1
  have header := inv.walk.tiles.header_eq place
  simp only at header
  rw [header] at high
  refine ⟨⟨inv.walk.tiles.congr fun p hp => ?_, inv.walk.whole, inv.walk.sizes⟩, inv.live, inv.owned⟩
  -- the written byte is behind the header of its own chunk, and outside of every other one
  refine AllocHeader.load_congr fun x h1 h2 => store8_apply_of_ne _ _ ?_
  by_cases e : p = (b.1 - 8, c)
  · rw [e] at h2
    simp only at h2
    omega
  · have apart := places_apart hp place e
    have size : 16 ≤ p.2.getSize := by
      obtain ⟨_, _, split, -⟩ := exists_of_mem_places hp
      exact (inv.walk.sizes p.2 (by rw [split]; simp)).2
    change p.1 + p.2.getSize ≤ b.1 - 8 ∨ b.1 - 8 + c.getSize ≤ p.1 at apart
    omega

/-- The state after `kmalloc` took the chunk `c`. -/
theorem takeChunk {l r : List AllocHeader} {c : AllocHeader} (inv : s.Inv k (l ++ c :: r))
    {sz : BitVec 64} (pos : 1 ≤ sz.toNat) (fit : Fits (needed sz) c) :
    KernelHeap.Inv k
        { memory := takeChunk s.memory (k.head + total AllocHeader.getSize l) (needed sz)
          live := (k.head + total AllocHeader.getSize l + 8, sz) :: s.live }
        (l ++ splitChunk (needed sz) c ++ r) ∧
      Kept (takenFrom k.head (l ++ c :: r)) s.memory
        (KernelMemoryAllocator.takeChunk s.memory (k.head + total AllocHeader.getSize l)
          (needed sz)) := by
  have live := inv.live
  have owned := inv.owned
  obtain ⟨walk', kept, d, room, before, after⟩ := takeChunk_walk inv.walk (needed sz) fit
    (by unfold needed; omega) (by unfold needed; omega) rfl
  refine ⟨⟨walk', ?_, ?_⟩, kept⟩
  · rw [before] at live
    rw [after, List.map_append, List.map_cons]
    rw [List.map_append] at live
    exact (live.cons _).trans List.perm_middle.symm
  · intro b hb
    rcases List.mem_cons.1 hb with rfl | hb
    · refine ⟨d, ?_, by simp only; omega, ?_⟩
      · rw [after, Nat.add_sub_cancel]
        simp
      · unfold needed at room
        simp only
        omega
    · obtain ⟨c', hc, ge, size⟩ := owned b hb
      refine ⟨c', ?_, ge, size⟩
      rw [before] at hc
      rw [after]
      rcases List.mem_append.1 hc with h | h
      · exact List.mem_append_left _ h
      · exact List.mem_append_right _ (List.mem_cons_of_mem _ h)

theorem kmalloc (inv : s.Inv k cs) (arena : k.Arena) {sz : BitVec 64} (pos : 1 ≤ sz.toNat)
    (le : sz.toNat ≤ 2 ^ 63) (fits : ∃ c ∈ cs, Fits (needed sz) c) {fuel : Nat}
    (enough : k.totalSize < fuel) :
    ∃ ptr m cs', k.kmalloc fuel s.memory sz = some (ptr, m) ∧ ptr ≠ 0 ∧
      KernelHeap.Inv k { memory := m, live := (ptr, sz) :: s.live } cs' ∧
      Kept (takenFrom k.head cs) s.memory m := by
  obtain ⟨l, c, r, rfl, fit, -, run⟩ := kmalloc_spec arena inv.walk pos le fits enough
  obtain ⟨inv', kept⟩ := inv.takeChunk pos fit
  exact ⟨_, _, _, run, by omega, inv', kept⟩

theorem kfree (inv : s.Inv k cs) (arena : k.Arena) {b : Nat × BitVec 64} (hb : b ∈ s.live)
    {fuel : Nat} (enough : k.totalSize < fuel) :
    ∃ m cs', k.kfree fuel s.memory b.1 = some m ∧
      KernelHeap.Inv k { memory := m, live := s.live.eraseP (·.1 == b.1) } cs' ∧
      takenFrom k.head cs' = (takenFrom k.head cs).filter (·.1 + 8 ≠ b.1) ∧
      Kept (takenFrom k.head cs') s.memory m := by
  obtain ⟨c, hc, ge, -⟩ := inv.owned b hb
  obtain ⟨m, cs', run, walk, without, kept⟩ := kfree_spec arena inv.walk hc enough
  simp only [Nat.sub_add_cancel ge] at run
  have filter : takenFrom k.head cs' = (takenFrom k.head cs).filter (·.1 + 8 ≠ b.1) := by
    rw [without]
    refine List.filter_congr fun p _ => ?_
    have same : p.1 = b.1 - 8 ↔ p.1 + 8 = b.1 := by omega
    simp only [ne_eq, same]
  obtain ⟨b', l₁, l₂, before, eq, split, left⟩ := List.exists_of_eraseP (p := (·.1 == b.1)) hb (by simp)
  obtain rfl : b' = b := inv.eq_of_ptr (by rw [split]; simp) hb (by simpa using eq)
  have nodup := inv.live_nodup
  rw [split, List.map_append, List.map_cons] at nodup
  have others : ∀ d ∈ l₁ ++ l₂, d ∈ s.live ∧ d.1 ≠ b'.1 := by
    intro d hd
    have front := List.perm_middle.nodup_iff.1 nodup
    rw [List.nodup_cons, ← List.map_append] at front
    refine ⟨?_, fun e => front.1 (e ▸ List.mem_map_of_mem hd)⟩
    rw [split]
    rcases List.mem_append.1 hd with h | h
    · exact List.mem_append_left _ h
    · exact List.mem_append_right _ (List.mem_cons_of_mem _ h)
  refine ⟨m, cs', run, ⟨walk, ?_, ?_⟩, filter, kept⟩
  · -- both sides lose the one pointer
    have live := inv.live.filter (· ≠ b'.1)
    rw [List.filter_map, List.filter_map] at live
    rw [left, filter]
    refine (List.Perm.of_eq ?_).trans live
    rw [split, List.filter_append, List.filter_cons]
    have keepAll : ∀ ds : List (Nat × BitVec 64), (∀ d ∈ ds, d.1 ≠ b'.1) →
        ds.filter ((fun x => decide (x ≠ b'.1)) ∘ fun x => x.1) = ds := fun ds h =>
      List.filter_eq_self.2 fun d hd => by simpa using h d hd
    rw [keepAll l₁ fun d hd => (others d (List.mem_append_left _ hd)).2,
      keepAll l₂ fun d hd => (others d (List.mem_append_right _ hd)).2]
    simp
  · intro d hd
    rw [left] at hd
    obtain ⟨hd, ne⟩ := others d hd
    obtain ⟨c', hc', ge', size⟩ := inv.owned d hd
    refine ⟨c', ?_, ge', size⟩
    rw [filter]
    refine List.mem_filter.2 ⟨hc', ?_⟩
    simpa [Nat.sub_add_cancel ge'] using ne

/-- An allowed action has an outcome, which keeps the invariant. -/
theorem step (inv : s.Inv k cs) (arena : k.Arena) {a : HeapAction} (allowed : a.Allowed k s)
    {fuel : Nat} (enough : k.totalSize < fuel) :
    ∃ s' cs', a.run k fuel s = some s' ∧ s'.Inv k cs' := by
  cases a with
  | kmalloc sz =>
    obtain ⟨pos, le, ds, walk, fits⟩ := allowed
    obtain rfl := inv.walk.unique walk
    obtain ⟨ptr, m, cs', run, ne, inv', -⟩ := inv.kmalloc arena pos le fits enough
    refine ⟨_, cs', ?_, inv'⟩
    rw [HeapAction.run, run, Option.map_some]
    simp only [if_neg ne]
  | kfree ptr =>
    obtain ⟨sz, hb⟩ := allowed
    obtain ⟨m, cs', run, inv', -⟩ := inv.kfree arena hb enough
    exact ⟨_, cs', by rw [HeapAction.run, run]; rfl, inv'⟩
  | write address value =>
    obtain ⟨b, hb, low, high⟩ := allowed
    exact ⟨_, cs, rfl, inv.write hb low high value⟩

end KernelHeap.Inv

/-! ## The constructor -/

section Construct

variable {mm : MemoryManager} {h : PageHeap} (layout : mm.Layout) (inv : h.Inv mm)
  (room : HasRoom h mm.allocStart ALLOCATION_SIZE)
  (ram : mm.allocStart + PAGE_SIZE * mm.numberOfPages ≤ 2 ^ 56)

include layout inv room ram

omit ram in
/-- The arena is a block of pages, which reads as zero behind its first header. -/
theorem construct_block :
    (∃ i, i + ALLOCATION_SIZE ≤ mm.numberOfPages ∧
      (construct h.memory mm.allocStart).1.head = mm.allocStart + PAGE_SIZE * i) ∧
    ∀ a, (construct h.memory mm.allocStart).1.head + 8 ≤ a →
      a < (construct h.memory mm.allocStart).1.head + PAGE_SIZE * ALLOCATION_SIZE →
        (construct h.memory mm.allocStart).2 a = 0 := by
  obtain ⟨i, m, run, kpos, fits, -⟩ := inv.alloc_spec layout (by decide) room
  obtain ⟨ptr, memory, -⟩ := inv.zreturned layout (by decide) room
  rw [run] at ptr memory
  generalize hz : MemoryManager.zalloc h.memory mm.allocStart ALLOCATION_SIZE = z at ptr memory
  obtain ⟨head, zm⟩ := z
  simp only at ptr memory
  simp only [construct, hz]
  refine ⟨⟨i, fits, ptr⟩, fun a low high => ?_⟩
  simp only [AllocHeader.setSize, AllocHeader.setFree]
  rw [AllocHeader.store_apply_of_outside _ _ (Or.inr low),
    AllocHeader.store_apply_of_outside _ _ (Or.inr low), memory, ← ptr]
  exact clear_apply_inside _ (by omega) high

/-- The constructor leaves one free chunk in a fresh arena. -/
theorem construct_inv :
    (construct h.memory mm.allocStart).1.Arena ∧
      (construct h.memory mm.allocStart).1.totalSize = 262144 ∧
      KernelHeap.Inv (construct h.memory mm.allocStart).1
        { memory := (construct h.memory mm.allocStart).2, live := [] }
        [{ size := 262144, taken := 0 }] := by
  obtain ⟨i, m, run, kpos, fits, -⟩ := inv.alloc_spec layout (by decide) room
  obtain ⟨ptr, -, -⟩ := inv.zreturned layout (by decide) room
  rw [run] at ptr
  have aligned := layout.aligned
  generalize hz : MemoryManager.zalloc h.memory mm.allocStart ALLOCATION_SIZE = z at ptr
  obtain ⟨head, zm⟩ := z
  simp only at ptr
  have whole : ALLOCATION_SIZE * PAGE_SIZE = 262144 := rfl
  simp only [construct, hz, whole]
  unfold PAGE_SIZE at ram aligned ptr
  refine ⟨⟨by simp only; omega, by simp only; omega, by simp only; omega⟩, trivial, ?_⟩
  refine ⟨⟨⟨?_, trivial⟩, rfl, ?_⟩, ?_, fun b hb => absurd hb List.not_mem_nil⟩
  · simp only [AllocHeader.setSize, AllocHeader.setFree, AllocHeader.load_store]
    rfl
  · simp only [List.mem_singleton, forall_eq]
    decide
  · exact List.Perm.refl _

end Construct

/-! ## Every reachable state -/

/-- What holds of the arena and the live pointers in a state with chunks `cs`, and what the next
`kfree` and `get_statistics` do. -/
structure KernelHeap.WellKept (k : KernelMemoryAllocator) (fuel : Nat) (s : KernelHeap)
    (cs : List AllocHeader) : Prop where
  /-- Walking headers partitions the arena; sizes are multiples of 8, at least 16. -/
  walk : Walk k s.memory cs
  /-- A live pointer is the payload of exactly one taken chunk, with the room asked for. -/
  owned : ∀ b ∈ s.live, ∃ c, (b.1 - 8, c) ∈ takenFrom k.head cs ∧ 8 ≤ b.1 ∧
    b.2.toNat ≤ c.getSize - 8 ∧ ∀ p ∈ takenFrom k.head cs, p.1 + 8 = b.1 → p = (b.1 - 8, c)
  /-- There is no taken chunk beside those of the live pointers. -/
  noLeak : ∀ p ∈ takenFrom k.head cs, ∃ b ∈ s.live, b.1 = p.1 + 8
  /-- Payloads are aligned and inside the arena. -/
  placed : ∀ b ∈ s.live, ∀ c, (b.1 - 8, c) ∈ takenFrom k.head cs →
    8 ∣ b.1 ∧ k.head + 8 ≤ b.1 ∧ b.1 + (c.getSize - 8) ≤ k.head + k.totalSize
  /-- Payloads of different live pointers are disjoint. -/
  disjoint : ∀ b ∈ s.live, ∀ b' ∈ s.live, b ≠ b' → ∀ c c',
    (b.1 - 8, c) ∈ takenFrom k.head cs → (b'.1 - 8, c') ∈ takenFrom k.head cs →
      b.1 + (c.getSize - 8) ≤ b'.1 ∨ b'.1 + (c'.getSize - 8) ≤ b.1
  /-- An allowed `kmalloc` returns a pointer that was not live, the payload of a taken chunk with
  the room asked for, and no byte of a chunk taken before changes. -/
  served : ∀ sz : BitVec 64, (HeapAction.kmalloc sz).Allowed k s →
    ∃ ptr m cs', k.kmalloc fuel s.memory sz = some (ptr, m) ∧ ptr ≠ 0 ∧ Walk k m cs' ∧
      (∀ b ∈ s.live, b.1 ≠ ptr) ∧
      (∃ c, (ptr - 8, c) ∈ takenFrom k.head cs' ∧ 8 ≤ ptr ∧ sz.toNat ≤ c.getSize - 8) ∧
      Kept (takenFrom k.head cs) s.memory m
  /-- `kfree` releases the chunk of its pointer, and no byte of another taken chunk changes. -/
  kfree : ∀ b ∈ s.live, ∃ m cs', k.kfree fuel s.memory b.1 = some m ∧ Walk k m cs' ∧
    takenFrom k.head cs' = (takenFrom k.head cs).filter (·.1 + 8 ≠ b.1) ∧
    Kept (takenFrom k.head cs') s.memory m
  /-- The statistics add up. -/
  statistics : ∃ st, k.getStatistics fuel s.memory = some st ∧ st.totalSize = k.totalSize ∧
    st.freeSize + st.usedSize = st.totalSize ∧
    st.usedSize = total AllocHeader.getSize (cs.filter (·.isTaken))

theorem KernelHeap.Inv.wellKept {k : KernelMemoryAllocator} {s : KernelHeap}
    {cs : List AllocHeader} (inv : s.Inv k cs) (arena : k.Arena) {fuel : Nat}
    (enough : k.totalSize < fuel) : s.WellKept k fuel cs where
  walk := inv.walk
  owned b hb := by
    obtain ⟨c, hc, ge, size⟩ := inv.owned b hb
    refine ⟨c, hc, ge, by omega, fun p hp e => ?_⟩
    exact inv.walk.eq_of_address (mem_takenFrom.1 hp).1 (mem_takenFrom.1 hc).1 (by simp only; omega)
  noLeak p hp := by
    have mem : p.1 + 8 ∈ s.live.map (·.1) :=
      inv.live.mem_iff.2 (List.mem_map.2 ⟨p, hp, rfl⟩)
    obtain ⟨b, hb, e⟩ := List.mem_map.1 mem
    exact ⟨b, hb, e⟩
  placed b hb c hc := by
    obtain ⟨-, -, ge, -⟩ := inv.owned b hb
    have place := (mem_takenFrom.1 hc).1
    have within := le_places place
    rw [inv.walk.whole] at within
    obtain ⟨l, r, e, address⟩ := exists_of_mem_places place
    have aligned := inv.walk.dvd_total e
    have size := inv.walk.sizes c (by rw [e]; simp)
    have head := arena.aligned
    simp only at within address
    omega
  disjoint b hb b' hb' ne c c' hc hc' := by
    obtain ⟨d, hd, ge, -⟩ := inv.owned b hb
    obtain ⟨d', hd', ge', -⟩ := inv.owned b' hb'
    have address : b.1 ≠ b'.1 := fun e => ne (inv.eq_of_ptr hb hb' e)
    have apart := places_apart (mem_takenFrom.1 hc).1 (mem_takenFrom.1 hc').1 fun e => by
      have := congrArg Prod.fst e
      simp only at this
      omega
    simp only at apart
    omega
  served sz allowed := by
    obtain ⟨pos, le, ds, walk, fits⟩ := allowed
    obtain rfl := inv.walk.unique walk
    obtain ⟨ptr, m, cs', run, ne, inv', kept⟩ := inv.kmalloc arena pos le fits enough
    obtain ⟨c, hc, ge, size⟩ := inv'.owned (ptr, sz) List.mem_cons_self
    simp only at hc ge size
    refine ⟨ptr, m, cs', run, ne, inv'.walk, fun b hb e => ?_, ⟨c, hc, ge, by omega⟩, kept⟩
    -- the addresses of the live pointers stay different, so the new one is none of the old
    have nodup := inv'.live_nodup
    rw [List.map_cons, List.nodup_cons] at nodup
    exact nodup.1 (List.mem_map.2 ⟨b, hb, e⟩)
  kfree b hb := by
    obtain ⟨m, cs', run, inv', filter, kept⟩ := inv.kfree arena hb enough
    exact ⟨m, cs', run, inv'.walk, filter, kept⟩
  statistics := by
    refine ⟨_, getStatistics_spec arena inv.walk enough, rfl, ?_, rfl⟩
    have sum := usedBytes_add_freeBytes cs
    rw [inv.walk.whole] at sum
    simp only
    omega

/-- The invariant holds in every state that callers reach. -/
theorem KernelHeap.Inv.of_run {mm : MemoryManager} {h : PageHeap} (layout : mm.Layout)
    (inv : h.Inv mm) (room : HasRoom h mm.allocStart ALLOCATION_SIZE)
    (ram : mm.allocStart + PAGE_SIZE * mm.numberOfPages ≤ 2 ^ 56) {fuel : Nat}
    (enough : 262144 < fuel) {as : List HeapAction} {s : KernelHeap}
    (run : Transition.Run (KernelHeap.Step (construct h.memory mm.allocStart).1 fuel)
      ⟨(construct h.memory mm.allocStart).2, []⟩ as s) :
    (construct h.memory mm.allocStart).1.Arena ∧
      (construct h.memory mm.allocStart).1.totalSize = 262144 ∧
      ∃ cs, s.Inv (construct h.memory mm.allocStart).1 cs := by
  obtain ⟨arena, size, init⟩ := construct_inv layout inv room ram
  refine ⟨arena, size, ?_⟩
  rw [← size] at enough
  generalize construct h.memory mm.allocStart = k at *
  refine run.invariant (I := fun s => ∃ cs, s.Inv k.1 cs) ?_ ⟨_, init⟩
  rintro s a s' ⟨cs, inv⟩ ⟨allowed, step⟩
  obtain ⟨s'', cs', out, inv'⟩ := inv.step arena allowed enough
  obtain rfl := Option.some.inj (out.symm.trans step)
  exact ⟨cs', inv'⟩

/-- **The kernel heap keeps its tiling.** Construct the heap in any state of the page allocator
that has 64 pages left, in physical memory of 56 bits. After any actions of callers that keep to
their side, the headers tile the arena, the taken chunks are the live pointers, and the next
allowed action has an outcome. -/
theorem kernel_heap_wellKept {mm : MemoryManager} {h : PageHeap} (layout : mm.Layout)
    (inv : h.Inv mm) (room : HasRoom h mm.allocStart ALLOCATION_SIZE)
    (ram : mm.allocStart + PAGE_SIZE * mm.numberOfPages ≤ 2 ^ 56) {fuel : Nat}
    (enough : 262144 < fuel) {as : List HeapAction} {s : KernelHeap}
    (run : Transition.Run (KernelHeap.Step (construct h.memory mm.allocStart).1 fuel)
      ⟨(construct h.memory mm.allocStart).2, []⟩ as s) :
    (∃ cs, s.WellKept (construct h.memory mm.allocStart).1 fuel cs) ∧
      ∀ a : HeapAction, a.Allowed (construct h.memory mm.allocStart).1 s →
        ∃ s', a.run (construct h.memory mm.allocStart).1 fuel s = some s' := by
  obtain ⟨arena, size, cs, inv⟩ := KernelHeap.Inv.of_run layout inv room ram enough run
  rw [← size] at enough
  refine ⟨⟨cs, inv.wellKept arena enough⟩, fun a allowed => ?_⟩
  obtain ⟨s', cs', out, -⟩ := inv.step arena allowed enough
  exact ⟨s', out⟩

/-- Ten bytes allocated in an arena of a heap of 256 pages. -/
theorem kernel_heap_wellKept_ten_bytes :
    ∃ s cs, s.WellKept (construct (MemoryManager.init 0x80001000 0x100000 fun _ => 0).2
        (initialManager 0x80001000 0x100000).allocStart).1 262145 cs ∧
      Transition.Run (KernelHeap.Step (construct (MemoryManager.init 0x80001000 0x100000
          fun _ => 0).2 (initialManager 0x80001000 0x100000).allocStart).1 262145)
        ⟨(construct (MemoryManager.init 0x80001000 0x100000 fun _ => 0).2
          (initialManager 0x80001000 0x100000).allocStart).2, []⟩ [.kmalloc 10] s := by
  have bounds : HeapBounds 0x80001000 0x100000 := ⟨by decide, by decide⟩
  have layout := initialManager_layout bounds
  have inv := init_inv bounds fun _ => 0
  have room := init_hasRoom bounds (fun _ => 0) (show 1 + ALLOCATION_SIZE ≤ _ by decide)
  have ram : (initialManager 0x80001000 0x100000).allocStart +
      PAGE_SIZE * (initialManager 0x80001000 0x100000).numberOfPages ≤ 2 ^ 56 := by decide
  obtain ⟨arena, size, heap⟩ := construct_inv layout inv room ram
  have allowed : (HeapAction.kmalloc 10).Allowed _ _ :=
    ⟨by decide, by decide, _, heap.walk, _, List.mem_cons_self, by unfold Fits; decide⟩
  obtain ⟨s, -, run, -⟩ := heap.step arena allowed (show _ < 262145 by rw [size]; decide)
  obtain ⟨⟨cs, kept⟩, -⟩ := kernel_heap_wellKept layout inv room ram (by decide)
    (.cons ⟨allowed, run⟩ (.nil s))
  exact ⟨s, cs, kept, .cons ⟨allowed, run⟩ (.nil s)⟩

end MatteOS.Memory
