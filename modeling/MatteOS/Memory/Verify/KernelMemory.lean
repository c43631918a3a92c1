import MatteOS.Lib.ObjectStore
import MatteOS.Lib.Simulation
import MatteOS.Memory.KernelMemory
import MatteOS.Memory.Verify.KernelHeapRuns

/-!
# The two allocators hand out objects

What callers of the page allocator and of the kernel heap hold are objects: each lies apart from all
others, whichever allocator it is from, and keeps its bytes until it is written or given back, in
every interleaving of calls (`allocators_hand_out_objects`). The page allocator keeps its
descriptors and the heap its headers out of them, and the heap does not leave its arena.
-/

namespace MatteOS.Memory

open ByteMemory Tiling BlockTable KernelMemoryAllocator ObjectStore

/-! ## The heap stays in its arena -/

/-- No byte outside of the arena has changed. -/
def KernelMemoryAllocator.StaysIn (k : KernelMemoryAllocator) (m m' : Memory) : Prop :=
  ∀ x, x < k.head ∨ k.head + k.totalSize ≤ x → m' x = m x

section Arena

variable {k : KernelMemoryAllocator} (arena : k.Arena) {m : Memory} {cs : List AllocHeader}

include arena

/-- One round of `coalesce` writes at most a header of the arena. -/
theorem coalesceBody_staysIn {m₀ : Memory} {p : Nat × Memory} (state : Merging k cs m₀ p) :
    (∀ p', coalesceBody (k.head + k.totalSize) p = .again p' → k.StaysIn p.2 p'.2) ∧
      ∀ m', coalesceBody (k.head + k.totalSize) p = .done m' → m' = p.2 := by
  obtain ⟨ptr, m₁⟩ := p
  obtain ⟨l, r, walk, place, -⟩ := state
  simp only at walk place
  have header (inside : ptr < k.head + k.totalSize) :
      ptr + (AllocHeader.load m₁ ptr).getSize ≤ k.head + k.totalSize ∧
        16 ≤ (AllocHeader.load m₁ ptr).getSize := by
    cases r with
    | nil =>
      have whole := walk.whole
      rw [List.append_nil] at whole
      omega
    | cons c r =>
      obtain ⟨here, large, fits, -⟩ := chunk_at arena walk rfl
      rw [place, here]
      exact ⟨fits, large⟩
  refine ⟨fun p' next x outside => ?_, fun m' next => ?_⟩
  · simp only [coalesceBody] at next
    by_cases inside : ptr < k.head + k.totalSize
    · obtain ⟨fits, large⟩ := header inside
      rw [if_pos inside] at next
      split at next
      · cases next
      · rw [← Loop.Next.again.inj next]
        simp only
        split
        · exact AllocHeader.store_apply_of_outside _ _ (by omega)
        · rfl
    · rw [if_neg inside] at next
      cases next
  · simp only [coalesceBody] at next
    split at next
    · split at next
      · exact (Loop.Next.done.inj next).symm
      · cases next
    · exact (Loop.Next.done.inj next).symm

theorem coalesce_staysIn (walk : Walk k m cs) {fuel : Nat} {m' : Memory}
    (run : k.coalesce fuel m = some m') : k.StaysIn m m' := by
  have top := arena.top
  have tail : (k.head + k.totalSize) % 2 ^ 64 = k.head + k.totalSize := Nat.mod_eq_of_lt (by omega)
  unfold coalesce at run
  rw [tail] at run
  obtain ⟨p, reaches, done⟩ := Loop.exists_done_of_run run
  have state : Merging k cs m p ∧ k.StaysIn m p.2 := by
    refine reaches.invariant (I := fun p => Merging k cs m p ∧ k.StaysIn m p.2)
      (fun p p' state next => ?_) ⟨⟨[], cs, walk, rfl, rfl, rfl, fun _ _ _ _ _ => rfl⟩, fun _ _ => rfl⟩
    refine ⟨?_, fun x outside => ?_⟩
    · rcases state.1.step arena with ⟨p'', body, state', -⟩ | ⟨_, body, -⟩
      · rw [← Loop.Next.again.inj (body.symm.trans next)]
        exact state'
      · cases body.symm.trans next
    · rw [(coalesceBody_staysIn arena state.1).1 p' next x outside]
      exact state.2 x outside
  rw [(coalesceBody_staysIn arena state.1).2 m' done]
  exact state.2

theorem kmalloc_staysIn (walk : Walk k m cs) {sz : BitVec 64} (pos : 1 ≤ sz.toNat)
    (le : sz.toNat ≤ 2 ^ 63) (fits : ∃ c ∈ cs, Fits (needed sz) c) {fuel : Nat}
    (enough : k.totalSize < fuel) {r : Nat × Memory} (run : k.kmalloc fuel m sz = some r) :
    k.StaysIn m r.2 := by
  obtain ⟨l, c, rest, e, fit, -, run'⟩ := kmalloc_spec arena walk pos le fits enough
  obtain ⟨header, large, inside, -⟩ := chunk_at arena walk e
  rw [← Option.some.inj (run'.symm.trans run)]
  intro x outside
  exact takeChunk_apply_of_outside fit header (by omega) (by omega)

theorem kfree_staysIn (walk : Walk k m cs) {p : Nat × AllocHeader}
    (hp : p ∈ takenFrom k.head cs) {fuel : Nat} {m' : Memory}
    (run : k.kfree fuel m (p.1 + 8) = some m') : k.StaysIn m m' := by
  have top := arena.top
  obtain ⟨place, -⟩ := mem_takenFrom.1 hp
  obtain ⟨a, c⟩ := p
  obtain ⟨l, r, rfl, address⟩ := exists_of_mem_places place
  simp only at address run
  obtain ⟨header, large, inside, -⟩ := chunk_at (c := c) arena walk rfl
  rw [← address] at header inside
  have alloc : (a + 8 + (2 ^ 64 - 8)) % 2 ^ 64 = a := by omega
  rw [kfree, if_neg (by omega), alloc] at run
  have frame (x : Nat) (outside : x < k.head ∨ k.head + k.totalSize ≤ x) :
      AllocHeader.setFree m a x = m x :=
    AllocHeader.store_apply_of_outside _ _ (by omega)
  -- the walk after `set_free`
  have changed : Walk k (AllocHeader.setFree m a) (l ++ [freed c] ++ r) := by
    have split : l ++ c :: r = l ++ [c] ++ r := by simp
    rw [split] at walk
    refine walk.recut (fun x h => ?_) (by simp [freed, AllocHeader.getSize]) ⟨?_, trivial⟩
      fun b hb => ?_
    · simp only [total_cons, total_nil] at h
      exact AllocHeader.store_apply_of_outside _ _ (by omega)
    · rw [← address, AllocHeader.setFree, AllocHeader.load_store, header]
      rfl
    · rw [List.mem_singleton.1 hb]
      exact walk.sizes c (by simp)
  intro x outside
  rw [coalesce_staysIn arena changed run x outside, frame x outside]

end Arena

/-! ## What callers do -/

/-- The call of the event, with another pointer as its result. -/
def KernelMemoryEvent.returning (ptr : Nat) : KernelMemoryEvent → KernelMemoryEvent
  | .alloc pages _ => .alloc pages ptr
  | .zalloc pages _ => .zalloc pages ptr
  | .dealloc block => .dealloc block
  | .kmalloc sz _ => .kmalloc sz ptr
  | .kfree pointer => .kfree pointer
  | .write address index value => .write address index value

/-- The event on the objects. -/
def KernelMemoryEvent.action : KernelMemoryEvent → ObjectStore.Action
  | .alloc pages ptr => .allocate ptr (PAGE_SIZE * pages) false
  | .zalloc pages ptr => .allocate ptr (PAGE_SIZE * pages) true
  | .dealloc ptr => .release ptr
  | .kmalloc sz ptr => .allocate ptr sz.toNat false
  | .kfree ptr => .release ptr
  | .write ptr index value => .write ptr index value

/-- The events of callers that keep to their side: there is room for what they ask for, they give
back what they got, and they write to what they hold. None of them gives back the arena. -/
def KernelMemoryEvent.Allowed (self : Nat) (k : KernelMemoryAllocator) (s : KernelMemory) :
    KernelMemoryEvent → Prop
  | .alloc pages _ => (PageAction.alloc pages).Allowed self s.pages
  | .zalloc pages _ => (PageAction.zalloc pages).Allowed self s.pages
  | .dealloc ptr => ptr ≠ k.head ∧ (PageAction.dealloc ptr).Allowed self s.pages
  | .kmalloc sz _ => (HeapAction.kmalloc sz).Allowed k s.heap
  | .kfree ptr => (HeapAction.kfree ptr).Allowed k s.heap
  | .write ptr index _ => ∃ n, s.InUse k (ptr, n) ∧ index < n

/-- One event of such callers. -/
def KernelMemory.Step (self : Nat) (k : KernelMemoryAllocator) (fuel : Nat) (s : KernelMemory)
    (e : KernelMemoryEvent) (s' : KernelMemory) : Prop :=
  e.Allowed self k s ∧ KernelMemory.run self k fuel s e = some s'

/-- The objects that callers hold. -/
def KernelMemory.objects (k : KernelMemoryAllocator) (s : KernelMemory) : Set Object :=
  objectsIn s.memory {r | s.InUse k r}

/-- The descriptors record the blocks, of which the arena is one, and the headers in the arena the
pointers. -/
structure KernelMemory.Inv (mm : MemoryManager) (k : KernelMemoryAllocator) (s : KernelMemory) :
    Prop where
  pages : s.pages.Inv mm
  arena : (k.head, KernelMemoryAllocator.ALLOCATION_SIZE) ∈ s.blocks
  heap : ∃ cs, s.heap.Inv k cs

/-! ## Where things are -/

/-- What a list holds without the entry of a key that no other entry has. -/
theorem mem_eraseP_fst {β : Type} {l : List (Nat × β)} (nodup : (l.map Prod.fst).Nodup) {a : Nat}
    {p : Nat × β} : p ∈ l.eraseP (·.1 == a) ↔ p ∈ l ∧ p.1 ≠ a := by
  induction l with
  | nil => simp
  | cons q l ih =>
    obtain ⟨fresh, nodup⟩ := List.nodup_cons.1 nodup
    by_cases here : q.1 = a
    · rw [List.eraseP_cons_of_pos (by simpa using here)]
      refine ⟨fun mem => ⟨List.mem_cons_of_mem q mem, fun same => ?_⟩, fun ⟨mem, ne⟩ => ?_⟩
      · exact fresh (here.trans same.symm ▸ List.mem_map_of_mem mem)
      · exact (List.mem_cons.1 mem).resolve_left fun same => ne (same ▸ here)
    · rw [List.eraseP_cons_of_neg (by simpa using here), List.mem_cons, ih nodup, List.mem_cons]
      refine ⟨fun mem => ?_, fun ⟨mem, ne⟩ => mem.imp_right fun mem => ⟨mem, ne⟩⟩
      rcases mem with rfl | ⟨mem, ne⟩
      · exact ⟨.inl rfl, here⟩
      · exact ⟨.inr mem, ne⟩

section Pages

variable {mm : MemoryManager} {p : PageHeap}

/-- Blocks at different places of the list are apart. -/
theorem PageHeap.Inv.blocks_pairwise (inv : p.Inv mm) : p.live.Pairwise fun b c =>
    RegionsApart (b.1, PAGE_SIZE * b.2) (c.1, PAGE_SIZE * c.2) := by
  have apart := List.pairwise_map.1 (List.pairwise_cons.1 inv.table.apart).2
  refine apart.imp_of_mem fun {b c} hb hc apart => ?_
  have placedB := inv.placed b hb
  have placedC := inv.placed c hc
  have len (d : Nat × Nat) : (mm.block d).len = d.2 := rfl
  unfold Block.Apart at apart
  rw [len, len] at apart
  unfold RegionsApart PAGE_SIZE at *
  simp only
  omega

theorem PageHeap.Inv.ptrs_nodup (inv : p.Inv mm) : (p.live.map Prod.fst).Nodup := by
  refine List.pairwise_map.2 (inv.blocks_pairwise.imp_of_mem fun {b c} hb hc apart same => ?_)
  have posB := inv.len_pos hb
  have posC := inv.len_pos hc
  unfold RegionsApart PAGE_SIZE at apart
  simp only at apart
  omega

theorem PageHeap.Inv.blocks_apart (inv : p.Inv mm) {b c : Nat × Nat} (hb : b ∈ p.live)
    (hc : c ∈ p.live) (ne : b ≠ c) : RegionsApart (b.1, PAGE_SIZE * b.2) (c.1, PAGE_SIZE * c.2) := by
  have apart := List.pairwise_map.2 inv.blocks_pairwise
  refine apart.forall (List.mem_map_of_mem hb) (List.mem_map_of_mem hc) fun same => ne ?_
  obtain ⟨ptr, size⟩ := Prod.mk.inj same
  exact Prod.ext ptr (Nat.eq_of_mul_eq_mul_left (by decide) size)

/-- A block lies behind the descriptors and page 0. -/
theorem PageHeap.Inv.allocStart_lt (inv : p.Inv mm) {b : Nat × Nat} (hb : b ∈ p.live) :
    mm.allocStart + PAGE_SIZE ≤ b.1 := by
  have placed := inv.placed b hb
  have pos := inv.start_pos hb
  unfold PAGE_SIZE at *
  omega

end Pages

section Heap

variable {k : KernelMemoryAllocator} {h : KernelHeap} {m : Memory} {cs : List AllocHeader}

/-- What is at a live pointer is in a taken chunk, behind its header. -/
theorem KernelHeap.Inv.payload (inv : h.Inv k cs) {b : Nat × BitVec 64} (hb : b ∈ h.live) :
    ∃ c, (b.1 - 8, c) ∈ takenFrom k.head cs ∧ k.head + 8 ≤ b.1 ∧
      b.1 + b.2.toNat ≤ b.1 - 8 + c.getSize ∧
      b.1 - 8 + c.getSize ≤ k.head + k.totalSize := by
  obtain ⟨c, hc, ge, size⟩ := inv.owned b hb
  have within := le_places (mem_takenFrom.1 hc).1
  rw [inv.walk.whole] at within
  simp only at within
  exact ⟨c, hc, by omega, by omega, by omega⟩

/-- What different pointers point to is apart. -/
theorem KernelHeap.Inv.pointers_apart (inv : h.Inv k cs) {b b' : Nat × BitVec 64}
    (hb : b ∈ h.live) (hb' : b' ∈ h.live) (ne : b ≠ b') :
    RegionsApart (b.1, b.2.toNat) (b'.1, b'.2.toNat) := by
  obtain ⟨c, hc, low, fits, -⟩ := inv.payload hb
  obtain ⟨c', hc', low', fits', -⟩ := inv.payload hb'
  have apart := places_apart (mem_takenFrom.1 hc).1 (mem_takenFrom.1 hc').1 fun same => by
    have ptr : b.1 - 8 = b'.1 - 8 := congrArg Prod.fst same
    exact ne (inv.eq_of_ptr hb hb' (by omega))
  simp only at apart
  unfold RegionsApart
  simp only
  omega

/-- Only the arena matters to the walk. -/
theorem Walk.congr (walk : Walk k m cs) {m' : Memory}
    (same : ∀ x, k.head ≤ x → x < k.head + k.totalSize → m' x = m x) : Walk k m' cs := by
  refine ⟨walk.tiles.congr fun p hp => ?_, walk.whole, walk.sizes⟩
  have within := le_places hp
  rw [walk.whole] at within
  obtain ⟨_, _, split, -⟩ := exists_of_mem_places hp
  have large := (walk.sizes p.2 (by rw [split]; simp)).2
  exact AllocHeader.load_congr fun x _ _ => same x (by omega) (by omega)

/-- And to the heap. -/
theorem KernelHeap.Inv.frame (inv : h.Inv k cs)
    (same : ∀ x, k.head ≤ x → x < k.head + k.totalSize → m x = h.memory x) :
    KernelHeap.Inv k { h with memory := m } cs where
  walk := inv.walk.congr same
  live := inv.live
  owned := inv.owned

end Heap

/-! ## One event is one step of the objects -/

namespace KernelMemory.Inv

variable {mm : MemoryManager} (layout : mm.Layout) {k : KernelMemoryAllocator} (arena : k.Arena)
  (whole : k.totalSize = PAGE_SIZE * ALLOCATION_SIZE) {s : KernelMemory}

/-- What is in use lies behind page 0. -/
theorem allocStart_le (inv : s.Inv mm k) {r : Nat × Nat} (used : s.InUse k r) :
    mm.allocStart + PAGE_SIZE ≤ r.1 := by
  rcases used with ⟨pages, held, -, -⟩ | ⟨sz, held, -⟩
  · exact inv.pages.allocStart_lt (b := (r.1, pages)) held
  · obtain ⟨cs, heap⟩ := inv.heap
    obtain ⟨c, -, low, -⟩ := heap.payload (b := (r.1, sz)) held
    have start := inv.pages.allocStart_lt inv.arena
    simp only at low start
    omega

include whole

/-- What the heap gave out lies in the arena. -/
theorem pointer_inside (inv : s.Inv mm k) {b : Nat × BitVec 64} (held : b ∈ s.pointers) :
    k.head + 8 ≤ b.1 ∧ b.1 + b.2.toNat ≤ k.head + PAGE_SIZE * ALLOCATION_SIZE := by
  obtain ⟨cs, heap⟩ := inv.heap
  obtain ⟨c, -, low, fits, inside⟩ := heap.payload held
  rw [whole] at inside
  exact ⟨low, fits.trans inside⟩

/-- A block that is not the arena is apart from what is in the arena. -/
theorem block_apart_pointer (inv : s.Inv mm k) {b : Nat × Nat} (hb : b ∈ s.blocks)
    (other : b.1 ≠ k.head) {p : Nat × BitVec 64} (hp : p ∈ s.pointers) :
    RegionsApart (b.1, PAGE_SIZE * b.2) (p.1, p.2.toNat) := by
  have apart := inv.pages.blocks_apart hb inv.arena fun same => other (congrArg Prod.fst same)
  obtain ⟨low, high⟩ := inv.pointer_inside whole hp
  unfold RegionsApart at *
  simp only at *
  omega

/-- What is in use is pairwise apart. -/
theorem inUse_pairwise (inv : s.Inv mm k) :
    {r | s.InUse k r}.Pairwise RegionsApart := by
  rintro ⟨a, n⟩ used ⟨a', n'⟩ used' ne
  rcases used with ⟨pages, held, other, rfl⟩ | ⟨sz, held, rfl⟩ <;>
    rcases used' with ⟨pages', held', other', rfl⟩ | ⟨sz', held', rfl⟩
  · refine inv.pages.blocks_apart held held' fun same => ne ?_
    obtain ⟨rfl, rfl⟩ := Prod.mk.inj same
    rfl
  · exact inv.block_apart_pointer whole held other held'
  · exact (inv.block_apart_pointer whole held' other' held).symm
  · obtain ⟨cs, heap⟩ := inv.heap
    refine heap.pointers_apart held held' fun same => ne ?_
    obtain ⟨rfl, rfl⟩ := Prod.mk.inj same
    rfl

/-- A new block is an object that is allocated. -/
theorem block_added (inv : s.Inv mm k) {ptr pages : Nat} {m : Memory} (zeroed : Bool)
    (pos : 1 ≤ pages)
    (inv' : PageHeap.Inv mm { memory := m, live := (ptr, pages) :: s.blocks })
    (same : ∀ x, mm.allocStart ≤ x → x < ptr ∨ ptr + PAGE_SIZE * pages ≤ x → m x = s.memory x)
    (zeros : zeroed → ∀ x, ptr ≤ x → x < ptr + PAGE_SIZE * pages → m x = 0) :
    Inv mm k { s with memory := m, blocks := (ptr, pages) :: s.blocks } ∧
      ObjectStore.Step (s.objects k) (.allocate ptr (PAGE_SIZE * pages) zeroed)
        (objects k { s with memory := m, blocks := (ptr, pages) :: s.blocks }) := by
  have fresh (b : Nat × Nat) (hb : b ∈ s.blocks) :
      RegionsApart (ptr, PAGE_SIZE * pages) (b.1, PAGE_SIZE * b.2) :=
    (List.pairwise_cons.1 inv'.blocks_pairwise).1 b hb
  have large : 0 < PAGE_SIZE * pages := Nat.mul_pos (by decide) pos
  have freshArena := fresh _ inv.arena
  have start := inv.pages.allocStart_lt inv.arena
  have other : ptr ≠ k.head := by
    unfold RegionsApart at freshArena
    rintro rfl
    have : 0 < PAGE_SIZE * ALLOCATION_SIZE := by decide
    simp only at freshArena
    omega
  have kept : Inv mm k { s with memory := m, blocks := (ptr, pages) :: s.blocks } := by
    obtain ⟨cs, heap⟩ := inv.heap
    refine ⟨inv', List.mem_cons_of_mem _ inv.arena, cs, heap.frame fun x low high => ?_⟩
    rw [whole] at high
    unfold RegionsApart at freshArena
    simp only at freshArena start
    exact same x (by omega) (by omega)
  refine ⟨kept, ?_⟩
  have used : {r | InUse k { s with memory := m, blocks := (ptr, pages) :: s.blocks } r} =
      insert (ptr, PAGE_SIZE * pages) {r | s.InUse k r} := by
    ext ⟨a, n⟩
    simp only [InUse, Set.mem_ofPred_eq, Set.mem_insert_iff, List.mem_cons, Prod.mk.injEq]
    constructor
    · rintro (⟨n', ⟨rfl, rfl⟩ | held, ne, rfl⟩ | ⟨sz, held, rfl⟩)
      · exact .inl ⟨rfl, rfl⟩
      · exact .inr (.inl ⟨n', held, ne, rfl⟩)
      · exact .inr (.inr ⟨sz, held, rfl⟩)
    · rintro (⟨rfl, rfl⟩ | ⟨n', held, ne, rfl⟩ | ⟨sz, held, rfl⟩)
      · exact .inl ⟨pages, .inl ⟨rfl, rfl⟩, other, rfl⟩
      · exact .inl ⟨n', .inr held, ne, rfl⟩
      · exact .inr ⟨sz, held, rfl⟩
  have apart (r : Nat × Nat) (h : s.InUse k r) : RegionsApart r (ptr, PAGE_SIZE * pages) := by
    rcases h with ⟨n', held, ne, size⟩ | ⟨sz, held, size⟩
    · have away := (fresh (r.1, n') held).symm
      rwa [← size] at away
    · have away := kept.block_apart_pointer whole (b := (ptr, pages)) List.mem_cons_self other
        (p := (r.1, sz)) held
      rw [← size] at away
      exact away.symm
  rw [objects, objects, used]
  refine step_allocate _ zeroed large (fun r h i inside => ?_) apart fun zero i inside => ?_
  · have away := apart r h
    have low := inv.allocStart_le h
    unfold RegionsApart at away
    simp only at away
    exact same _ (by omega) (by omega)
  · exact zeros zero _ (Nat.le_add_right ptr i) (Nat.add_lt_add_left inside ptr)
/-- A block that is given back is an object that is released. -/
theorem block_removed (inv : s.Inv mm k) {ptr pages : Nat} {m : Memory}
    (held : (ptr, pages) ∈ s.blocks) (other : ptr ≠ k.head)
    (inv' : PageHeap.Inv mm { memory := m, live := s.blocks.eraseP (·.1 == ptr) })
    (same : ∀ x, mm.allocStart ≤ x → m x = s.memory x) :
    Inv mm k { s with memory := m, blocks := s.blocks.eraseP (·.1 == ptr) } ∧
      ObjectStore.Step (s.objects k) (.release ptr)
        (objects k { s with memory := m, blocks := s.blocks.eraseP (·.1 == ptr) }) := by
  have rest {b : Nat × Nat} : b ∈ s.blocks.eraseP (·.1 == ptr) ↔ b ∈ s.blocks ∧ b.1 ≠ ptr :=
    mem_eraseP_fst inv.pages.ptrs_nodup
  have start := inv.pages.allocStart_lt inv.arena
  refine ⟨?_, ?_⟩
  · obtain ⟨cs, heap⟩ := inv.heap
    refine ⟨inv', rest.2 ⟨inv.arena, other.symm⟩, cs, heap.frame fun x low _ => same x ?_⟩
    simp only at start
    omega
  have used : {r | InUse k { s with memory := m, blocks := s.blocks.eraseP (·.1 == ptr) } r} =
      {r | s.InUse k r} \ {(ptr, PAGE_SIZE * pages)} := by
    ext ⟨a, n⟩
    simp only [InUse, Set.mem_ofPred_eq, Set.mem_sdiff, Set.mem_singleton_iff, rest, Prod.mk.injEq]
    constructor
    · rintro (⟨n', ⟨mem, ne⟩, ne', rfl⟩ | ⟨sz, mem, rfl⟩)
      · exact ⟨.inl ⟨n', mem, ne', rfl⟩, fun same => ne same.1⟩
      · refine ⟨.inr ⟨sz, mem, rfl⟩, ?_⟩
        rintro ⟨rfl, size⟩
        -- what is in the arena is not a block beside it
        have apart := inv.block_apart_pointer whole held other mem
        have := inv.pages.len_pos held
        unfold RegionsApart PAGE_SIZE at *
        simp only at *
        omega
    · rintro ⟨⟨n', mem, ne, rfl⟩ | ⟨sz, mem, rfl⟩, away⟩
      · refine .inl ⟨n', ⟨mem, ?_⟩, ne, rfl⟩
        rintro rfl
        have same : n' = pages := congrArg Prod.snd
          (List.inj_on_of_nodup_map inv.pages.ptrs_nodup mem held rfl)
        exact away ⟨rfl, by rw [same]⟩
      · exact .inr ⟨sz, mem, rfl⟩
  rw [objects, objects, used]
  refine step_release (r := (ptr, PAGE_SIZE * pages)) (.inl ⟨pages, held, other, rfl⟩)
    fun r h i _ => same _ ?_
  have := inv.allocStart_le h.1
  omega

/-- The headers of the arena may change, and its other bytes but for those of the pointers. -/
theorem pages_of_staysIn (inv : s.Inv mm k) {m : Memory} (layout : mm.Layout)
    (stays : k.StaysIn s.memory m) : PageHeap.Inv mm { s.pages with memory := m } :=
  inv.pages.write layout inv.arena fun a outside => stays a (by
    rw [whole]
    exact outside)

/-- What is in use and is not in the arena is not changed there. -/
theorem block_of_staysIn (inv : s.Inv mm k) {m : Memory} (stays : k.StaysIn s.memory m) {b : Nat × Nat}
    (held : b ∈ s.blocks) (other : b.1 ≠ k.head) {i : Nat} (inside : i < PAGE_SIZE * b.2) :
    m (b.1 + i) = s.memory (b.1 + i) := by
  have apart := inv.pages.blocks_apart held inv.arena fun same => other (congrArg Prod.fst same)
  unfold RegionsApart at apart
  simp only at apart
  refine stays _ ?_
  rw [whole]
  omega

/-- A new pointer is an object that is allocated. -/
theorem pointer_added (inv : s.Inv mm k) (layout : mm.Layout) {ptr : Nat} {sz : BitVec 64}
    {m : Memory} (pos : 1 ≤ sz.toNat) {cs cs' : List AllocHeader} (heap : s.heap.Inv k cs)
    (heap' : KernelHeap.Inv k { memory := m, live := (ptr, sz) :: s.pointers } cs')
    (kept : Kept (takenFrom k.head cs) s.memory m) (stays : k.StaysIn s.memory m) :
    Inv mm k { s with memory := m, pointers := (ptr, sz) :: s.pointers } ∧
      ObjectStore.Step (s.objects k) (.allocate ptr sz.toNat false)
        (objects k { s with memory := m, pointers := (ptr, sz) :: s.pointers }) := by
  have invariant : Inv mm k { s with memory := m, pointers := (ptr, sz) :: s.pointers } :=
    ⟨inv.pages_of_staysIn whole layout stays, inv.arena, cs', heap'⟩
  refine ⟨invariant, ?_⟩
  have used : {r | InUse k { s with memory := m, pointers := (ptr, sz) :: s.pointers } r} =
      insert (ptr, sz.toNat) {r | s.InUse k r} := by
    ext ⟨a, n⟩
    simp only [InUse, Set.mem_ofPred_eq, Set.mem_insert_iff, List.mem_cons, Prod.mk.injEq]
    constructor
    · rintro (block | ⟨sz', ⟨rfl, rfl⟩ | held, rfl⟩)
      · exact .inr (.inl block)
      · exact .inl ⟨rfl, rfl⟩
      · exact .inr (.inr ⟨sz', held, rfl⟩)
    · rintro (⟨rfl, rfl⟩ | block | ⟨sz', held, rfl⟩)
      · exact .inr ⟨sz, .inl ⟨rfl, rfl⟩, rfl⟩
      · exact .inl block
      · exact .inr ⟨sz', .inr held, rfl⟩
  have nodup := heap'.live_nodup
  rw [List.map_cons, List.nodup_cons] at nodup
  have apart (r : Nat × Nat) (h : s.InUse k r) : RegionsApart r (ptr, sz.toNat) := by
    rcases h with ⟨n', held, ne, size⟩ | ⟨sz', held, size⟩
    · have away := invariant.block_apart_pointer whole (b := (r.1, n')) held ne (p := (ptr, sz))
        List.mem_cons_self
      rwa [← size] at away
    · have away := heap'.pointers_apart (b := (r.1, sz')) (List.mem_cons_of_mem _ held)
        List.mem_cons_self fun same => nodup.1 (List.mem_map.2 ⟨_, held, congrArg Prod.fst same⟩)
      rwa [← size] at away
  rw [objects, objects, used]
  refine step_allocate (r := (ptr, sz.toNat)) _ false pos (fun r h i inside => ?_) apart
    fun zero => absurd zero (by decide)
  rcases h with ⟨n', held, ne, size⟩ | ⟨sz', held, size⟩
  · exact inv.block_of_staysIn whole stays (b := (r.1, n')) held ne (size ▸ inside)
  · obtain ⟨c, taken, low, fits, -⟩ := heap.payload (b := (r.1, sz')) held
    simp only at taken low fits
    exact kept _ taken _ (by simp only; omega) (by simp only; omega)

/-- A pointer that is given back is an object that is released. -/
theorem pointer_removed (inv : s.Inv mm k) (layout : mm.Layout) {ptr : Nat} {sz : BitVec 64}
    {m : Memory} (held : (ptr, sz) ∈ s.pointers) {cs : List AllocHeader}
    (heap' : KernelHeap.Inv k { memory := m, live := s.pointers.eraseP (·.1 == ptr) } cs)
    (kept : Kept (takenFrom k.head cs) s.memory m) (stays : k.StaysIn s.memory m) :
    Inv mm k { s with memory := m, pointers := s.pointers.eraseP (·.1 == ptr) } ∧
      ObjectStore.Step (s.objects k) (.release ptr)
        (objects k { s with memory := m, pointers := s.pointers.eraseP (·.1 == ptr) }) := by
  obtain ⟨_, heap⟩ := inv.heap
  have rest {b : Nat × BitVec 64} :
      b ∈ s.pointers.eraseP (·.1 == ptr) ↔ b ∈ s.pointers ∧ b.1 ≠ ptr :=
    mem_eraseP_fst heap.live_nodup
  refine ⟨⟨inv.pages_of_staysIn whole layout stays, inv.arena, cs, heap'⟩, ?_⟩
  have used : {r | InUse k { s with memory := m, pointers := s.pointers.eraseP (·.1 == ptr) } r} =
      {r | s.InUse k r} \ {(ptr, sz.toNat)} := by
    ext ⟨a, n⟩
    simp only [InUse, Set.mem_ofPred_eq, Set.mem_sdiff, Set.mem_singleton_iff, rest, Prod.mk.injEq]
    constructor
    · rintro (⟨n', mem, ne, rfl⟩ | ⟨sz', ⟨mem, away⟩, rfl⟩)
      · refine ⟨.inl ⟨n', mem, ne, rfl⟩, ?_⟩
        rintro ⟨rfl, size⟩
        -- a block beside the arena is not in it
        have apart := inv.block_apart_pointer whole mem ne held
        have := inv.pages.len_pos mem
        unfold RegionsApart PAGE_SIZE at *
        simp only at *
        omega
      · exact ⟨.inr ⟨sz', mem, rfl⟩, fun same => away same.1⟩
    · rintro ⟨block | ⟨sz', mem, rfl⟩, away⟩
      · exact .inl block
      · refine .inr ⟨sz', ⟨mem, ?_⟩, rfl⟩
        rintro rfl
        obtain ⟨-, rfl⟩ := Prod.mk.inj (heap.eq_of_ptr mem held rfl)
        exact away ⟨rfl, rfl⟩
  rw [objects, objects, used]
  refine step_release (r := (ptr, sz.toNat)) (.inr ⟨sz, held, rfl⟩) fun r h i inside => ?_
  rw [← used] at h
  rcases h with ⟨n', mem, ne, size⟩ | ⟨sz', mem, size⟩
  · exact inv.block_of_staysIn whole stays (b := (r.1, n')) mem ne (size ▸ inside)
  · obtain ⟨c, taken, low, fits, -⟩ := heap'.payload (b := (r.1, sz')) mem
    simp only at taken low fits
    exact kept _ taken _ (by simp only; omega) (by simp only; omega)

/-- A byte that is written is a byte of its object. -/
theorem written (inv : s.Inv mm k) (layout : mm.Layout) {ptr n index : Nat}
    (used : s.InUse k (ptr, n)) (inside : index < n) (value : BitVec 8) :
    Inv mm k { s with memory := store8 s.memory (ptr + index) value } ∧
      ObjectStore.Step (s.objects k) (.write ptr index value)
        (objects k { s with memory := store8 s.memory (ptr + index) value }) := by
  refine ⟨?_, step_write value (inv.inUse_pairwise whole) used inside⟩
  obtain ⟨cs, heap⟩ := inv.heap
  rcases used with ⟨pages, held, ne, size⟩ | ⟨sz, held, size⟩
  · simp only at held ne size
    refine ⟨inv.pages.write layout held fun a outside => store8_apply_of_ne _ _ ?_, inv.arena, cs,
      heap.frame fun x low high => store8_apply_of_ne _ _ ?_⟩
    · simp only at outside
      omega
    · have apart := inv.pages.blocks_apart held inv.arena fun same => ne (congrArg Prod.fst same)
      rw [whole] at high
      unfold RegionsApart at apart
      simp only at apart
      omega
  · simp only at held size
    obtain ⟨low, high⟩ := inv.pointer_inside whole held
    obtain ⟨c, taken, -, fits, -⟩ := heap.payload held
    have header := heap.walk.tiles.header_eq (mem_takenFrom.1 taken).1
    simp only at low high fits header
    refine ⟨inv.pages.write layout inv.arena fun a outside => store8_apply_of_ne _ _ ?_, inv.arena, cs,
      heap.write held (Nat.le_add_right ptr index) ?_ value⟩
    · simp only at outside
      omega
    · simp only
      rw [header]
      omega
omit whole in
include layout in
/-- `alloc` leaves the pages as they are. -/
theorem alloc_behind (inv : s.Inv mm k) {pages : Nat} (pos : 1 ≤ pages)
    (room : HasRoom s.pages mm.allocStart pages) {x : Nat} (low : mm.allocStart ≤ x) :
    (MemoryManager.alloc s.memory mm.allocStart pages).2 x = s.memory x := by
  obtain ⟨i, m, run, -, fits, -, -, -, frame⟩ := inv.pages.alloc_spec layout pos room
  have descriptors := layout.descriptors
  have first := layout.first
  change MemoryManager.alloc s.memory mm.allocStart pages = _ at run
  rw [run]
  exact frame x (by omega)

include layout arena in
/-- **One event** keeps the books of both allocators and is one step of the objects. -/
theorem step (inv : s.Inv mm k) {fuel : Nat} (enough : k.totalSize < fuel)
    (enoughPages : mm.numberOfPages < fuel) {e : KernelMemoryEvent} {s' : KernelMemory}
    (step : KernelMemory.Step mm.allocStart k fuel s e s') :
    s'.Inv mm k ∧ ObjectStore.Step (s.objects k) e.action (s'.objects k) := by
  obtain ⟨allowed, run⟩ := step
  cases e with
  | alloc pages ptr =>
    obtain ⟨pos, room⟩ := allowed
    simp only [KernelMemory.run] at run
    split at run
    · next result =>
      obtain ⟨ne, inv'⟩ := inv.pages.returned layout pos room
      change (MemoryManager.alloc s.memory mm.allocStart pages).1 ≠ 0 at ne
      rw [result] at ne
      rw [← Option.some.inj run]
      simp only [PageHeap.returned, KernelMemory.pages, KernelMemory.ofPages, if_neg ne, result] at inv' ⊢
      exact inv.block_added whole false pos inv' (fun x low _ => inv.alloc_behind layout pos room low)
        fun zero => absurd zero (by decide)
    · cases run
  | zalloc pages ptr =>
    obtain ⟨pos, room⟩ := allowed
    simp only [KernelMemory.run] at run
    split at run
    · next result =>
      obtain ⟨ne, -⟩ := inv.pages.returned layout pos room
      obtain ⟨same, cleared, inv'⟩ := inv.pages.zreturned layout pos room
      rw [← same] at ne
      change (MemoryManager.zalloc s.memory mm.allocStart pages).1 ≠ 0 at ne
      change (MemoryManager.zalloc s.memory mm.allocStart pages).1 =
        (MemoryManager.alloc s.memory mm.allocStart pages).1 at same
      change (MemoryManager.zalloc s.memory mm.allocStart pages).2 =
        ByteMemory.clear (MemoryManager.alloc s.memory mm.allocStart pages).2
          (MemoryManager.alloc s.memory mm.allocStart pages).1 (PAGE_SIZE * pages) at cleared
      rw [← same, result] at cleared
      rw [result] at ne
      rw [← Option.some.inj run]
      simp only [PageHeap.returned, KernelMemory.pages, KernelMemory.ofPages, if_neg ne, result] at inv' ⊢
      refine inv.block_added whole true pos inv' (fun x low outside => ?_) fun _ x low high => ?_
      · rw [cleared, clear_apply_outside _ outside]
        exact inv.alloc_behind layout pos room low
      · rw [cleared]
        exact clear_apply_inside _ low high
    · cases run
  | dealloc ptr =>
    obtain ⟨other, pages, held⟩ := allowed
    obtain ⟨m, freed, cleared⟩ := inv.pages.dealloc_spec layout held enoughPages
    change MemoryManager.dealloc fuel s.memory mm.allocStart ptr = some m at freed
    have run' : some _ = some s' := (congrArg (Option.map s.ofPages) (congrArg (Option.map fun m =>
      PageHeap.mk m (s.blocks.eraseP (·.1 == ptr))) freed)).symm.trans run
    rw [← Option.some.inj run']
    have fits := inv.pages.start_add_le held
    have descriptors := layout.descriptors
    have first := layout.first
    exact inv.block_removed whole held other (inv.pages.dealloc layout held cleared) fun x low =>
      (cleared x).trans (if_neg (by omega))
  | kmalloc sz ptr =>
    obtain ⟨pos, le, cs, walk, fits⟩ := allowed
    obtain ⟨cs', heap⟩ := inv.heap
    obtain rfl := heap.walk.unique walk
    obtain ⟨ptr', m, cs', run', ne, heap', kept⟩ := heap.kmalloc arena pos le fits enough
    change k.kmalloc fuel s.memory sz = some (ptr', m) at run'
    simp only [KernelMemory.run, KernelMemory.heap, HeapAction.run, run', Option.map_some] at run
    split at run
    · next result =>
      obtain rfl := Option.some.inj result
      rw [← Option.some.inj run]
      simp only [KernelMemory.ofHeap]
      exact inv.pointer_added whole layout pos heap heap' kept
        (kmalloc_staysIn arena walk pos le fits enough run')
    · cases run
  | kfree ptr =>
    obtain ⟨sz, held⟩ := allowed
    obtain ⟨cs, heap⟩ := inv.heap
    obtain ⟨m, cs', run', heap', -, kept⟩ := heap.kfree arena held enough
    change k.kfree fuel s.memory ptr = some m at run'
    simp only [KernelMemory.run, KernelMemory.heap, HeapAction.run, run', Option.map_some] at run
    rw [← Option.some.inj run]
    obtain ⟨c, taken, ge, -⟩ := heap.owned _ held
    have freed : k.kfree fuel s.memory (ptr - 8 + 8) = some m := by
      rw [Nat.sub_add_cancel ge]
      exact run'
    exact inv.pointer_removed whole layout held heap' kept
      (kfree_staysIn arena heap.walk taken freed)
  | write ptr index value =>
    obtain ⟨n, used, inside⟩ := allowed
    rw [← Option.some.inj run]
    exact inv.written whole layout used inside value

omit whole in
include layout arena in
/-- An allowed call returns. -/
theorem progress (inv : s.Inv mm k) {fuel : Nat} (enough : k.totalSize < fuel)
    (enoughPages : mm.numberOfPages < fuel) {e : KernelMemoryEvent}
    (allowed : e.Allowed mm.allocStart k s) :
    ∃ ptr s', KernelMemory.Step mm.allocStart k fuel s (e.returning ptr) s' := by
  obtain ⟨cs, heap⟩ := inv.heap
  cases e with
  | alloc pages ptr =>
    exact ⟨(MemoryManager.alloc s.memory mm.allocStart pages).1, _, allowed,
      by simp only [KernelMemoryEvent.returning, KernelMemory.run, if_true]; rfl⟩
  | zalloc pages ptr =>
    exact ⟨(MemoryManager.zalloc s.memory mm.allocStart pages).1, _, allowed,
      by simp only [KernelMemoryEvent.returning, KernelMemory.run, if_true]; rfl⟩
  | dealloc ptr =>
    obtain ⟨p, run⟩ := inv.pages.progress layout (a := .dealloc ptr) enoughPages allowed.2
    exact ⟨0, s.ofPages p, allowed, by rw [KernelMemoryEvent.returning, KernelMemory.run, run]; rfl⟩
  | kmalloc sz ptr =>
    have held := allowed
    obtain ⟨pos, le, ds, walk, fits⟩ := held
    obtain rfl := heap.walk.unique walk
    obtain ⟨ptr', m, cs', run, -⟩ := heap.kmalloc arena pos le fits enough
    change k.kmalloc fuel s.memory sz = some (ptr', m) at run
    refine ⟨ptr', s.ofHeap ⟨m, if ptr' = 0 then s.pointers else (ptr', sz) :: s.pointers⟩, allowed, ?_⟩
    simp only [KernelMemoryEvent.returning, KernelMemory.run, KernelMemory.heap, HeapAction.run, run,
      Option.map_some, if_true]
  | kfree ptr =>
    obtain ⟨h, cs', run, -⟩ := heap.step arena (a := .kfree ptr) allowed enough
    exact ⟨0, s.ofHeap h, allowed, by rw [KernelMemoryEvent.returning, KernelMemory.run, run]; rfl⟩
  | write ptr index value => exact ⟨0, _, allowed, rfl⟩

end KernelMemory.Inv

/-! ## The boot -/

section Boot

variable {heapStart heapSize : BitVec 64} (bounds : HeapBounds heapStart heapSize)
  (room : 1 + ALLOCATION_SIZE ≤ heapSize.toNat / 4096)
  (ram : (initialManager heapStart heapSize).allocStart +
    PAGE_SIZE * (initialManager heapStart heapSize).numberOfPages ≤ 2 ^ 56) (m : Memory)

include bounds room ram

/-- Both allocators are set up, and nothing is in use. -/
theorem KernelMemory.boot_inv :
    (KernelMemory.boot heapStart heapSize m).1 = (initialManager heapStart heapSize).allocStart ∧
      (KernelMemory.boot heapStart heapSize m).2.1.Arena ∧
      (KernelMemory.boot heapStart heapSize m).2.1.totalSize = PAGE_SIZE * ALLOCATION_SIZE ∧
      (KernelMemory.boot heapStart heapSize m).2.2.Inv (initialManager heapStart heapSize)
        (KernelMemory.boot heapStart heapSize m).2.1 ∧
      (KernelMemory.boot heapStart heapSize m).2.2.objects
        (KernelMemory.boot heapStart heapSize m).2.1 = ∅ := by
  have layout := initialManager_layout bounds
  have inv := init_inv bounds m
  have place := init_allocStart bounds m
  have free := init_hasRoom bounds m room
  obtain ⟨arena, size, heap⟩ := construct_inv layout inv free ram
  obtain ⟨ne, -⟩ := inv.returned layout (by decide) free
  obtain ⟨same, -, inv'⟩ := inv.zreturned layout (by decide) free
  rw [← same] at ne
  simp only [KernelMemory.boot, place]
  refine ⟨trivial, arena, size, ⟨?_, List.mem_cons_self, _, heap⟩, ?_⟩
  · simp only [PageHeap.returned, if_neg ne] at inv'
    refine inv'.write layout (m := (construct _ _).2) List.mem_cons_self fun a outside => ?_
    simp only [construct, AllocHeader.setSize, AllocHeader.setFree] at outside ⊢
    have large : 8 ≤ PAGE_SIZE * ALLOCATION_SIZE := by decide
    rw [AllocHeader.store_apply_of_outside _ _ (by omega),
      AllocHeader.store_apply_of_outside _ _ (by omega)]
  · have unused : {r | KernelMemory.InUse (construct (MemoryManager.init heapStart heapSize m).2
        (initialManager heapStart heapSize).allocStart).1
        { memory := (construct (MemoryManager.init heapStart heapSize m).2
            (initialManager heapStart heapSize).allocStart).2
          blocks := [((construct (MemoryManager.init heapStart heapSize m).2
            (initialManager heapStart heapSize).allocStart).1.head, ALLOCATION_SIZE)]
          pointers := [] } r} = ∅ := by
      refine Set.eq_empty_of_forall_notMem fun r used => ?_
      rcases used with ⟨pages, held, ne, -⟩ | ⟨sz, held, -⟩
      · exact ne (congrArg Prod.fst (List.mem_singleton.1 held))
      · exact absurd held List.not_mem_nil
    rw [KernelMemory.objects, unused, objectsIn_empty]

/-- The arena is one free chunk, so the heap gives its first bytes. -/
theorem KernelMemory.boot_kmalloc {sz : BitVec 64} (pos : 1 ≤ sz.toNat) (fits : needed sz ≤ 262144)
    {fuel : Nat} (enough : 262144 < fuel) :
    ∃ s, KernelMemory.Step (KernelMemory.boot heapStart heapSize m).1
        (KernelMemory.boot heapStart heapSize m).2.1 fuel (KernelMemory.boot heapStart heapSize m).2.2
        (.kmalloc sz ((KernelMemory.boot heapStart heapSize m).2.1.head + 8)) s ∧
      s.pointers = [((KernelMemory.boot heapStart heapSize m).2.1.head + 8, sz)] := by
  obtain ⟨arena, size, heap⟩ := construct_inv (initialManager_layout bounds) (init_inv bounds m)
    (init_hasRoom bounds m room) ram
  simp only [KernelMemory.boot, init_allocStart bounds]
  generalize construct (MemoryManager.init heapStart heapSize m).2
    (initialManager heapStart heapSize).allocStart = k at *
  have le : sz.toNat ≤ 2 ^ 63 := by
    unfold needed at fits
    omega
  have fit : Fits (needed sz) { size := 262144, taken := 0 } := ⟨rfl, fits⟩
  have run := kmalloc_first arena heap.walk pos le (l := []) rfl fit
    (fun b none => absurd none List.not_mem_nil) (size ▸ enough)
  change k.1.kmalloc fuel k.2 sz = some (k.1.head + 8, _) at run
  refine ⟨⟨takeChunk k.2 k.1.head (needed sz), [(k.1.head, ALLOCATION_SIZE)], [(k.1.head + 8, sz)]⟩,
    ⟨⟨pos, le, _, heap.walk, _, List.mem_cons_self, fit⟩, ?_⟩, rfl⟩
  rw [KernelMemory.run, run, Option.map_some, if_pos rfl, HeapAction.run, KernelMemory.heap, run,
    Option.map_some, Option.map_some]
  rfl

/-- **The allocators hand out objects.** Boot, and let callers of both allocators do anything in any
order, as long as they keep to their side. What they hold are then objects: none overlaps another
one, whichever allocator it is from, and each has the bytes that were written to it, zeros at first
where `zalloc` gave it out. The next allowed call returns. -/
theorem allocators_hand_out_objects {fuel : Nat} (enough : PAGE_SIZE * ALLOCATION_SIZE < fuel)
    (enoughPages : heapSize.toNat / 4096 < fuel) {es : List KernelMemoryEvent} {s : KernelMemory}
    (run : Transition.Run (KernelMemory.Step (KernelMemory.boot heapStart heapSize m).1
      (KernelMemory.boot heapStart heapSize m).2.1 fuel)
      (KernelMemory.boot heapStart heapSize m).2.2 es s) :
    Transition.Run ObjectStore.Step ∅ (es.map KernelMemoryEvent.action)
        (s.objects (KernelMemory.boot heapStart heapSize m).2.1) ∧
      AllApart (s.objects (KernelMemory.boot heapStart heapSize m).2.1) ∧
      ∀ e : KernelMemoryEvent, e.Allowed (KernelMemory.boot heapStart heapSize m).1
        (KernelMemory.boot heapStart heapSize m).2.1 s → ∃ ptr s',
          KernelMemory.Step (KernelMemory.boot heapStart heapSize m).1
            (KernelMemory.boot heapStart heapSize m).2.1 fuel s (e.returning ptr) s' := by
  have layout := initialManager_layout bounds
  obtain ⟨place, arena, whole, init, nothing⟩ := KernelMemory.boot_inv bounds room ram m
  rw [place] at run ⊢
  generalize KernelMemory.boot heapStart heapSize m = b at *
  rw [← whole] at enough
  have sim : Transition.Simulation
      (KernelMemory.Step (initialManager heapStart heapSize).allocStart b.2.1 fuel)
      (KernelMemory.Inv (initialManager heapStart heapSize) b.2.1) (KernelMemory.objects b.2.1)
      (fun e => some e.action) ObjectStore.Step := by
    refine ⟨fun inv step => (inv.step layout arena whole enough enoughPages step).1,
      fun inv step label => ?_, fun _ _ label => absurd label (Option.some_ne_none _)⟩
    rw [← Option.some.inj label]
    exact (inv.step layout arena whole enough enoughPages step).2
  obtain ⟨inv, run'⟩ := sim.run init run
  rw [nothing, List.filterMap_eq_map'] at run'
  exact ⟨run', apart_of_run run', fun e allowed => inv.progress layout arena enough enoughPages allowed⟩

end Boot

/-- A boot with 256 pages. -/
@[irreducible] def smallBoot : Nat × KernelMemoryAllocator × KernelMemory :=
  KernelMemory.boot 0x80001000 0x100000 fun _ => 0

/-- Ten bytes from its heap, and a write to the last of them. -/
theorem allocators_hand_out_objects_ten_bytes :
    ∃ s, Transition.Run (KernelMemory.Step smallBoot.1 smallBoot.2.1 262145) smallBoot.2.2
        [.kmalloc 10 (smallBoot.2.1.head + 8), .write (smallBoot.2.1.head + 8) 9 7] s ∧
      Transition.Run ObjectStore.Step ∅
        [.allocate (smallBoot.2.1.head + 8) 10 false, .write (smallBoot.2.1.head + 8) 9 7]
        (s.objects smallBoot.2.1) := by
  have bounds : HeapBounds 0x80001000 0x100000 := ⟨by decide, by decide⟩
  have ram : (initialManager 0x80001000 0x100000).allocStart +
      PAGE_SIZE * (initialManager 0x80001000 0x100000).numberOfPages ≤ 2 ^ 56 := by decide
  have room : 1 + ALLOCATION_SIZE ≤ (0x100000 : BitVec 64).toNat / 4096 := by decide
  have objects := @allocators_hand_out_objects _ _ bounds room ram (fun _ => 0) 262145
    (Nat.lt_succ_self 262144) (by decide)
  have first := KernelMemory.boot_kmalloc bounds room ram (fun _ => 0)
    (show 1 ≤ (10 : BitVec 64).toNat by decide) (by decide) (Nat.lt_succ_self 262144)
  rw [← smallBoot] at first objects
  obtain ⟨s, step, pointers⟩ := first
  have write : KernelMemory.Step smallBoot.1 smallBoot.2.1 262145 s
      (.write (smallBoot.2.1.head + 8) 9 7)
      { s with memory := store8 s.memory (smallBoot.2.1.head + 8 + 9) 7 } := by
    refine ⟨⟨10, .inr ⟨10, ?_, rfl⟩, by decide⟩, rfl⟩
    rw [pointers]
    exact List.mem_singleton_self _
  have run := Transition.Run.cons step (.cons write (.nil _))
  exact ⟨_, run, (objects run).1⟩

end MatteOS.Memory
