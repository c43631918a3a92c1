import MatteOS.Lib.Tiling
import MatteOS.Memory.KernelMemoryAllocator
import MatteOS.Memory.Verify.PageAllocator

/-!
# The kernel heap is a tiling

The headers tile the arena (`Walk`). `kmalloc` recuts the first chunk that fits
(`kmalloc_spec`), `kfree` frees one chunk and then merges free neighbours in one pass
(`mergePass`, `coalesce_spec`); neither touches a chunk that is taken. The taken
chunks are therefore the live pointers, in every state a run can reach.
-/

namespace MatteOS.Memory

open ByteMemory Tiling

namespace AllocHeader

@[simp] theorem ofU64_toU64 (h : AllocHeader) : ofU64 h.toU64 = h := by
  cases h
  simp only [ofU64, toU64, mk.injEq]
  refine ⟨?_, ?_⟩ <;>
    (apply BitVec.eq_of_getLsbD_eq
     intro i hi
     simp only [BitVec.getLsbD_extractLsb', BitVec.getLsbD_append]
     grind)

@[simp] theorem load_store (m : Memory) (ptr : Nat) (h : AllocHeader) :
    load (store m ptr h) ptr = h := by
  simp [load, store]

theorem load_store_of_disjoint (m : Memory) {ptr ptr' : Nat} (h : AllocHeader)
    (disjoint : ptr' + 8 ≤ ptr ∨ ptr + 8 ≤ ptr') : load (store m ptr h) ptr' = load m ptr' := by
  unfold load store
  rw [load64_store64_of_disjoint _ _ disjoint]

theorem store_apply_of_outside (m : Memory) {ptr x : Nat} (h : AllocHeader)
    (outside : x < ptr ∨ ptr + 8 ≤ x) : store m ptr h x = m x :=
  store64_apply_of_outside m _ outside

/-- A header is read from its own eight bytes. -/
theorem load_congr {m m' : Memory} {ptr : Nat} (h : ∀ x, ptr ≤ x → x < ptr + 8 → m' x = m x) :
    load m' ptr = load m ptr := by
  unfold load
  rw [load64_congr h]

end AllocHeader

/-! ## Chunks -/

/-- Walking from `head` partitions the arena of `k` into the chunks `cs`. -/
structure Walk (k : KernelMemoryAllocator) (m : Memory) (cs : List AllocHeader) : Prop where
  tiles : Tiles AllocHeader.getSize (AllocHeader.load m) k.head cs
  whole : total AllocHeader.getSize cs = k.totalSize
  sizes : ∀ c ∈ cs, 8 ∣ c.getSize ∧ 16 ≤ c.getSize

/-- The arena is aligned and ends far below the end of the address space. -/
structure KernelMemoryAllocator.Arena (k : KernelMemoryAllocator) : Prop where
  aligned : 8 ∣ k.head
  ne_null : 0 < k.head
  top : k.head + 8 * k.totalSize < 2 ^ 64

/-- The chunks of a walk with their addresses. -/
def chunksFrom (a : Nat) (cs : List AllocHeader) : List (Nat × AllocHeader) :=
  places AllocHeader.getSize a cs

/-- The taken chunks of a walk with their addresses. -/
def takenFrom (a : Nat) (cs : List AllocHeader) : List (Nat × AllocHeader) :=
  (chunksFrom a cs).filter (·.2.isTaken)

theorem takenFrom_append (a : Nat) (l r : List AllocHeader) :
    takenFrom a (l ++ r) = takenFrom a l ++ takenFrom (a + total AllocHeader.getSize l) r := by
  unfold takenFrom chunksFrom
  rw [places_append, List.filter_append]

theorem takenFrom_cons (a : Nat) (c : AllocHeader) (r : List AllocHeader) :
    takenFrom a (c :: r) =
      if c.isTaken then (a, c) :: takenFrom (a + c.getSize) r else takenFrom (a + c.getSize) r := by
  unfold takenFrom chunksFrom
  simp only [places, List.filter_cons]

theorem mem_takenFrom {a : Nat} {cs : List AllocHeader} {p : Nat × AllocHeader} :
    p ∈ takenFrom a cs ↔ p ∈ chunksFrom a cs ∧ p.2.isTaken := List.mem_filter

/-- No byte of the chunks `ps` has changed. -/
def Kept (ps : List (Nat × AllocHeader)) (m m' : Memory) : Prop :=
  ∀ p ∈ ps, ∀ x, p.1 ≤ x → x < p.1 + p.2.getSize → m' x = m x

theorem Kept.trans {ps : List (Nat × AllocHeader)} {m m' m'' : Memory} (h : Kept ps m m')
    (h' : Kept ps m' m'') : Kept ps m m'' := fun p hp x h1 h2 =>
  (h' p hp x h1 h2).trans (h p hp x h1 h2)

namespace Walk

variable {k : KernelMemoryAllocator} {m : Memory} {cs : List AllocHeader}

theorem pos (walk : Walk k m cs) : ∀ c ∈ cs, 0 < c.getSize := fun c hc => by
  have := (walk.sizes c hc).2
  omega

/-- The chunks can be read off the memory. -/
theorem unique (walk : Walk k m cs) {ds : List AllocHeader} (walk' : Walk k m ds) : cs = ds := by
  refine walk.tiles.unique walk'.tiles (fun c hc => ?_) (walk.whole.trans walk'.whole.symm)
  rcases List.mem_append.1 hc with h | h
  · exact walk.pos c h
  · exact walk'.pos c h

theorem total_le (walk : Walk k m cs) {l r : List AllocHeader} (e : cs = l ++ r) :
    total AllocHeader.getSize l + total AllocHeader.getSize r = k.totalSize := by
  rw [← walk.whole, e, total_append]

/-- Addresses of chunks are aligned. -/
theorem dvd_total (walk : Walk k m cs) {l r : List AllocHeader} (e : cs = l ++ r) :
    8 ∣ total AllocHeader.getSize l := by
  have sizes : ∀ c ∈ l, 8 ∣ c.getSize := fun c hc =>
    (walk.sizes c (by rw [e]; exact List.mem_append_left _ hc)).1
  clear e walk
  induction l with
  | nil => exact Nat.dvd_zero 8
  | cons c l ih =>
    rw [total_cons]
    exact Nat.dvd_add (sizes c List.mem_cons_self)
      (ih fun d hd => sizes d (List.mem_cons_of_mem c hd))

/-- The chunks of one address are one chunk. -/
theorem eq_of_address (walk : Walk k m cs) {p q : Nat × AllocHeader}
    (hp : p ∈ chunksFrom k.head cs) (hq : q ∈ chunksFrom k.head cs) (e : p.1 = q.1) : p = q := by
  by_contra ne
  have size : ∀ p ∈ chunksFrom k.head cs, 0 < p.2.getSize := by
    intro p hp
    obtain ⟨_, _, split, -⟩ := exists_of_mem_places hp
    exact walk.pos p.2 (by rw [split]; simp)
  have apart := places_apart hp hq ne
  have posP := size p hp
  have posQ := size q hq
  omega

/-- A segment of chunks may be cut anew, when no byte outside of it changes. -/
theorem recut {l c r d : List AllocHeader} (walk : Walk k m (l ++ c ++ r)) {m' : Memory}
    (frame : ∀ x, x < k.head + total AllocHeader.getSize l ∨
      k.head + total AllocHeader.getSize l + total AllocHeader.getSize c ≤ x → m' x = m x)
    (same : total AllocHeader.getSize d = total AllocHeader.getSize c)
    (cut : Tiles AllocHeader.getSize (AllocHeader.load m') (k.head + total AllocHeader.getSize l) d)
    (sizes : ∀ c ∈ d, 8 ∣ c.getSize ∧ 16 ≤ c.getSize) : Walk k m' (l ++ d ++ r) where
  tiles := by
    refine walk.tiles.replace same cut fun p hp outside => AllocHeader.load_congr fun x _ _ => ?_
    have large : 16 ≤ p.2.getSize := by
      obtain ⟨_, _, e, -⟩ := exists_of_mem_places hp
      exact (walk.sizes p.2 (by rw [e]; simp)).2
    exact frame x (by omega)
  whole := by
    have whole := walk.whole
    simp only [total_append] at whole ⊢
    omega
  sizes := by
    intro b hb
    rcases List.mem_append.1 hb with hb | hb
    · rcases List.mem_append.1 hb with hb | hb
      · exact walk.sizes b (by simp [hb])
      · exact sizes b hb
    · exact walk.sizes b (by simp [hb])

end Walk

/-- Chunks beside a segment keep their bytes when no byte outside of the segment changes. -/
theorem kept_outside {a : Nat} {l c r : List AllocHeader} {m m' : Memory}
    (frame : ∀ x, x < a + total AllocHeader.getSize l ∨
      a + total AllocHeader.getSize l + total AllocHeader.getSize c ≤ x → m' x = m x) :
    Kept (takenFrom a l ++
      takenFrom (a + total AllocHeader.getSize l + total AllocHeader.getSize c) r) m m' := by
  intro p hp x h1 h2
  rcases List.mem_append.1 hp with hp | hp
  · have := le_places (mem_takenFrom.1 hp).1
    exact frame x (by omega)
  · have := le_places (mem_takenFrom.1 hp).1
    exact frame x (by omega)

/-- Free chunks are not among the taken ones. -/
theorem takenFrom_free {a : Nat} {cs : List AllocHeader} (free : ∀ c ∈ cs, c.isFree) :
    takenFrom a cs = [] := by
  refine List.filter_eq_nil_iff.2 fun p hp => ?_
  obtain ⟨_, _, e, -⟩ := exists_of_mem_places hp
  have := free p.2 (by rw [e]; simp)
  simpa [AllocHeader.isFree] using this

/-! ## `kmalloc` -/

namespace KernelMemoryAllocator

/-- The bytes `kmalloc(sz)` looks for: `sz` rounded up, and a header. -/
def needed (sz : BitVec 64) : Nat := (sz.toNat + 7) / 8 * 8 + 8

theorem needed_toNat {sz : BitVec 64} (le : sz.toNat ≤ 2 ^ 63) :
    (alignValue sz 3 + .ofNat 64 HEADER_SIZE).toNat = needed sz := by
  have aligned : (alignValue sz 3).toNat = (sz.toNat + 7) / 8 * 8 :=
    Align.add_and_not_lowMask_toNat sz (k := 3) (by omega) (by omega)
  have header : (BitVec.ofNat 64 HEADER_SIZE).toNat = 8 := by simp [HEADER_SIZE]
  rw [BitVec.toNat_add, aligned, header, Nat.mod_eq_of_lt (by omega)]
  rfl

/-- The chunk is free and large enough. -/
def Fits (size : Nat) (c : AllocHeader) : Prop := c.isFree ∧ size ≤ c.getSize

/-- How `kmalloc` recuts the chunk it takes. -/
def splitChunk (size : Nat) (c : AllocHeader) : List AllocHeader :=
  if 8 < c.getSize - size then
    [{ size := .ofNat 63 size, taken := 1 }, { size := .ofNat 63 (c.getSize - size), taken := 0 }]
  else [{ c with taken := 1 }]

/-- What `kmalloc` does to the memory when it takes the chunk at `ptr`. -/
def takeChunk (m : Memory) (ptr size : Nat) : Memory :=
  let chunkSize := (AllocHeader.load m ptr).getSize
  let m := AllocHeader.setTaken m ptr
  if 8 < chunkSize - size then
    AllocHeader.setSize (AllocHeader.setSize (AllocHeader.setFree m (ptr + size)) (ptr + size)
      (chunkSize - size)) ptr size
  else AllocHeader.setSize m ptr chunkSize

section Split

variable {size : Nat} {c : AllocHeader} (fits : Fits size c)

include fits

theorem total_splitChunk (low : 8 ≤ size) :
    total AllocHeader.getSize (splitChunk size c) = c.getSize := by
  have bound := c.size.isLt
  have le := fits.2
  unfold AllocHeader.getSize at le
  unfold splitChunk
  by_cases large : 8 < c.getSize - size
  · rw [if_pos large]
    simp only [total_cons, total_nil, AllocHeader.getSize, BitVec.toNat_ofNat]
    rw [Nat.mod_eq_of_lt (by omega), Nat.mod_eq_of_lt (by omega)]
    omega
  · rw [if_neg large]
    simp [AllocHeader.getSize]

theorem sizes_splitChunk (low : 16 ≤ size) (dvd : 8 ∣ size) (chunk : 8 ∣ c.getSize) :
    ∀ d ∈ splitChunk size c, 8 ∣ d.getSize ∧ 16 ≤ d.getSize := by
  have bound := c.size.isLt
  have le := fits.2
  unfold AllocHeader.getSize at le chunk
  unfold splitChunk
  by_cases large : 8 < c.getSize - size
  · rw [if_pos large]
    unfold AllocHeader.getSize at large
    simp only [List.mem_cons, List.not_mem_nil, or_false, forall_eq_or_imp, forall_eq,
      AllocHeader.getSize, BitVec.toNat_ofNat]
    rw [Nat.mod_eq_of_lt (by omega), Nat.mod_eq_of_lt (by omega)]
    omega
  · rw [if_neg large]
    simp only [List.mem_singleton, forall_eq, AllocHeader.getSize]
    omega

/-- The taken chunk is the first of the new ones, and has the room asked for. -/
theorem takenFrom_splitChunk (a : Nat) : ∃ d, takenFrom a (splitChunk size c) = [(a, d)] ∧
    size ≤ d.getSize := by
  have bound := c.size.isLt
  have le := fits.2
  have taken : ∀ n, (AllocHeader.mk n 1).isTaken = true := fun _ => rfl
  have free : ∀ n, (AllocHeader.mk n 0).isTaken = false := fun _ => rfl
  unfold AllocHeader.getSize at le
  unfold splitChunk
  by_cases large : 8 < c.getSize - size
  · rw [if_pos large]
    refine ⟨{ size := .ofNat 63 size, taken := 1 }, ?_, ?_⟩
    · simp only [takenFrom_cons, taken, free, if_true, Bool.false_eq_true, if_false]
      rfl
    · rw [AllocHeader.getSize, BitVec.toNat_ofNat, Nat.mod_eq_of_lt (by omega)]
  · rw [if_neg large]
    refine ⟨{ c with taken := 1 }, ?_, le⟩
    simp only [takenFrom_cons, taken, if_true]
    rfl

theorem tiles_splitChunk {m : Memory} {ptr : Nat} (header : AllocHeader.load m ptr = c)
    (low : 8 ≤ size) :
    Tiles AllocHeader.getSize (AllocHeader.load (takeChunk m ptr size)) ptr (splitChunk size c) := by
  have bound := c.size.isLt
  have le := fits.2
  unfold AllocHeader.getSize at le
  have number : (BitVec.ofNat 63 size).toNat = size := by
    rw [BitVec.toNat_ofNat, Nat.mod_eq_of_lt (by omega)]
  simp only [splitChunk, takeChunk, header]
  by_cases large : 8 < c.getSize - size
  · rw [if_pos large, if_pos large]
    have next : (AllocHeader.mk (.ofNat 63 size) 1).getSize = size := number
    simp only [Tiles, next, and_true]
    unfold AllocHeader.setSize AllocHeader.setFree AllocHeader.setTaken
    refine ⟨?_, ?_⟩
    · rw [AllocHeader.load_store, AllocHeader.load_store_of_disjoint _ _ (by omega),
        AllocHeader.load_store_of_disjoint _ _ (by omega), AllocHeader.load_store]
    · rw [AllocHeader.load_store_of_disjoint _ _ (by omega), AllocHeader.load_store,
        AllocHeader.load_store]
  · rw [if_neg large, if_neg large]
    simp only [Tiles, and_true]
    unfold AllocHeader.setSize AllocHeader.setTaken
    rw [AllocHeader.load_store, AllocHeader.load_store, header, AllocHeader.getSize,
      BitVec.ofNat_toNat, BitVec.setWidth_eq]

/-- Taking a chunk changes bytes of that chunk only. -/
theorem takeChunk_apply_of_outside {m : Memory} {ptr x : Nat} (header : AllocHeader.load m ptr = c)
    (large : 8 ≤ c.getSize) (outside : x < ptr ∨ ptr + c.getSize ≤ x) :
    takeChunk m ptr size x = m x := by
  have le := fits.2
  unfold takeChunk
  rw [header]
  by_cases large : 8 < c.getSize - size
  · simp only [if_pos large]
    unfold AllocHeader.setSize AllocHeader.setFree AllocHeader.setTaken
    rw [AllocHeader.store_apply_of_outside _ _ (by omega),
      AllocHeader.store_apply_of_outside _ _ (by omega),
      AllocHeader.store_apply_of_outside _ _ (by omega),
      AllocHeader.store_apply_of_outside _ _ (by omega)]
  · simp only [if_neg large]
    unfold AllocHeader.setSize AllocHeader.setTaken
    rw [AllocHeader.store_apply_of_outside _ _ (by omega),
      AllocHeader.store_apply_of_outside _ _ (by omega)]

end Split

/-- Taking a chunk writes its header, and the header of the rest when it is split. -/
theorem takeChunk_apply {m : Memory} {ptr size x : Nat} (first : x < ptr ∨ ptr + 8 ≤ x)
    (second : 8 < (AllocHeader.load m ptr).getSize - size → x < ptr + size ∨ ptr + size + 8 ≤ x) :
    takeChunk m ptr size x = m x := by
  unfold takeChunk
  by_cases large : 8 < (AllocHeader.load m ptr).getSize - size
  · simp only [if_pos large]
    unfold AllocHeader.setSize AllocHeader.setFree AllocHeader.setTaken
    rw [AllocHeader.store_apply_of_outside _ _ first,
      AllocHeader.store_apply_of_outside _ _ (second large),
      AllocHeader.store_apply_of_outside _ _ (second large),
      AllocHeader.store_apply_of_outside _ _ first]
  · simp only [if_neg large]
    unfold AllocHeader.setSize AllocHeader.setTaken
    rw [AllocHeader.store_apply_of_outside _ _ first, AllocHeader.store_apply_of_outside _ _ first]

/-- One round of `kmalloc` at a chunk. -/
theorem kmallocBody_eq {m : Memory} {tail size ptr : Nat} {c : AllocHeader}
    (header : AllocHeader.load m ptr = c) (inside : ptr < tail)
    (bound : ptr + c.getSize < 2 ^ 64) (large : 8 ≤ c.getSize) :
    kmallocBody m tail size ptr =
      if c.isFree && decide (size ≤ c.getSize) then .done (ptr + 8, takeChunk m ptr size)
      else .again (ptr + c.getSize) := by
  simp only [kmallocBody, if_pos inside, header, Nat.mod_eq_of_lt bound, takeChunk, HEADER_SIZE]
  by_cases fit : c.isFree && decide (size ≤ c.getSize)
  · have le : size ≤ c.getSize := by simpa using (Bool.and_eq_true_iff.1 fit).2
    rw [if_pos fit, if_pos fit, Nat.mod_eq_of_lt (by omega : ptr + size < 2 ^ 64),
      Nat.mod_eq_of_lt (by omega : ptr + 8 < 2 ^ 64)]
  · rw [if_neg fit, if_neg fit]

/-- The first element with a property cuts a list in one way. -/
theorem eq_of_first {α : Type} {P : α → Prop} {l l' r r' : List α} {c c' : α}
    (e : l ++ c :: r = l' ++ c' :: r') (here : P c) (first : ∀ b ∈ l, ¬ P b) (here' : P c')
    (first' : ∀ b ∈ l', ¬ P b) : l = l' ∧ c = c' ∧ r = r' := by
  induction l generalizing l' with
  | nil =>
    cases l' with
    | nil =>
      obtain ⟨rfl, rfl⟩ := List.cons_eq_cons.1 e
      exact ⟨rfl, rfl, rfl⟩
    | cons b l' =>
      obtain ⟨rfl, -⟩ := List.cons_eq_cons.1 e
      exact absurd here (first' c List.mem_cons_self)
  | cons b l ih =>
    cases l' with
    | nil =>
      obtain ⟨rfl, -⟩ := List.cons_eq_cons.1 e
      exact absurd here' (first b List.mem_cons_self)
    | cons b' l' =>
      obtain ⟨rfl, rest⟩ := List.cons_eq_cons.1 e
      obtain ⟨rfl, rfl, rfl⟩ := ih rest (fun d hd => first d (List.mem_cons_of_mem b hd))
        fun d hd => first' d (List.mem_cons_of_mem b hd)
      exact ⟨rfl, rfl, rfl⟩

/-- The search for a chunk of `size` bytes has met no chunk that fits, and one lies ahead. -/
def Searching (k : KernelMemoryAllocator) (cs : List AllocHeader) (size ptr : Nat) : Prop :=
  ∃ l c r, cs = l ++ c :: r ∧ ptr = k.head + total AllocHeader.getSize l ∧
    (∀ b ∈ l, ¬ Fits size b) ∧ ∃ c' ∈ c :: r, Fits size c'

/-- The search of `kmalloc`, without the casts. -/
theorem kmalloc_eq {k : KernelMemoryAllocator} (arena : k.Arena) {sz : BitVec 64}
    (pos : 1 ≤ sz.toNat) (le : sz.toNat ≤ 2 ^ 63) (fuel : Nat) (m : Memory) :
    k.kmalloc fuel m sz =
      Loop.run (kmallocBody m (k.head + 8 * k.totalSize) (needed sz)) fuel k.head := by
  have top := arena.top
  have nonzero : sz ≠ 0 := by
    rintro rfl
    simp at pos
  have tail : (k.head + HEADER_SIZE * k.totalSize) % 2 ^ 64 = k.head + 8 * k.totalSize :=
    Nat.mod_eq_of_lt (by unfold HEADER_SIZE; omega)
  rw [kmalloc, if_neg nonzero]
  simp only [tail, needed_toNat le]

section Kmalloc

variable {k : KernelMemoryAllocator} {m : Memory} {cs : List AllocHeader} (arena : k.Arena)
  (walk : Walk k m cs)

include arena walk

/-- The header of a chunk, and where the chunk lies. -/
theorem chunk_at {l r : List AllocHeader} {c : AllocHeader} (e : cs = l ++ c :: r) :
    AllocHeader.load m (k.head + total AllocHeader.getSize l) = c ∧ 16 ≤ c.getSize ∧
      k.head + total AllocHeader.getSize l + c.getSize ≤ k.head + k.totalSize ∧
      k.head + k.totalSize < 2 ^ 64 := by
  have top := arena.top
  have cut := walk.total_le e
  rw [total_cons] at cut
  have tiles := walk.tiles
  rw [e] at tiles
  have header := tiles.header_middle
  have large := (walk.sizes c (by rw [e]; simp)).2
  refine ⟨header, large, ?_, ?_⟩
  · omega
  · omega

/-- One round of the search for a chunk that fits. -/
theorem Searching.again {tail size ptr ptr' : Nat} (behind : k.head + k.totalSize ≤ tail)
    (state : Searching k cs size ptr) (step : kmallocBody m tail size ptr = .again ptr') :
    Searching k cs size ptr' ∧ k.head + k.totalSize - ptr' < k.head + k.totalSize - ptr := by
  obtain ⟨l, c, r, e, rfl, first, c', hc, fit⟩ := state
  obtain ⟨header, large, inside, bound⟩ := chunk_at arena walk e
  rw [kmallocBody_eq header (by omega) (by omega) (by omega)] at step
  by_cases yes : c.isFree && decide (size ≤ c.getSize)
  · rw [if_pos yes] at step
    simp at step
  · rw [if_neg yes, Loop.Next.again.injEq] at step
    subst step
    have no : ¬ Fits size c := by simpa [Fits] using yes
    have ahead : c' ∈ r := (List.mem_cons.1 hc).resolve_left fun h => no (h ▸ fit)
    obtain ⟨d, r, rfl⟩ := List.exists_cons_of_ne_nil (List.ne_nil_of_mem ahead)
    refine ⟨⟨l ++ [c], d, r, by simp [e], by simp [Nat.add_assoc], fun b hb => ?_, c', ahead, fit⟩,
      by omega⟩
    rcases List.mem_append.1 hb with hb | hb
    · exact first b hb
    · rwa [List.mem_singleton.1 hb]

/-- The round that ends the search. -/
theorem Searching.done {tail size ptr : Nat} {res : Nat × Memory}
    (behind : k.head + k.totalSize ≤ tail) (state : Searching k cs size ptr)
    (step : kmallocBody m tail size ptr = .done res) :
    ∃ l c r, cs = l ++ c :: r ∧ Fits size c ∧ (∀ b ∈ l, ¬ Fits size b) ∧
      res = (k.head + total AllocHeader.getSize l + 8,
        takeChunk m (k.head + total AllocHeader.getSize l) size) := by
  obtain ⟨l, c, r, e, rfl, first, -⟩ := state
  obtain ⟨header, large, inside, bound⟩ := chunk_at arena walk e
  rw [kmallocBody_eq header (by omega) (by omega) (by omega)] at step
  by_cases yes : c.isFree && decide (size ≤ c.getSize)
  · rw [if_pos yes, Loop.Next.done.injEq] at step
    exact ⟨l, c, r, e, by simpa [Fits] using yes, first, step.symm⟩
  · rw [if_neg yes] at step
    simp at step

omit arena walk in
theorem Searching.start {size : Nat} (fits : ∃ c ∈ cs, Fits size c) :
    Searching k cs size k.head := by
  obtain ⟨c, hc, fit⟩ := fits
  obtain ⟨d, r, rfl⟩ := List.exists_cons_of_ne_nil (List.ne_nil_of_mem hc)
  exact ⟨[], d, r, rfl, rfl, fun _ h => absurd h List.not_mem_nil, c, hc, fit⟩

/-- `kmalloc` takes the first chunk that fits. -/
theorem kmalloc_spec {sz : BitVec 64} (pos : 1 ≤ sz.toNat) (le : sz.toNat ≤ 2 ^ 63)
    (fits : ∃ c ∈ cs, Fits (needed sz) c) {fuel : Nat} (enough : k.totalSize < fuel) :
    ∃ l c r, cs = l ++ c :: r ∧ Fits (needed sz) c ∧ (∀ b ∈ l, ¬ Fits (needed sz) b) ∧
      k.kmalloc fuel m sz = some (k.head + total AllocHeader.getSize l + 8,
        takeChunk m (k.head + total AllocHeader.getSize l) (needed sz)) := by
  have top := arena.top
  have behind : k.head + k.totalSize ≤ k.head + 8 * k.totalSize := by omega
  obtain ⟨res, run, l, c, r, e, fit, first, rfl⟩ := Loop.run_of_variant _
    (fun _ _ state => Searching.again arena walk behind state)
    (fun _ _ state => Searching.done arena walk behind state) (Searching.start fits)
    (show k.head + k.totalSize - k.head < fuel by omega)
  exact ⟨l, c, r, e, fit, first, by rw [kmalloc_eq arena pos le, run]⟩

/-- The chunk `kmalloc` takes, when the first one that fits is known. -/
theorem kmalloc_first {sz : BitVec 64} (pos : 1 ≤ sz.toNat) (le : sz.toNat ≤ 2 ^ 63)
    {l r : List AllocHeader} {c : AllocHeader} (e : cs = l ++ c :: r) (fit : Fits (needed sz) c)
    (first : ∀ b ∈ l, ¬ Fits (needed sz) b) {fuel : Nat} (enough : k.totalSize < fuel) :
    k.kmalloc fuel m sz = some (k.head + total AllocHeader.getSize l + 8,
      takeChunk m (k.head + total AllocHeader.getSize l) (needed sz)) := by
  obtain ⟨l', c', r', e', fit', first', run⟩ :=
    kmalloc_spec arena walk pos le ⟨c, by rw [e]; simp, fit⟩ enough
  obtain ⟨rfl, -, -⟩ := eq_of_first (e.symm.trans e') fit first fit' first'
  exact run

end Kmalloc

/-- Taking a chunk keeps the walk and the taken chunks, and adds one to them. -/
theorem takeChunk_walk {k : KernelMemoryAllocator} {m : Memory} {l r : List AllocHeader}
    {c : AllocHeader} (walk : Walk k m (l ++ c :: r)) (size : Nat) (fits : Fits size c)
    (low : 16 ≤ size) (dvd : 8 ∣ size) {a : Nat} (place : a = k.head + total AllocHeader.getSize l) :
    Walk k (takeChunk m a size) (l ++ splitChunk size c ++ r) ∧
      Kept (takenFrom k.head (l ++ c :: r)) m (takeChunk m a size) ∧
      ∃ d, size ≤ d.getSize ∧ takenFrom k.head (l ++ c :: r) =
        takenFrom k.head l ++ takenFrom (a + c.getSize) r ∧
      takenFrom k.head (l ++ splitChunk size c ++ r) =
        takenFrom k.head l ++ (a, d) :: takenFrom (a + c.getSize) r := by
  subst place
  have chunk := walk.sizes c (by simp)
  have tiles := walk.tiles
  have header := tiles.header_middle
  have whole : total AllocHeader.getSize [c] = c.getSize := by simp
  have frame : ∀ x, x < k.head + total AllocHeader.getSize l ∨
      k.head + total AllocHeader.getSize l + total AllocHeader.getSize [c] ≤ x →
      takeChunk m (k.head + total AllocHeader.getSize l) size x = m x := fun x h =>
    takeChunk_apply_of_outside fits header (by omega) (by omega)
  have before : takenFrom k.head (l ++ c :: r) = takenFrom k.head l ++
      takenFrom (k.head + total AllocHeader.getSize l + total AllocHeader.getSize [c]) r := by
    have none : takenFrom (k.head + total AllocHeader.getSize l) [c] = [] :=
      takenFrom_free fun b hb => by rw [List.mem_singleton.1 hb]; exact fits.1
    rw [← List.singleton_append, takenFrom_append, takenFrom_append, none, List.nil_append]
  obtain ⟨d, new, room⟩ := takenFrom_splitChunk fits (k.head + total AllocHeader.getSize l)
  refine ⟨?_, ?_, d, room, ?_, ?_⟩
  · rw [← List.singleton_append, ← List.append_assoc] at walk
    exact walk.recut frame ((total_splitChunk fits (by omega)).trans whole.symm)
      (tiles_splitChunk fits header (by omega)) (sizes_splitChunk fits low dvd chunk.1)
  · rw [before]
    exact kept_outside frame
  · rw [before, whole]
  · rw [List.append_assoc, takenFrom_append, takenFrom_append, new,
      total_splitChunk fits (by omega)]
    rfl

/-! ## `coalesce` -/

/-- Two free neighbours as one chunk. -/
def merge (c d : AllocHeader) : AllocHeader := { c with size := .ofNat 63 (c.getSize + d.getSize) }

/-- One pass over the chunks that merges a free chunk with a free successor, and goes on behind
the merged chunk. -/
def mergePass : List AllocHeader → List AllocHeader
  | c :: d :: cs =>
    if c.isFree && d.isFree then merge c d :: mergePass cs else c :: mergePass (d :: cs)
  | cs => cs

theorem takenFrom_mergePass (a : Nat) (cs : List AllocHeader)
    (bound : total AllocHeader.getSize cs < 2 ^ 63) :
    takenFrom a (mergePass cs) = takenFrom a cs := by
  fun_induction mergePass cs generalizing a with
  | case1 c d cs free ih =>
    rw [Bool.and_eq_true] at free
    simp only [total_cons] at bound
    have cFree : c.isTaken = false := by simpa [AllocHeader.isFree] using free.1
    have dFree : d.isTaken = false := by simpa [AllocHeader.isFree] using free.2
    have merged : (merge c d).isTaken = false := cFree
    have size : (merge c d).getSize = c.getSize + d.getSize := by
      rw [merge, AllocHeader.getSize, BitVec.toNat_ofNat, Nat.mod_eq_of_lt (by omega)]
    rw [takenFrom_cons, takenFrom_cons, takenFrom_cons, merged, cFree, dFree, size]
    simp only [Bool.false_eq_true, if_false]
    rw [ih _ (by omega), Nat.add_assoc]
  | case2 c d cs free ih =>
    rw [total_cons] at bound
    rw [takenFrom_cons, takenFrom_cons (r := d :: cs), ih _ (by omega)]
  | case3 => rfl

theorem coalesceBody_of_tail {m : Memory} {tail ptr : Nat} (h : tail ≤ ptr) :
    coalesceBody tail (ptr, m) = .done m := by
  simp only [coalesceBody, if_neg (Nat.not_lt.2 h)]

/-- One round of `coalesce` at a chunk. -/
theorem coalesceBody_eq {m : Memory} (tail : Nat) {ptr : Nat} {c : AllocHeader}
    (header : AllocHeader.load m ptr = c) (inside : ptr < tail) (large : 16 ≤ c.getSize)
    (fits : ptr + c.getSize ≤ tail) (bound : tail < 2 ^ 64)
    (next : ptr + c.getSize < tail →
      ptr + c.getSize + (AllocHeader.load m (ptr + c.getSize)).getSize ≤ tail ∧
        c.getSize + (AllocHeader.load m (ptr + c.getSize)).getSize < 2 ^ 63) :
    coalesceBody tail (ptr, m) =
      if tail ≤ ptr + c.getSize then .done m
      else if c.isFree && (AllocHeader.load m (ptr + c.getSize)).isFree then
        .again (ptr + (merge c (AllocHeader.load m (ptr + c.getSize))).getSize,
          AllocHeader.store m ptr (merge c (AllocHeader.load m (ptr + c.getSize))))
      else .again (ptr + c.getSize, m) := by
  have nextPtr : (ptr + c.getSize) % 2 ^ 64 = ptr + c.getSize := Nat.mod_eq_of_lt (by omega)
  simp only [coalesceBody, if_pos inside, header, nextPtr]
  by_cases last : tail ≤ ptr + c.getSize
  · rw [if_pos (Or.inl last), if_pos last]
  · rw [if_neg (by omega), if_neg last]
    generalize hd : AllocHeader.load m (ptr + c.getSize) = d at next
    have room := next (by omega)
    by_cases free : c.isFree && d.isFree
    · have sum : (c.getSize + d.getSize) % 2 ^ 64 = c.getSize + d.getSize :=
        Nat.mod_eq_of_lt (by omega)
      have size : (merge c d).getSize = c.getSize + d.getSize := by
        rw [merge, AllocHeader.getSize, BitVec.toNat_ofNat, Nat.mod_eq_of_lt (by omega)]
      have stored : AllocHeader.setSize m ptr (c.getSize + d.getSize) =
          AllocHeader.store m ptr (merge c d) := by
        rw [AllocHeader.setSize, header, merge]
      rw [if_pos free, if_pos free, sum, stored, AllocHeader.load_store,
        Nat.mod_eq_of_lt (by rw [size]; omega)]
    · rw [if_neg free, if_neg free, header, nextPtr]

/-- Merging two free neighbours keeps the walk and the taken chunks. -/
theorem merge_walk {k : KernelMemoryAllocator} (arena : k.Arena) {m : Memory}
    {l r : List AllocHeader} {c d : AllocHeader} (walk : Walk k m (l ++ c :: d :: r))
    (free : c.isFree ∧ d.isFree) {a : Nat} (place : a = k.head + total AllocHeader.getSize l) :
    Walk k (AllocHeader.store m a (merge c d)) (l ++ merge c d :: r) ∧
      Kept (takenFrom k.head (l ++ c :: d :: r)) m (AllocHeader.store m a (merge c d)) := by
  subst place
  have top := arena.top
  have cut := walk.total_le (l := l) (r := c :: d :: r) rfl
  simp only [total_cons] at cut
  have chunkC := walk.sizes c (by simp)
  have chunkD := walk.sizes d (by simp)
  have size : (merge c d).getSize = c.getSize + d.getSize := by
    rw [merge, AllocHeader.getSize, BitVec.toNat_ofNat, Nat.mod_eq_of_lt (by omega)]
  have both : total AllocHeader.getSize [c, d] = c.getSize + d.getSize := by simp
  have frame : ∀ x, x < k.head + total AllocHeader.getSize l ∨
      k.head + total AllocHeader.getSize l + total AllocHeader.getSize [c, d] ≤ x →
      AllocHeader.store m (k.head + total AllocHeader.getSize l) (merge c d) x = m x := fun x h =>
    AllocHeader.store_apply_of_outside _ _ (by omega)
  have split : l ++ c :: d :: r = l ++ [c, d] ++ r := by simp
  have split' : l ++ merge c d :: r = l ++ [merge c d] ++ r := by simp
  constructor
  · rw [split] at walk
    rw [split']
    refine walk.recut frame (by simp [size]) ⟨AllocHeader.load_store _ _ _, trivial⟩ fun b hb => ?_
    rw [List.mem_singleton.1 hb, size]
    omega
  · have none : takenFrom (k.head + total AllocHeader.getSize l) [c, d] = [] :=
      takenFrom_free fun b hb => by
        rcases List.mem_cons.1 hb with rfl | hb
        · exact free.1
        · rw [List.mem_singleton.1 hb]
          exact free.2
    rw [split, List.append_assoc, takenFrom_append, takenFrom_append, none, List.nil_append]
    exact kept_outside frame

/-- The state of `coalesce` in front of the chunks `r`: those before are merged, and the taken
chunks are as they were in `m`. -/
def Merging (k : KernelMemoryAllocator) (cs : List AllocHeader) (m : Memory) (p : Nat × Memory) :
    Prop :=
  ∃ l r, Walk k p.2 (l ++ r) ∧ p.1 = k.head + total AllocHeader.getSize l ∧
    l ++ mergePass r = mergePass cs ∧ takenFrom k.head (l ++ r) = takenFrom k.head cs ∧
    Kept (takenFrom k.head cs) m p.2

/-- One round of `coalesce`. -/
theorem Merging.step {k : KernelMemoryAllocator} (arena : k.Arena) {cs : List AllocHeader}
    {m : Memory} {p : Nat × Memory} (state : Merging k cs m p) :
    (∃ p', coalesceBody (k.head + k.totalSize) p = .again p' ∧ Merging k cs m p' ∧
      p.1 < p'.1 ∧ p.1 < k.head + k.totalSize) ∨
    ∃ m', coalesceBody (k.head + k.totalSize) p = .done m' ∧ Walk k m' (mergePass cs) ∧
      Kept (takenFrom k.head cs) m m' := by
  have top := arena.top
  obtain ⟨ptr, m₁⟩ := p
  obtain ⟨l, r, walk, place, merged, taken, kept⟩ := state
  simp only at walk place kept ⊢
  cases r with
  | nil =>
    have whole := walk.whole
    rw [List.append_nil] at whole walk
    rw [mergePass, List.append_nil] at merged
    · exact Or.inr ⟨m₁, coalesceBody_of_tail (by omega), merged ▸ walk, kept⟩
    · simp
  | cons c r =>
    have tiles := walk.tiles
    have header : AllocHeader.load m₁ ptr = c := by
      rw [place]
      exact tiles.header_middle
    have chunk := walk.sizes c (by simp)
    have cut := walk.total_le (l := l) (r := c :: r) rfl
    rw [total_cons] at cut
    cases r with
    | nil =>
      rw [total_nil] at cut
      have body := coalesceBody_eq (k.head + k.totalSize) header (by omega) chunk.2
        (by omega) (by omega) (fun h => absurd h (by omega))
      rw [if_pos (by omega)] at body
      rw [mergePass] at merged
      · exact Or.inr ⟨m₁, body, merged ▸ walk, kept⟩
      · simp
    | cons d r =>
      have chunkD := walk.sizes d (by simp)
      rw [total_cons] at cut
      have split : l ++ c :: d :: r = (l ++ [c]) ++ d :: r := by simp
      have size : total AllocHeader.getSize (l ++ [c]) =
          total AllocHeader.getSize l + c.getSize := by simp
      have headerD : AllocHeader.load m₁ (ptr + c.getSize) = d := by
        have tilesD := tiles
        rw [split] at tilesD
        have := tilesD.header_middle
        rwa [size, ← Nat.add_assoc, ← place] at this
      have body := coalesceBody_eq (k.head + k.totalSize) header (by omega) chunk.2
        (by omega) (by omega) (fun _ => by rw [headerD]; omega)
      rw [if_neg (by omega), headerD] at body
      by_cases free : c.isFree && d.isFree
      · rw [if_pos free] at body
        rw [mergePass, if_pos free] at merged
        rw [Bool.and_eq_true] at free
        obtain ⟨walk', kept'⟩ := merge_walk arena walk free place
        rw [taken] at kept'
        have sum : (merge c d).getSize = c.getSize + d.getSize := by
          rw [merge, AllocHeader.getSize, BitVec.toNat_ofNat, Nat.mod_eq_of_lt (by omega)]
        refine Or.inl ⟨_, body, ⟨l ++ [merge c d], r, by simpa using walk', ?_, by simpa using merged,
          ?_, kept.trans kept'⟩, ?_, ?_⟩
        · simp only [total_append, total_cons, total_nil]
          omega
        · have cFree : c.isTaken = false := by simpa [AllocHeader.isFree] using free.1
          have dFree : d.isTaken = false := by simpa [AllocHeader.isFree] using free.2
          have mFree : (merge c d).isTaken = false := cFree
          rw [← taken, takenFrom_append, takenFrom_append, takenFrom_append, takenFrom_cons,
            takenFrom_cons (c := c), takenFrom_cons (c := d), cFree, dFree, mFree]
          simp [sum, Nat.add_assoc]
          rfl
        · simp only
          omega
        · omega
      · rw [if_neg free] at body
        rw [mergePass, if_neg free] at merged
        refine Or.inl ⟨_, body, ⟨l ++ [c], d :: r, split ▸ walk, ?_, by simpa using merged,
          split ▸ taken, kept⟩, ?_, ?_⟩
        · simp only [size]
          omega
        · simp only
          omega
        · omega

/-- `coalesce` makes one merging pass over the chunks and keeps the taken ones. -/
theorem coalesce_spec {k : KernelMemoryAllocator} (arena : k.Arena) {m : Memory}
    {cs : List AllocHeader} (walk : Walk k m cs) {fuel : Nat} (enough : k.totalSize < fuel) :
    ∃ m', k.coalesce fuel m = some m' ∧ Walk k m' (mergePass cs) ∧
      Kept (takenFrom k.head cs) m m' := by
  have top := arena.top
  have tail : (k.head + k.totalSize) % 2 ^ 64 = k.head + k.totalSize := Nat.mod_eq_of_lt (by omega)
  unfold coalesce
  rw [tail]
  refine Loop.run_of_variant (I := Merging k cs m) (fun p => k.head + k.totalSize - p.1)
    (fun p p' state next => ?_) (fun p m' state next => ?_)
    ⟨[], cs, walk, rfl, rfl, rfl, fun _ _ _ _ _ => rfl⟩ (by simp only; omega)
  · rcases state.step arena with ⟨p'', body, state', more, inside⟩ | ⟨_, body, -⟩
    · obtain rfl := Loop.Next.again.inj (body.symm.trans next)
      exact ⟨state', by omega⟩
    · simp [body] at next
  · rcases state.step arena with ⟨_, body, -⟩ | ⟨m'', body, result⟩
    · simp [body] at next
    · obtain rfl := Loop.Next.done.inj (body.symm.trans next)
      exact result

/-! ## `kfree` -/

/-- A chunk after `set_free`. -/
def freed (c : AllocHeader) : AllocHeader := { c with taken := 0 }

/-- `kfree` of a chunk frees it and makes one merging pass. -/
theorem kfree_walk {k : KernelMemoryAllocator} (arena : k.Arena) {m : Memory}
    {l r : List AllocHeader} {c : AllocHeader} (walk : Walk k m (l ++ c :: r)) {fuel : Nat}
    (enough : k.totalSize < fuel) :
    ∃ m', k.kfree fuel m (k.head + total AllocHeader.getSize l + 8) = some m' ∧
      Walk k m' (mergePass (l ++ freed c :: r)) ∧
      Kept (takenFrom k.head (l ++ freed c :: r)) m m' := by
  have top := arena.top
  have chunk := walk.sizes c (by simp)
  have cut := walk.total_le (l := l) (r := c :: r) rfl
  rw [total_cons] at cut
  generalize address : k.head + total AllocHeader.getSize l = a
  have header : AllocHeader.load m a = c := by
    rw [← address]
    exact walk.tiles.header_middle
  have free : (freed c).isTaken = false := rfl
  have size : (freed c).getSize = c.getSize := rfl
  have frame : ∀ x, x < k.head + total AllocHeader.getSize l ∨
      k.head + total AllocHeader.getSize l + total AllocHeader.getSize [c] ≤ x →
      AllocHeader.setFree m a x = m x := fun x h => by
    simp only [total_cons, total_nil] at h
    exact AllocHeader.store_apply_of_outside _ _ (by omega)
  -- the state after `set_free`
  have changed : Walk k (AllocHeader.setFree m a) (l ++ [freed c] ++ r) := by
    have split : l ++ c :: r = l ++ [c] ++ r := by simp
    rw [split] at walk
    refine walk.recut frame (by simp [size]) ⟨?_, trivial⟩ fun b hb => ?_
    · rw [address, AllocHeader.setFree, AllocHeader.load_store, header]
      rfl
    · rw [List.mem_singleton.1 hb]
      exact chunk
  have others : takenFrom k.head (l ++ freed c :: r) = takenFrom k.head l ++
      takenFrom (k.head + total AllocHeader.getSize l + total AllocHeader.getSize [c]) r := by
    rw [takenFrom_append, takenFrom_cons, free]
    simp [size]
  have kept : Kept (takenFrom k.head (l ++ freed c :: r)) m (AllocHeader.setFree m a) := by
    rw [others]
    exact kept_outside frame
  rw [List.append_assoc, List.singleton_append] at changed
  have alloc : (a + 8 + (2 ^ 64 - 8)) % 2 ^ 64 = a := by omega
  obtain ⟨m', run, walk', kept'⟩ := coalesce_spec arena changed enough
  refine ⟨m', ?_, walk', kept.trans kept'⟩
  rw [kfree, if_neg (by omega), alloc, run]

/-- The taken chunks without the one that is freed. -/
theorem takenFrom_freed {k : KernelMemoryAllocator} {m : Memory} {l r : List AllocHeader}
    {c : AllocHeader} (walk : Walk k m (l ++ c :: r)) (isTaken : c.isTaken) :
    takenFrom k.head (l ++ freed c :: r) = (takenFrom k.head (l ++ c :: r)).filter
      (·.1 ≠ k.head + total AllocHeader.getSize l) := by
  have free : (freed c).isTaken = false := rfl
  have size : (freed c).getSize = c.getSize := rfl
  have chunk := walk.sizes c (by simp)
  have left : ∀ q ∈ takenFrom k.head l, q.1 ≠ k.head + total AllocHeader.getSize l := by
    intro q hq
    have before := le_places (mem_takenFrom.1 hq).1
    obtain ⟨_, _, split, -⟩ := exists_of_mem_places (mem_takenFrom.1 hq).1
    have large := (walk.sizes q.2 (by rw [split]; simp)).2
    omega
  have right : ∀ q ∈ takenFrom (k.head + total AllocHeader.getSize l + c.getSize) r,
      q.1 ≠ k.head + total AllocHeader.getSize l := by
    intro q hq
    have behind := le_places (mem_takenFrom.1 hq).1
    omega
  rw [takenFrom_append, takenFrom_append, takenFrom_cons, takenFrom_cons, free, if_pos isTaken,
    size, List.filter_append, List.filter_cons,
    List.filter_eq_self.2 fun q hq => by simpa using left q hq,
    List.filter_eq_self.2 fun q hq => by simpa using right q hq]
  simp

/-- `kfree` of a taken chunk frees it and keeps the other taken chunks. -/
theorem kfree_spec {k : KernelMemoryAllocator} (arena : k.Arena) {m : Memory}
    {cs : List AllocHeader} (walk : Walk k m cs) {p : Nat × AllocHeader}
    (hp : p ∈ takenFrom k.head cs) {fuel : Nat} (enough : k.totalSize < fuel) :
    ∃ m' cs', k.kfree fuel m (p.1 + 8) = some m' ∧ Walk k m' cs' ∧
      takenFrom k.head cs' = (takenFrom k.head cs).filter (·.1 ≠ p.1) ∧
      Kept (takenFrom k.head cs') m m' := by
  have top := arena.top
  obtain ⟨place, isTaken⟩ := mem_takenFrom.1 hp
  obtain ⟨l, r, e, address⟩ := exists_of_mem_places place
  obtain ⟨a, c⟩ := p
  simp only at e address isTaken ⊢
  subst e
  obtain ⟨m', run, walk', kept⟩ := kfree_walk arena walk enough
  have whole := walk.whole
  have same := takenFrom_mergePass k.head (l ++ freed c :: r) (by
    simp only [total_append, total_cons] at whole ⊢
    have size : (freed c).getSize = c.getSize := rfl
    omega)
  rw [address]
  refine ⟨m', _, run, walk', same.trans (takenFrom_freed walk isTaken), ?_⟩
  rw [same]
  exact kept

/-! ## `get_statistics` -/

/-- The bytes of the taken chunks. -/
def usedBytes (cs : List AllocHeader) : Nat := total AllocHeader.getSize (cs.filter (·.isTaken))

/-- The bytes of the free chunks. -/
def freeBytes (cs : List AllocHeader) : Nat := total AllocHeader.getSize (cs.filter (!·.isTaken))

theorem usedBytes_add_freeBytes (cs : List AllocHeader) :
    usedBytes cs + freeBytes cs = total AllocHeader.getSize cs := by
  induction cs with
  | nil => rfl
  | cons c cs ih =>
    unfold usedBytes freeBytes at ih ⊢
    cases h : c.isTaken <;> simp [h] <;> omega

/-- `get_statistics` adds up the taken and the free chunks. -/
theorem getStatistics_spec {k : KernelMemoryAllocator} (arena : k.Arena) {m : Memory}
    {cs : List AllocHeader} (walk : Walk k m cs) {fuel : Nat} (enough : k.totalSize < fuel) :
    k.getStatistics fuel m = some
      { totalSize := k.totalSize, freeSize := freeBytes cs, usedSize := usedBytes cs } := by
  have top := arena.top
  have tail : (k.head + k.totalSize) % 2 ^ 64 = k.head + k.totalSize := Nat.mod_eq_of_lt (by omega)
  -- the sums so far are those of the chunks before `ptr`
  let I : Nat × Nat × Nat → Prop := fun p => ∃ l r, cs = l ++ r ∧
    p = (k.head + total AllocHeader.getSize l, freeBytes l, usedBytes l)
  have step : ∀ p, I p →
      (∃ p', statisticsBody m (k.head + k.totalSize) p = .again p' ∧ I p' ∧ p.1 < p'.1 ∧
        p.1 < k.head + k.totalSize) ∨
      statisticsBody m (k.head + k.totalSize) p = .done (freeBytes cs, usedBytes cs) := by
    rintro _ ⟨l, r, e, rfl⟩
    cases r with
    | nil =>
      right
      rw [List.append_nil] at e
      subst e
      have whole := walk.whole
      simp only [statisticsBody]
      rw [if_neg (by omega)]
    | cons c r =>
      left
      obtain ⟨header, large, inside, bound⟩ := chunk_at arena walk e
      have sums := usedBytes_add_freeBytes (l ++ [c])
      have next : total AllocHeader.getSize (l ++ [c]) =
          total AllocHeader.getSize l + c.getSize := by simp
      have nextPtr : (k.head + total AllocHeader.getSize l + c.getSize) % 2 ^ 64 =
          k.head + total AllocHeader.getSize l + c.getSize := Nat.mod_eq_of_lt (by omega)
      refine ⟨(k.head + total AllocHeader.getSize (l ++ [c]), freeBytes (l ++ [c]),
        usedBytes (l ++ [c])), ?_, ⟨l ++ [c], r, by simp [e], rfl⟩, by simp only; omega,
        by simp only; omega⟩
      simp only [statisticsBody, if_pos (show k.head + total AllocHeader.getSize l <
        k.head + k.totalSize by omega), header, nextPtr, next]
      cases h : c.isTaken
      · have freeNext : freeBytes (l ++ [c]) = freeBytes l + c.getSize := by simp [freeBytes, h]
        have usedNext : usedBytes (l ++ [c]) = usedBytes l := by simp [usedBytes, h]
        simp only [Bool.false_eq_true, if_false, freeNext, usedNext]
        rw [Nat.mod_eq_of_lt (by omega), Nat.add_assoc]
      · have freeNext : freeBytes (l ++ [c]) = freeBytes l := by simp [freeBytes, h]
        have usedNext : usedBytes (l ++ [c]) = usedBytes l + c.getSize := by simp [usedBytes, h]
        simp only [if_true, freeNext, usedNext]
        rw [Nat.mod_eq_of_lt (by omega), Nat.add_assoc]
  obtain ⟨res, run, rfl⟩ := Loop.run_of_variant (I := I) (Q := (· = (freeBytes cs, usedBytes cs)))
    (fun p => k.head + k.totalSize - p.1)
    (fun p p' state next => by
      rcases step p state with ⟨p'', body, state', more, inside⟩ | body
      · obtain rfl := Loop.Next.again.inj (body.symm.trans next)
        exact ⟨state', by omega⟩
      · simp [body] at next)
    (fun p res state next => by
      rcases step p state with ⟨p'', body, -⟩ | body
      · simp [body] at next
      · exact (Loop.Next.done.inj (body.symm.trans next)).symm)
    ⟨[], cs, rfl, rfl⟩ (show k.head + k.totalSize - k.head < fuel by omega)
  rw [getStatistics, tail]
  simp only [total_nil, Nat.add_zero] at run
  rw [show ((0 : Nat), (0 : Nat)) = (freeBytes [], usedBytes []) from rfl, run]
  rfl

end KernelMemoryAllocator

end MatteOS.Memory
