import MatteOS.Memory.Verify.Exhaustion

/-!
# What `kzmalloc` clears

Every round of the loop of `kzmalloc` clears the byte at offset 1 of the payload. The
memory it returns is zero exactly if the other bytes were zero before
(`returnsZeroed_iff`), and when the allocation fails it clears the byte at address 1.
-/

namespace MatteOS.Memory

open ByteMemory Tiling KernelMemoryAllocator

/-- The byte at `a` belongs to the header of a chunk. -/
def IsHeaderByte (k : KernelMemoryAllocator) (m : Memory) (a : Nat) : Prop :=
  ∃ cs, Walk k m cs ∧ ∃ p ∈ chunksFrom k.head cs, p.1 ≤ a ∧ a < p.1 + HEADER_SIZE

/-- A payload of `size` bytes at `ptr` was handed out and cleared, and nothing but it and chunk
headers was written. -/
structure ZeroedPayload (k : KernelMemoryAllocator) (m m' : Memory) (ptr size : Nat) : Prop where
  placed : k.head + HEADER_SIZE ≤ ptr ∧ ptr + size ≤ k.head + k.totalSize
  zero : ∀ a, ptr ≤ a → a < ptr + size → m' a = 0
  frame : ∀ a, a < ptr ∨ ptr + size ≤ a → ¬ IsHeaderByte k m' a → m' a = m a
  cleared : ∀ a ∈ clearedBytes ptr size, ptr ≤ a ∧ a < ptr + size

/-- What a caller of `kzmalloc(sz)` relies on. -/
def ReturnsZeroed (k : KernelMemoryAllocator) (m : Memory) (sz : BitVec 64) : Prop :=
  ∃ fuel ptr m', k.kzmalloc fuel m sz = some (ptr, m') ∧
    (ptr ≠ 0 → ZeroedPayload k m m' ptr (alignValue sz 3).toNat) ∧
    (ptr = 0 → m' = m ∧ clearedBytes ptr (alignValue sz 3).toNat = [])

/-- The first chunk that fits has a payload of zeros already, but for the byte at offset 1. -/
def FirstFitIsClear (k : KernelMemoryAllocator) (m : Memory) (sz : BitVec 64) : Prop :=
  ∃ l c r, Walk k m (l ++ c :: r) ∧ Fits (needed sz) c ∧ (∀ b ∈ l, ¬ Fits (needed sz) b) ∧
    ∀ i, i + HEADER_SIZE < needed sz → i ≠ 1 →
      m (k.head + total AllocHeader.getSize l + HEADER_SIZE + i) = 0

/-! ## The loop -/

theorem foldl_store8_zero_apply (as : List Nat) (m : Memory) (a : Nat) :
    as.foldl (fun m a => store8 m a 0) m a = if a ∈ as then 0 else m a := by
  induction as generalizing m with
  | nil => simp
  | cons b as ih =>
    rw [List.foldl_cons, ih]
    by_cases mem : a ∈ as
    · rw [if_pos mem, if_pos (List.mem_cons_of_mem b mem)]
    · rw [if_neg mem]
      by_cases e : a = b
      · rw [e, store8_apply_self, if_pos List.mem_cons_self]
      · rw [store8_apply_of_ne _ _ e, if_neg (by simp [e, mem])]

theorem mem_clearedBytes {mem size a : Nat} :
    a ∈ clearedBytes mem size ↔ 0 < size ∧ a = (mem + 1) % 2 ^ 64 := by
  simp only [clearedBytes, List.mem_map, List.mem_range]
  constructor
  · rintro ⟨i, less, rfl⟩
    exact ⟨by omega, rfl⟩
  · rintro ⟨pos, rfl⟩
    exact ⟨0, pos, rfl⟩

/-- All rounds together clear one byte. -/
theorem clear_eq_store8 {mem size : Nat} (pos : 0 < size) (low : mem + 1 < 2 ^ 64) (m : Memory) :
    (clearedBytes mem size).foldl (fun m a => store8 m a 0) m = store8 m (mem + 1) 0 := by
  funext a
  rw [foldl_store8_zero_apply]
  simp only [mem_clearedBytes, pos, true_and, Nat.mod_eq_of_lt low]
  rfl

/-! ## The size -/

theorem alignValue_toNat (sz : BitVec 64) :
    (alignValue sz 3).toNat = (sz.toNat + 7) % 2 ^ 64 / 8 * 8 := by
  have aligned := Align.and_not_lowMask_toNat (sz + Align.lowMask 3) (show 3 < 64 by omega)
  rw [BitVec.toNat_add, Align.lowMask_toNat (by omega)] at aligned
  exact aligned

theorem needed_alignValue {sz : BitVec 64} (some : 0 < (alignValue sz 3).toNat) :
    needed (alignValue sz 3) = needed sz ∧ needed sz = (alignValue sz 3).toNat + HEADER_SIZE := by
  have value := alignValue_toNat sz
  have bound := sz.isLt
  unfold needed HEADER_SIZE
  omega

/-! ## The chunk -/

section Chunk

variable {k : KernelMemoryAllocator} {s : KernelHeap} {l r : List AllocHeader} {c : AllocHeader}
  {sz : BitVec 64} (arena : k.Arena) (inv : s.Inv k (l ++ c :: r)) (fit : Fits (needed sz) c)

include inv fit

/-- The chunks after `kzmalloc` took the chunk `c`. -/
theorem walk_cleared (pos : 1 ≤ sz.toNat) :
    Walk k (store8 (takeChunk s.memory (k.head + total AllocHeader.getSize l) (needed sz))
      (k.head + total AllocHeader.getSize l + HEADER_SIZE + 1) 0)
      (l ++ splitChunk (needed sz) c ++ r) := by
  obtain ⟨inv', -⟩ := inv.takeChunk pos fit
  obtain ⟨d, hd, ge, room⟩ := inv'.owned _ List.mem_cons_self
  have header := inv'.walk.tiles.header_eq (mem_takenFrom.1 hd).1
  have large := (inv'.walk.sizes d (by
    obtain ⟨_, _, split, -⟩ := exists_of_mem_places (mem_takenFrom.1 hd).1
    rw [split]
    simp)).2
  simp only [Nat.add_sub_cancel] at header
  refine (@KernelHeap.Inv.write _ _ _ inv' _ List.mem_cons_self
    (k.head + total AllocHeader.getSize l + HEADER_SIZE + 1) ?_ ?_ 0).walk
  · unfold HEADER_SIZE
    simp only
    omega
  · simp only [Nat.add_sub_cancel, header]
    unfold HEADER_SIZE
    omega

/-- The headers that `kzmalloc` wrote are headers of chunks afterwards. -/
theorem isHeaderByte_cleared (pos : 1 ≤ sz.toNat) {a x : Nat}
    (written : a = k.head + total AllocHeader.getSize l ∨ 8 < c.getSize - needed sz ∧
      a = k.head + total AllocHeader.getSize l + needed sz) (low : a ≤ x) (high : x < a + 8) :
    IsHeaderByte k (store8 (takeChunk s.memory (k.head + total AllocHeader.getSize l) (needed sz))
      (k.head + total AllocHeader.getSize l + HEADER_SIZE + 1) 0) x := by
  have bound := c.size.isLt
  have le := fit.2
  unfold AllocHeader.getSize at le
  refine ⟨_, walk_cleared inv fit pos, ?_⟩
  unfold splitChunk
  by_cases large : 8 < c.getSize - needed sz
  · rw [if_pos large, List.append_assoc, List.cons_append, List.singleton_append]
    have size : (AllocHeader.mk (.ofNat 63 (needed sz)) 1).getSize = needed sz := by
      rw [AllocHeader.getSize, BitVec.toNat_ofNat, Nat.mod_eq_of_lt (by omega)]
    rcases written with rfl | ⟨-, rfl⟩
    · exact ⟨_, mem_places_middle k.head l _ _, low, high⟩
    · have place := @mem_places_middle _ AllocHeader.getSize k.head
        (l ++ [⟨.ofNat 63 (needed sz), 1⟩]) ⟨.ofNat 63 (c.getSize - needed sz), 0⟩ r
      rw [total_append, total_cons, total_nil, Nat.add_zero, size, ← Nat.add_assoc,
        List.append_assoc] at place
      exact ⟨_, place, low, high⟩
  · rw [if_neg large, List.append_assoc, List.singleton_append]
    obtain rfl := written.resolve_right fun split => large split.1
    exact ⟨_, mem_places_middle k.head l _ _, low, high⟩

include arena

/-- The payload of the chunk is zero afterwards if it was before, but for the byte that is
cleared. -/
theorem zeroedPayload_iff (pos : 1 ≤ sz.toNat) :
    ZeroedPayload k s.memory
      (store8 (takeChunk s.memory (k.head + total AllocHeader.getSize l) (needed sz))
        (k.head + total AllocHeader.getSize l + HEADER_SIZE + 1) 0)
      (k.head + total AllocHeader.getSize l + HEADER_SIZE) (needed sz - HEADER_SIZE) ↔
    ∀ i, i + HEADER_SIZE < needed sz → i ≠ 1 →
      s.memory (k.head + total AllocHeader.getSize l + HEADER_SIZE + i) = 0 := by
  obtain ⟨header, large, inside, below⟩ := chunk_at arena inv.walk rfl
  have le := fit.2
  have low : 16 ≤ needed sz := by
    unfold needed
    omega
  have written := fun {a x} => isHeaderByte_cleared inv fit pos (a := a) (x := x)
  generalize address : k.head + total AllocHeader.getSize l = a at *
  unfold HEADER_SIZE at *
  have payload : ∀ x, a + 8 ≤ x → x < a + needed sz → x ≠ a + 8 + 1 →
      store8 (takeChunk s.memory a (needed sz)) (a + 8 + 1) 0 x = s.memory x := by
    intro x above under ne
    rw [store8_apply_of_ne _ _ ne]
    exact takeChunk_apply (Or.inr above) fun _ => Or.inl under
  constructor
  · intro zeroed i under ne
    rw [← payload _ (by omega) (by omega) (by omega)]
    exact zeroed.zero _ (by omega) (by omega)
  · intro clear
    refine ⟨by unfold HEADER_SIZE; omega, fun x above under => ?_, fun x outside other => ?_, ?_⟩
    · by_cases e : x = a + 8 + 1
      · rw [e, store8_apply_self]
      · obtain ⟨i, rfl⟩ : ∃ i, x = a + 8 + i := ⟨x - (a + 8), by omega⟩
        rw [payload _ above (by omega) e]
        exact clear i (by omega) (by omega)
    · rw [store8_apply_of_ne _ _ (by omega)]
      refine takeChunk_apply ?_ fun split => ?_
      · by_contra near
        exact other (written (Or.inl rfl) (by omega) (by omega))
      · rw [header] at split
        by_contra near
        exact other (written (Or.inr ⟨split, rfl⟩) (by omega) (by omega))
    · intro x mem
      obtain ⟨-, rfl⟩ := mem_clearedBytes.1 mem
      rw [Nat.mod_eq_of_lt (by omega)]
      omega

end Chunk

/-! ## The call -/

section Call

variable {k : KernelMemoryAllocator} {m : Memory} {sz : BitVec 64}

/-- A search has one outcome. -/
theorem kmalloc_unique (arena : k.Arena) (pos : 1 ≤ sz.toNat) (le : sz.toNat ≤ 2 ^ 63)
    {fuel fuel' : Nat} {p p' : Nat × Memory} (run : k.kmalloc fuel m sz = some p)
    (run' : k.kmalloc fuel' m sz = some p') : p = p' := by
  rw [kmalloc_eq arena pos le] at run run'
  exact Loop.run_unique run run'

/-- A chunk was found, and one byte of it is cleared. -/
theorem kzmalloc_of_kmalloc {fuel ptr : Nat} {m' : Memory} (some : 0 < (alignValue sz 3).toNat)
    (low : ptr + 1 < 2 ^ 64) (run : k.kmalloc fuel m (alignValue sz 3) = .some (ptr, m')) :
    k.kzmalloc fuel m sz = .some (ptr, store8 m' (ptr + 1) 0) := by
  simp only [kzmalloc, run, Option.map_some, clear_eq_store8 some low]

/-- A size that wraps to 0 is not looked for. -/
theorem returnsZeroed_of_zero (zero : alignValue sz 3 = 0) : ReturnsZeroed k m sz := by
  refine ⟨0, 0, m, ?_, fun ne => absurd rfl ne, fun _ => ⟨rfl, ?_⟩⟩
  · rw [kzmalloc, zero]
    rfl
  · rw [zero]
    rfl

/-- **`kzmalloc` keeps its contract** exactly if the size wraps to 0 or the payload it hands out
was zero before. -/
theorem returnsZeroed_iff (arena : k.Arena) (low : k.head + 8 * k.totalSize < 2 ^ 63)
    {s : KernelHeap} {cs : List AllocHeader} (inv : s.Inv k cs) :
    ReturnsZeroed k s.memory sz ↔ alignValue sz 3 = 0 ∨ FirstFitIsClear k s.memory sz := by
  constructor
  · rintro ⟨fuel, ptr, m', run, zeroed, null⟩
    refine or_iff_not_imp_left.2 fun nonzero => ?_
    have some : 0 < (alignValue sz 3).toNat :=
      Nat.pos_of_ne_zero fun e => nonzero (BitVec.eq_of_toNat_eq e)
    obtain ⟨same, rounded⟩ := needed_alignValue some
    -- the null pointer is not returned without the byte at address 1 being cleared
    have ne : ptr ≠ 0 := by
      intro e
      have first := (@mem_clearedBytes ptr _ _).2 ⟨some, rfl⟩
      rw [(null e).2] at first
      exact absurd first List.not_mem_nil
    have handed := zeroed ne
    have placed := handed.placed
    have pos : 1 ≤ sz.toNat := by
      have value := alignValue_toNat sz
      omega
    unfold HEADER_SIZE at placed
    have le : (alignValue sz 3).toNat ≤ 2 ^ 63 := by omega
    obtain ⟨⟨ptr', m₁⟩, found, e⟩ := Option.map_eq_some_iff.1 run
    obtain ⟨rfl, rfl⟩ := Prod.mk.inj e
    by_cases fits : ∃ c ∈ cs, Fits (needed (alignValue sz 3)) c
    · obtain ⟨l, c, r, rfl, fit, first, found'⟩ :=
        kmalloc_spec arena inv.walk some le fits (Nat.lt_succ_self k.totalSize)
      obtain ⟨rfl, rfl⟩ := Prod.mk.inj (kmalloc_unique arena some le found found')
      rw [clear_eq_store8 some (by omega), same] at handed
      rw [same] at fit first
      have size : needed sz - HEADER_SIZE = (alignValue sz 3).toNat := by omega
      rw [← size] at handed
      exact ⟨l, c, r, inv.walk, fit, first, (zeroedPayload_iff arena inv fit pos).1 handed⟩
    · have behind := behind_of_not_fits arena inv.walk low some le
        (fun c hc fit => fits ⟨c, hc, fit⟩) found
      omega
  · rintro (zero | ⟨l, c, r, walk, fit, first, clear⟩)
    · exact returnsZeroed_of_zero zero
    · by_cases zero : alignValue sz 3 = 0
      · exact returnsZeroed_of_zero zero
      have some : 0 < (alignValue sz 3).toNat :=
        Nat.pos_of_ne_zero fun e => zero (BitVec.eq_of_toNat_eq e)
      obtain ⟨same, rounded⟩ := needed_alignValue some
      obtain rfl := inv.walk.unique walk
      obtain ⟨-, large, inside, below⟩ := chunk_at arena inv.walk rfl
      have enough := fit.2
      have value := alignValue_toNat sz
      have pos : 1 ≤ sz.toNat := by omega
      have ne := (zeroedPayload_iff arena inv fit pos).2 clear
      have found := kmalloc_first arena inv.walk some
        (by unfold HEADER_SIZE at rounded; omega) rfl (same ▸ fit) (same ▸ first)
        (Nat.lt_succ_self k.totalSize)
      rw [same] at found
      have size : needed sz - HEADER_SIZE = (alignValue sz 3).toNat := by omega
      rw [size] at ne
      exact ⟨_, _, _, kzmalloc_of_kmalloc some (by omega) found, fun _ => ne,
        fun null => absurd null (by omega)⟩

end Call

/-- **`kzmalloc` returns zeroed memory**, or fails without a write, in a reachable state exactly
if the size wraps to 0, or there is a chunk that fits and the first one is zero already. -/
theorem kernel_heap_returnsZeroed_iff {mm : MemoryManager} {h : PageHeap} (layout : mm.Layout)
    (inv : h.Inv mm) (room : HasRoom h mm.allocStart ALLOCATION_SIZE)
    (ram : mm.allocStart + PAGE_SIZE * mm.numberOfPages ≤ 2 ^ 56) {fuel : Nat}
    (enough : 262144 < fuel) {as : List HeapAction} {s : KernelHeap}
    (run : Transition.Run (KernelHeap.Step (construct h.memory mm.allocStart).1 fuel)
      ⟨(construct h.memory mm.allocStart).2, []⟩ as s) (sz : BitVec 64) :
    ReturnsZeroed (construct h.memory mm.allocStart).1 s.memory sz ↔
      alignValue sz 3 = 0 ∨ FirstFitIsClear (construct h.memory mm.allocStart).1 s.memory sz := by
  obtain ⟨arena, size, cs, inv'⟩ := KernelHeap.Inv.of_run layout inv room ram enough run
  obtain ⟨⟨i, fits, head⟩, -⟩ := construct_block layout inv room
  refine returnsZeroed_iff arena ?_ inv'
  rw [size, head]
  unfold PAGE_SIZE at ram ⊢
  omega

theorem smallHeap_low : smallHeap.1.head + 8 * smallHeap.1.totalSize < 2 ^ 63 := by
  have bounds : HeapBounds 0x80001000 0x100000 := ⟨by decide, by decide⟩
  obtain ⟨⟨i, fits, head⟩, -⟩ :=
    construct_block (initialManager_layout bounds) smallPages_inv.1 smallPages_inv.2
  have start : (initialManager 0x80001000 0x100000).allocStart < 2 ^ 56 := by decide
  have pages : (initialManager 0x80001000 0x100000).numberOfPages = 256 := by decide
  rw [← smallHeap] at head
  rw [smallHeap_inv.2.1, head]
  unfold PAGE_SIZE
  omega

/-- Eight bytes of a fresh heap. -/
theorem kernel_heap_returnsZeroed_eight_bytes : ReturnsZeroed smallHeap.1 smallHeap.2 8 := by
  have bounds : HeapBounds 0x80001000 0x100000 := ⟨by decide, by decide⟩
  have layout := initialManager_layout bounds
  have iff := kernel_heap_returnsZeroed_iff layout smallPages_inv.1 smallPages_inv.2 (by decide)
    (Nat.lt_succ_self 262144) (.nil _) 8
  have clear := (construct_block layout smallPages_inv.1 smallPages_inv.2).2
  rw [← smallHeap, KernelHeap.memory_mk] at iff
  rw [← smallHeap] at clear
  refine iff.2 (Or.inr ⟨[], _, [], smallHeap_walk, ⟨rfl, by decide⟩,
    fun _ mem => absurd mem List.not_mem_nil, ?_⟩)
  intro i small _
  have size : needed 8 = 16 := rfl
  rw [size, HEADER_SIZE] at small
  refine clear _ ?_ ?_
  · rw [total_nil, HEADER_SIZE]
    omega
  · rw [total_nil, HEADER_SIZE, PAGE_SIZE, ALLOCATION_SIZE]
    omega

/-- Freeing the first of two chunks, when the second one is free, writes the first header only. -/
theorem kfree_first_apply {k : KernelMemoryAllocator} (arena : k.Arena) {m m' : Memory}
    {c d : AllocHeader} (walk : Walk k m [c, d]) (free : d.isFree) {fuel : Nat}
    (run : k.kfree (fuel + 2) m (k.head + 8) = some m') {x : Nat} (outside : k.head + 8 ≤ x) :
    m' x = m x := by
  have top := arena.top
  have sizeC := (walk.sizes c (by simp)).2
  have sizeD := (walk.sizes d (by simp)).2
  have whole := walk.whole
  simp only [total_cons, total_nil] at whole
  obtain ⟨headerC, headerD, -⟩ := walk.tiles
  have tail : (k.head + k.totalSize) % 2 ^ 64 = k.head + k.totalSize := Nat.mod_eq_of_lt (by omega)
  have alloc : (k.head + 8 + (2 ^ 64 - 8)) % 2 ^ 64 = k.head := by omega
  have first : AllocHeader.load (AllocHeader.setFree m k.head) k.head = freed c := by
    rw [AllocHeader.setFree, AllocHeader.load_store, headerC]
    rfl
  have second : AllocHeader.load (AllocHeader.setFree m k.head) (k.head + (freed c).getSize) = d := by
    rw [AllocHeader.setFree, AllocHeader.load_store_of_disjoint _ _ (Or.inr (by
      change k.head + 8 ≤ k.head + c.getSize
      omega))]
    exact headerD
  have size : (freed c).getSize = c.getSize := rfl
  have body := coalesceBody_eq (k.head + k.totalSize) first (by omega) (by omega) (by omega)
    (by omega) (by rw [second]; omega)
  rw [if_neg (by omega), second, if_pos (by rw [free]; rfl)] at body
  have merged : (merge (freed c) d).getSize = c.getSize + d.getSize := by
    rw [merge, AllocHeader.getSize, BitVec.toNat_ofNat, size, Nat.mod_eq_of_lt (by omega)]
  rw [kfree, if_neg (by omega), alloc, coalesce, tail, Loop.run_again body,
    Loop.run_done (coalesceBody_of_tail (by omega))] at run
  obtain rfl := Option.some.inj run
  rw [AllocHeader.store_apply_of_outside _ _ (Or.inr outside), AllocHeader.setFree,
    AllocHeader.store_apply_of_outside _ _ (Or.inr outside)]

/-- Sixteen bytes are allocated, the first of them is written and they are freed: the next
`kzmalloc` returns them as they are. -/
theorem exists_run_reused {k : KernelMemoryAllocator} {m : Memory} (arena : k.Arena)
    (size : k.totalSize = 262144) (low : k.head + 8 * k.totalSize < 2 ^ 63)
    (inv : KernelHeap.Inv k ⟨m, []⟩ [{ size := 262144, taken := 0 }]) :
    ∃ s, Transition.Run (KernelHeap.Step k 262145) ⟨m, []⟩
        [.kmalloc 16, .write (k.head + 8) 0xff, .kfree (k.head + 8)] s ∧
      ¬ ReturnsZeroed k s.memory 16 := by
  have enough : k.totalSize < 262145 := by omega
  obtain ⟨s₁, step₁, live₁, inv₁⟩ := KernelHeap.Inv.exists_kmalloc (l := []) inv arena
    enough 16 (by decide) (by decide) ⟨rfl, by decide⟩ nofun
  replace inv₁ : s₁.Inv k ([] ++ ⟨24, 1⟩ :: [⟨262120, 0⟩]) := inv₁
  replace live₁ : s₁.live = [(k.head + 8, 16)] := live₁
  have owner : (k.head + 8, 16) ∈ s₁.live := by
    rw [live₁]
    exact List.mem_cons_self
  have header : AllocHeader.load s₁.memory (k.head + 8 - 8) = ⟨24, 1⟩ := inv₁.walk.tiles.1
  have room : k.head + 8 < k.head + 8 - 8 + (AllocHeader.load s₁.memory
      (k.head + 8 - 8)).getSize := by
    rw [header]
    exact Nat.add_lt_add_left (by decide) _
  have inv₂ := inv₁.write owner (Nat.le_refl _) room 0xff
  have step₂ : s₁.Step k 262145 (.write (k.head + 8) 0xff) _ :=
    ⟨⟨_, owner, Nat.le_refl _, room⟩, rfl⟩
  obtain ⟨s₃, step₃, -, inv₃⟩ := inv₂.exists_kfree arena enough owner
  replace inv₃ : s₃.Inv k [⟨262144, 0⟩] := inv₃
  refine ⟨s₃, .cons step₁ (.cons step₂ (.cons step₃ (.nil _))), ?_⟩
  -- the byte that was written is still there
  obtain ⟨m, run, rfl⟩ := Option.map_eq_some_iff.1 step₃.2
  have kept : m (k.head + 8) = 0xff :=
    (kfree_first_apply arena inv₂.walk rfl run (Nat.le_refl _)).trans (store8_apply_self _ _ _)
  intro returns
  rcases (returnsZeroed_iff arena low inv₃).1 returns with zero | ⟨l, c, r, walk, -, -, clear⟩
  · exact absurd zero (by decide)
  · have e := inv₃.walk.unique walk
    obtain rfl : [] = l := by
      cases l with
      | nil => rfl
      | cons b l => simp at e
    have first := clear 0 (by decide) (by decide)
    rw [total_nil, HEADER_SIZE] at first
    exact absurd (kept.symm.trans first) (by decide)

theorem not_returnsZeroed_reused :
    ∃ s, Transition.Run (KernelHeap.Step smallHeap.1 262145) ⟨smallHeap.2, []⟩
        [.kmalloc 16, .write (smallHeap.1.head + 8) 0xff, .kfree (smallHeap.1.head + 8)] s ∧
      ¬ ReturnsZeroed smallHeap.1 s.memory 16 :=
  exists_run_reused smallHeap_inv.1 smallHeap_inv.2.1 smallHeap_low smallHeap_inv.2.2

end MatteOS.Memory
