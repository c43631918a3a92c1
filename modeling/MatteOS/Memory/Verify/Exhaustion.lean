import MatteOS.Memory.Verify.Coalescing

/-!
# `kmalloc` when memory is exhausted

The end address of the search counts headers instead of bytes, so the search goes on
behind the arena when no chunk fits. It keeps to the arena exactly if some chunk does
(`kmallocContract_iff`).
-/

namespace MatteOS.Memory

open ByteMemory Tiling KernelMemoryAllocator

/-- The address of the header that `kmalloc(sz)` inspects in some round of its search. -/
def Inspects (k : KernelMemoryAllocator) (m : Memory) (sz : BitVec 64) (ptr : Nat) : Prop :=
  let size := alignValue sz 3 + .ofNat 64 HEADER_SIZE
  let tail := (k.head + HEADER_SIZE * k.totalSize) % 2 ^ 64
  Loop.Reaches (kmallocBody m tail size.toNat) k.head ptr ∧ ptr < tail

/-- What a caller of `kmalloc(sz)` relies on: only headers of the arena are inspected, and the
call returns the payload of the first chunk that fits, or the null pointer with the heap unchanged
when there is none. -/
structure KmallocContract (k : KernelMemoryAllocator) (m : Memory) (sz : BitVec 64) : Prop where
  inside : ∀ ptr, Inspects k m sz ptr → k.head ≤ ptr ∧ ptr + HEADER_SIZE ≤ k.head + k.totalSize
  returns : ∃ fuel ptr m' cs, k.kmalloc fuel m sz = some (ptr, m') ∧ Walk k m cs ∧
    ((∀ c ∈ cs, ¬ Fits (needed sz) c) ∧ ptr = 0 ∧ m' = m ∨
      ∃ l c r, cs = l ++ c :: r ∧ Fits (needed sz) c ∧ (∀ b ∈ l, ¬ Fits (needed sz) b) ∧
        ptr = k.head + total AllocHeader.getSize l + 8)

/-- One round of the search anywhere in memory. -/
theorem kmallocBody_cases (m : Memory) {tail : Nat} (low : tail ≤ 2 ^ 63) (size ptr : Nat) :
    (∃ res, kmallocBody m tail size ptr = .done res ∧ (res.1 = 0 ∨ res.1 = ptr + 8)) ∨
      ∃ ptr', kmallocBody m tail size ptr = .again ptr' ∧ ptr ≤ ptr' := by
  have bound := (AllocHeader.load m ptr).size.isLt
  unfold kmallocBody
  by_cases inside : ptr < tail
  · simp only [if_pos inside]
    split
    · exact Or.inl ⟨_, rfl, Or.inr (Nat.mod_eq_of_lt (by omega))⟩
    · refine Or.inr ⟨_, rfl, ?_⟩
      rw [Nat.mod_eq_of_lt (by unfold AllocHeader.getSize; omega)]
      exact Nat.le_add_right _ _
  · simp only [if_neg inside]
    exact Or.inl ⟨_, rfl, Or.inl rfl⟩

section Exhaustion

variable {k : KernelMemoryAllocator} {m : Memory} {cs : List AllocHeader} {sz : BitVec 64}
  (arena : k.Arena) (walk : Walk k m cs)

include arena

theorem inspects_iff (le : sz.toNat ≤ 2 ^ 63) {ptr : Nat} : Inspects k m sz ptr ↔
    Loop.Reaches (kmallocBody m (k.head + 8 * k.totalSize) (needed sz)) k.head ptr ∧
      ptr < k.head + 8 * k.totalSize := by
  have top := arena.top
  have tail : (k.head + HEADER_SIZE * k.totalSize) % 2 ^ 64 = k.head + 8 * k.totalSize :=
    Nat.mod_eq_of_lt (by unfold HEADER_SIZE; omega)
  simp only [Inspects, tail, needed_toNat le]

include walk

/-- The search passes by chunks that do not fit. -/
theorem reaches_of_not_fits {size : Nat} {p l r : List AllocHeader} (e : cs = p ++ l ++ r)
    (none : ∀ b ∈ l, ¬ Fits size b) :
    Loop.Reaches (kmallocBody m (k.head + 8 * k.totalSize) size)
      (k.head + total AllocHeader.getSize p)
      (k.head + total AllocHeader.getSize p + total AllocHeader.getSize l) := by
  induction l generalizing p with
  | nil => exact .refl _
  | cons c l ih =>
    have cut : cs = p ++ c :: (l ++ r) := by simp [e]
    obtain ⟨header, large, inside, bound⟩ := chunk_at arena walk cut
    have no : ¬ (c.isFree && decide (size ≤ c.getSize)) := by
      simpa [Fits] using none c List.mem_cons_self
    have step := @kmallocBody_eq _ (k.head + 8 * k.totalSize) size _ _ header (by omega)
      (by omega) (by omega)
    rw [if_neg no] at step
    have rest := ih (p := p ++ [c]) (by simp [e]) fun b hb => none b (List.mem_cons_of_mem c hb)
    rw [total_append, total_cons, total_nil, Nat.add_zero, ← Nat.add_assoc] at rest
    rw [total_cons, ← Nat.add_assoc]
    exact .again step rest

/-- **The search keeps to the arena** exactly if it finds a chunk there. -/
theorem kmallocContract_iff (some : 0 < k.totalSize) (pos : 1 ≤ sz.toNat)
    (le : sz.toNat ≤ 2 ^ 63) : KmallocContract k m sz ↔ ∃ c ∈ cs, Fits (needed sz) c := by
  have top := arena.top
  constructor
  · intro contract
    by_contra none
    -- the header behind the last chunk is inspected
    have reached := @reaches_of_not_fits _ _ _ arena walk (needed sz) [] cs []
      (by simp) fun b hb fit => none ⟨b, hb, fit⟩
    rw [walk.whole, total_nil, Nat.add_zero] at reached
    have inside := contract.inside _ ((inspects_iff arena le).2 ⟨reached, by omega⟩)
    unfold HEADER_SIZE at inside
    omega
  · intro fits
    refine ⟨fun ptr inspects => ?_, ?_⟩
    · obtain ⟨reaches, -⟩ := (inspects_iff arena le).1 inspects
      have state : Searching k cs (needed sz) ptr := reaches.invariant
        (fun _ _ state step => (Searching.again arena walk (by omega) state step).1)
        (Searching.start fits)
      obtain ⟨l, c, r, e, rfl, -⟩ := state
      obtain ⟨-, large, inside, -⟩ := chunk_at arena walk e
      unfold HEADER_SIZE
      omega
    · obtain ⟨l, c, r, e, fit, first, run⟩ :=
        kmalloc_spec arena walk pos le fits (Nat.lt_succ_self k.totalSize)
      exact ⟨_, _, _, cs, run, walk, Or.inr ⟨l, c, r, e, fit, first, rfl⟩⟩

/-- Without a chunk that fits, the result is the null pointer or lies behind the arena. -/
theorem behind_of_not_fits (low : k.head + 8 * k.totalSize < 2 ^ 63) (pos : 1 ≤ sz.toNat)
    (le : sz.toNat ≤ 2 ^ 63) (none : ∀ c ∈ cs, ¬ Fits (needed sz) c) {fuel ptr : Nat} {m' : Memory}
    (run : k.kmalloc fuel m sz = some (ptr, m')) : ptr = 0 ∨ k.head + k.totalSize < ptr := by
  have whole := walk.whole
  rw [kmalloc_eq arena pos le] at run
  obtain ⟨p, reaches, done⟩ := Loop.exists_done_of_run run
  -- the search is at a chunk or behind all of them
  let I : Nat → Prop := fun p =>
    (∃ l c r, cs = l ++ c :: r ∧ p = k.head + total AllocHeader.getSize l) ∨
      k.head + k.totalSize ≤ p
  have atChunk : ∀ l c r, cs = l ++ c :: r → kmallocBody m (k.head + 8 * k.totalSize) (needed sz)
      (k.head + total AllocHeader.getSize l) =
        .again (k.head + total AllocHeader.getSize l + c.getSize) := by
    intro l c r e
    obtain ⟨header, large, inside, bound⟩ := chunk_at arena walk e
    have no : ¬ (c.isFree && decide (needed sz ≤ c.getSize)) := by
      simpa [Fits] using none c (by rw [e]; simp)
    rw [kmallocBody_eq header (by omega) (by omega) (by omega), if_neg no]
  have start : I k.head := by
    cases cs with
    | nil => exact Or.inr (by rw [← whole, total_nil, Nat.add_zero])
    | cons c r => exact Or.inl ⟨[], c, r, rfl, rfl⟩
  have state : I p := by
    refine reaches.invariant (fun q q' state step => ?_) start
    rcases state with ⟨l, c, r, e, rfl⟩ | behind
    · rw [atChunk l c r e, Loop.Next.again.injEq] at step
      subst step
      cases r with
      | nil =>
        refine Or.inr ?_
        rw [← whole, e, total_append, total_cons, total_nil]
        omega
      | cons d r => exact Or.inl ⟨l ++ [c], d, r, by simp [e], by simp [Nat.add_assoc]⟩
    · right
      rcases kmallocBody_cases m (Nat.le_of_lt low) (needed sz) q with ⟨res, out, -⟩ | ⟨p', out, le⟩
      · simp [out] at step
      · obtain rfl := Loop.Next.again.inj (out.symm.trans step)
        omega
  rcases state with ⟨l, c, r, e, rfl⟩ | behind
  · simp [atChunk l c r e] at done
  · rcases kmallocBody_cases m (Nat.le_of_lt low) (needed sz) p with ⟨res, out, result⟩ | ⟨p', out, -⟩
    · obtain rfl := Loop.Next.done.inj (out.symm.trans done)
      simp only at result
      omega
    · simp [out] at done

end Exhaustion

/-- **`kmalloc` keeps its contract** in a reachable state exactly if a free chunk is large
enough. -/
theorem kernel_heap_kmallocContract_iff {mm : MemoryManager} {h : PageHeap} (layout : mm.Layout)
    (inv : h.Inv mm) (room : HasRoom h mm.allocStart ALLOCATION_SIZE)
    (ram : mm.allocStart + PAGE_SIZE * mm.numberOfPages ≤ 2 ^ 56) {fuel : Nat}
    (enough : 262144 < fuel) {as : List HeapAction} {s : KernelHeap}
    (run : Transition.Run (KernelHeap.Step (construct h.memory mm.allocStart).1 fuel)
      ⟨(construct h.memory mm.allocStart).2, []⟩ as s) {sz : BitVec 64} (pos : 1 ≤ sz.toNat)
    (le : sz.toNat ≤ 2 ^ 63) :
    KmallocContract (construct h.memory mm.allocStart).1 s.memory sz ↔
      ∃ cs, Walk (construct h.memory mm.allocStart).1 s.memory cs ∧
        ∃ c ∈ cs, Fits (needed sz) c := by
  obtain ⟨arena, size, cs, inv'⟩ := KernelHeap.Inv.of_run layout inv room ram enough run
  have some : 0 < (construct h.memory mm.allocStart).1.totalSize := by
    rw [size]
    decide
  rw [kmallocContract_iff arena inv'.walk some pos le]
  constructor
  · exact fun fits => ⟨cs, inv'.walk, fits⟩
  · rintro ⟨ds, walk, fits⟩
    rwa [inv'.walk.unique walk]

/-- The first byte of a fresh heap. -/
theorem kernel_heap_kmallocContract_one_byte : KmallocContract smallHeap.1 smallHeap.2 1 := by
  have bounds : HeapBounds 0x80001000 0x100000 := ⟨by decide, by decide⟩
  have iff := kernel_heap_kmallocContract_iff (initialManager_layout bounds) smallPages_inv.1
    smallPages_inv.2 (by decide) (Nat.lt_succ_self 262144) (.nil _)
    (show 1 ≤ (1 : BitVec 64).toNat by decide) (by decide)
  rw [← smallHeap, KernelHeap.memory_mk] at iff
  exact iff.2 ⟨_, smallHeap_walk, _, List.mem_cons_self, by unfold Fits; decide⟩

/-- A request for the whole of a fresh heap leaves no room for its header: the search reads on
behind the arena. -/
theorem not_kmallocContract_whole : ¬ KmallocContract smallHeap.1 smallHeap.2 262144 := by
  obtain ⟨arena, size, -⟩ := smallHeap_inv
  intro contract
  obtain ⟨c, mem, fit⟩ := (kmallocContract_iff arena smallHeap_walk (by omega) (by decide)
    (by decide)).1 contract
  rw [List.mem_singleton.1 mem] at fit
  exact absurd fit.2 (by decide)

end MatteOS.Memory
