import MatteOS.Lib.BlockTable
import MatteOS.Lib.Transition
import MatteOS.Memory.PageAllocator

/-!
# The page allocator keeps its blocks

The descriptors encode the live blocks and one block for page 0 (`PageHeap.Inv`). The
loops are given one lemma each, saying which descriptors they read or write; `alloc`
is then an addition to the encoded blocks and `dealloc` a removal
(`PageHeap.Inv.returned`, `PageHeap.Inv.dealloc`), whatever stands beside the block.
-/

namespace MatteOS.Memory

open ByteMemory BlockTable MemoryManager

namespace MemoryManager

/-! ## The loops -/

theorem rangeFree_iff (m : Memory) (firstPage n j : Nat) :
    rangeFree m firstPage n j ↔ ∀ x, j ≤ x → x < j + n → Page.isFree m (firstPage + x) := by
  induction n generalizing j with
  | zero => exact ⟨fun _ x _ _ => by omega, fun _ => rfl⟩
  | succ n ih =>
    unfold rangeFree
    by_cases h : Page.isFree m (firstPage + j)
    · simp only [h, Bool.not_true, Bool.false_eq_true, if_false]
      rw [ih]
      refine ⟨fun all x h1 h2 => ?_, fun all x h1 h2 => all x (by omega) (by omega)⟩
      by_cases e : x = j
      · rw [e]
        exact h
      · exact all x (by omega) (by omega)
    · simp only [h, Bool.not_false, if_true]
      exact ⟨fun e => absurd e (by decide), fun all => absurd (all j (by omega) (by omega)) h⟩

/-- The search stops at the first place with room, so no later than at a place known to have it. -/
theorem findLoop_spec {m : Memory} {firstPage pages i₀ : Nat} (pos : 1 ≤ pages)
    (fits : i₀ + pages < 2 ^ 64)
    (room : ∀ x, i₀ ≤ x → x < i₀ + pages → Page.isFree m (firstPage + x)) {n i : Nat} (h1 : i ≤ i₀)
    (h2 : i₀ < i + n) : ∃ k, findLoop m firstPage pages n i = some k ∧ k ≤ i₀ ∧
      ∀ x, k ≤ x → x < k + pages → Page.isFree m (firstPage + x) := by
  induction n generalizing i with
  | zero => omega
  | succ n ih =>
    unfold findLoop
    rw [Nat.mod_eq_of_lt (by omega), Nat.add_sub_cancel_left]
    by_cases found : Page.isFree m (firstPage + i) && rangeFree m firstPage pages i
    · rw [if_pos found]
      rw [Bool.and_eq_true, rangeFree_iff] at found
      exact ⟨i, rfl, h1, found.2⟩
    · rw [if_neg found]
      refine ih ?_ (by omega)
      -- the known place is not this one
      by_contra h
      obtain rfl : i = i₀ := by omega
      apply found
      rw [Bool.and_eq_true, rangeFree_iff]
      exact ⟨room i (Nat.le_refl i) (by omega), room⟩

theorem statusLoop_apply (status : PageStatus) (firstPage n k : Nat) (m : Memory) (a : Nat) :
    statusLoop status firstPage n k m a =
      if firstPage + k ≤ a ∧ a < firstPage + k + n then status.toU8 else m a := by
  induction n generalizing k m with
  | zero => rw [statusLoop, if_neg (by omega)]
  | succ n ih =>
    rw [statusLoop, ih]
    by_cases e : a = firstPage + k
    · rw [if_neg (by omega), if_pos (by omega), Page.setStatus, e, store8_apply_self]
    · rw [Page.setStatus, store8_apply_of_ne m _ e]
      by_cases h : firstPage + k ≤ a ∧ a < firstPage + k + (n + 1)
      · rw [if_pos (by omega), if_pos h]
      · rw [if_neg (by omega), if_neg h]

/-- The loop of `zalloc` clears the words it runs over. -/
theorem zeroLoop_eq (bigPtr n i : Nat) (m : Memory) :
    zeroLoop bigPtr n i m = ByteMemory.clear m (bigPtr + 8 * i) (8 * n) := by
  induction n generalizing i m with
  | zero =>
    funext a
    exact (if_neg (by omega)).symm
  | succ n ih =>
    rw [zeroLoop, ih]
    funext a
    by_cases h : bigPtr + 8 * i ≤ a ∧ a < bigPtr + 8 * i + 8
    · rw [clear_apply_outside _ (by omega), store64_zero_apply _ h.1 h.2,
        clear_apply_inside _ (by omega) (by omega)]
    · by_cases h' : bigPtr + 8 * i ≤ a ∧ a < bigPtr + 8 * i + 8 * (n + 1)
      · rw [clear_apply_inside _ (by omega) (by omega), clear_apply_inside _ (by omega) (by omega)]
      · rw [clear_apply_outside _ (by omega), clear_apply_outside _ (by omega),
          store64_apply_of_outside _ _ (by omega)]

theorem countLoop_eq (m : Memory) (firstPage n : Nat) (i allocated : Nat) :
    countLoop m firstPage n i allocated =
      allocated + Nat.count (fun x => m (firstPage + (i + x)) ≠ PageStatus.free.toU8) n := by
  induction n generalizing i allocated with
  | zero => simp [countLoop]
  | succ n ih =>
    rw [countLoop, ih, Nat.add_comm n 1, Nat.count_add]
    have shift : (fun x => m (firstPage + (i + (1 + x))) ≠ PageStatus.free.toU8) =
        fun x => m (firstPage + (i + 1 + x)) ≠ PageStatus.free.toU8 := by
      funext x
      rw [Nat.add_assoc i 1 x]
    simp only [shift]
    by_cases h : m (firstPage + i) = PageStatus.free.toU8
    · simp [Nat.count_succ, Page.isFree, h]
    · simp [Nat.count_succ, Page.isFree, h]
      omega

end MemoryManager

/-- Clearing the next descriptor extends a cleared range. -/
theorem Page.clear_range {m m' : Memory} {first page : Nat} (le : first ≤ page)
    (cleared : ∀ a, m a = if first ≤ a ∧ a < page then PageStatus.free.toU8 else m' a) (a : Nat) :
    Page.clear m page a = if first ≤ a ∧ a < page + 1 then PageStatus.free.toU8 else m' a := by
  by_cases e : a = page
  · rw [if_pos (by omega), e, Page.clear, Page.setStatus, store8_apply_self]
  · rw [Page.clear, Page.setStatus, store8_apply_of_ne _ _ e, cleared]
    by_cases h : first ≤ a ∧ a < page
    · rw [if_pos h, if_pos (by omega)]
    · rw [if_neg h, if_neg (by omega)]

/-! ## The invariant -/

/-- Where `init` puts things: the manager in page 0, the descriptors in front of it, and all
pages addressable. -/
structure MemoryManager.Layout (mm : MemoryManager) : Prop where
  first : mm.firstPage = mm.heapStart
  descriptors : mm.heapStart + mm.numberOfPages ≤ mm.allocStart
  page_zero : 1 ≤ mm.numberOfPages
  aligned : PAGE_SIZE ∣ mm.allocStart
  addressable : mm.allocStart + PAGE_SIZE * mm.numberOfPages ≤ 2 ^ 64

/-- The pages of a live block. -/
def MemoryManager.block (mm : MemoryManager) (b : Nat × Nat) : Block where
  start := (b.1 - mm.allocStart) / PAGE_SIZE
  len := b.2

/-- The descriptor of a page. -/
def MemoryManager.cell (mm : MemoryManager) (m : Memory) (page : Nat) : BitVec 8 :=
  m (mm.firstPage + page)

/-- The descriptors encode the block of the manager and the live blocks. -/
structure PageHeap.Inv (mm : MemoryManager) (s : PageHeap) : Prop where
  manager : MemoryManager.load s.memory mm.allocStart = mm
  table : Encodes PageStatus.free.toU8 PageStatus.taken.toU8 PageStatus.last.toU8 mm.numberOfPages
    (mm.cell s.memory) (⟨0, 1⟩ :: s.live.map mm.block)
  placed : ∀ b ∈ s.live, b.1 = mm.allocStart + PAGE_SIZE * (mm.block b).start

theorem taken_ne_free : PageStatus.taken.toU8 ≠ PageStatus.free.toU8 := by decide

theorem last_ne_free : PageStatus.last.toU8 ≠ PageStatus.free.toU8 := by decide

/-- The manager is read from its own forty bytes. -/
theorem MemoryManager.load_congr {m m' : Memory} {self : Nat}
    (h : ∀ a, self ≤ a → a < self + 40 → m' a = m a) : load m' self = load m self := by
  have word : ∀ k, k + 8 ≤ 40 → load64 m' (self + k) = load64 m (self + k) := fun k hk =>
    load64_congr fun x _ _ => h x (by omega) (by omega)
  have word0 := word 0 (by omega)
  simp only [Nat.add_zero] at word0
  simp only [load, word0, word 8 (by omega), word 16 (by omega), word 24 (by omega),
    word 32 (by omega)]

namespace PageHeap.Inv

variable {mm : MemoryManager} {s : PageHeap}

/-- Page 0 is in no live block. -/
theorem start_pos (inv : s.Inv mm) {b : Nat × Nat} (hb : b ∈ s.live) : 1 ≤ (mm.block b).start := by
  have apart := (List.pairwise_cons.1 inv.table.apart).1 _ (List.mem_map_of_mem hb)
  have pos := inv.table.nonempty _ (List.mem_cons_of_mem _ (List.mem_map_of_mem hb))
  unfold Block.Apart at apart
  simp only at apart
  omega

theorem start_add_le (inv : s.Inv mm) {b : Nat × Nat} (hb : b ∈ s.live) :
    (mm.block b).start + b.2 ≤ mm.numberOfPages :=
  inv.table.within _ (List.mem_cons_of_mem _ (List.mem_map_of_mem hb))

theorem len_pos (inv : s.Inv mm) {b : Nat × Nat} (hb : b ∈ s.live) : 0 < b.2 :=
  inv.table.nonempty _ (List.mem_cons_of_mem _ (List.mem_map_of_mem hb))

/-- A change that leaves the manager and the descriptors alone keeps the invariant. -/
theorem frame (inv : s.Inv mm) {m : Memory}
    (manager : ∀ a, mm.allocStart ≤ a → a < mm.allocStart + 40 → m a = s.memory a)
    (cells : ∀ a, mm.firstPage ≤ a → a < mm.firstPage + mm.numberOfPages → m a = s.memory a) :
    PageHeap.Inv mm { s with memory := m } where
  manager := (MemoryManager.load_congr manager).trans inv.manager
  table := inv.table.congr fun x hx => cells _ (Nat.le_add_right _ _) (by omega)
  placed := inv.placed

/-! ## `alloc` adds a block -/

/-- `alloc` finds free descriptors below the end of the table, marks them as one block and
changes no other byte. -/
theorem alloc_spec (inv : s.Inv mm) (layout : mm.Layout) {pages : Nat} (pos : 1 ≤ pages)
    (room : HasRoom s mm.allocStart pages) :
    ∃ k m, MemoryManager.alloc s.memory mm.allocStart pages = (mm.allocStart + PAGE_SIZE * k, m) ∧
      1 ≤ k ∧ k + pages ≤ mm.numberOfPages ∧
      (∀ x, k ≤ x → x < k + pages → mm.cell s.memory x = PageStatus.free.toU8) ∧
      (∀ x, k ≤ x → x + 1 < k + pages → mm.cell m x = PageStatus.taken.toU8) ∧
      (∀ x, x + 1 = k + pages → mm.cell m x = PageStatus.last.toU8) ∧
      ∀ a, a < mm.firstPage + k ∨ mm.firstPage + k + pages ≤ a → m a = s.memory a := by
  have addressable := layout.addressable
  have page_zero := layout.page_zero
  unfold PAGE_SIZE at addressable ⊢
  obtain ⟨i₀, fits, unused⟩ := room
  rw [inv.manager] at fits unused
  obtain ⟨k, found, le, free⟩ := MemoryManager.findLoop_spec (n := mm.numberOfPages) pos (by omega)
    unused (Nat.zero_le i₀) (by omega)
  have cells : ∀ x, k ≤ x → x < k + pages → mm.cell s.memory x = PageStatus.free.toU8 :=
    fun x h1 h2 => beq_iff_eq.1 (free x h1 h2)
  have kpos : 1 ≤ k := by
    by_contra h
    obtain rfl : k = 0 := by omega
    have zero : mm.cell s.memory 0 = PageStatus.last.toU8 :=
      inv.table.last ⟨0, 1⟩ List.mem_cons_self 0 rfl
    exact last_ne_free (zero.symm.trans (cells 0 (by omega) (by omega)))
  have final : (k + pages + (2 ^ 64 - 1)) % 2 ^ 64 = k + pages - 1 := by omega
  have ptr : (mm.allocStart + 4096 * k) % 2 ^ 64 = mm.allocStart + 4096 * k :=
    Nat.mod_eq_of_lt (by omega)
  have run : MemoryManager.alloc s.memory mm.allocStart pages = (mm.allocStart + 4096 * k,
      Page.setStatus (MemoryManager.takeLoop mm.firstPage (k + pages - 1 - k) k s.memory)
        (mm.firstPage + (k + pages - 1)) .last) := by
    simp only [MemoryManager.alloc, inv.manager, found, final, PAGE_SIZE, ptr]
  refine ⟨k, _, run, kpos, by omega, cells, fun x h1 h2 => ?_, fun x h => ?_, fun a h => ?_⟩
  · rw [MemoryManager.cell, Page.setStatus, store8_apply_of_ne _ _ (by omega),
      MemoryManager.takeLoop, MemoryManager.statusLoop_apply, if_pos (by omega)]
  · rw [MemoryManager.cell, Page.setStatus, show x = k + pages - 1 by omega, store8_apply_self]
  · rw [Page.setStatus, store8_apply_of_ne _ _ (by omega), MemoryManager.takeLoop,
      MemoryManager.statusLoop_apply, if_neg (by omega)]

/-- The state after a successful `alloc`. -/
theorem returned (inv : s.Inv mm) (layout : mm.Layout) {pages : Nat} (pos : 1 ≤ pages)
    (room : HasRoom s mm.allocStart pages) :
    (MemoryManager.alloc s.memory mm.allocStart pages).1 ≠ 0 ∧
      (s.returned pages (MemoryManager.alloc s.memory mm.allocStart pages)).Inv mm := by
  obtain ⟨k, m, run, kpos, fits, unused, taken, last, frame⟩ := inv.alloc_spec layout pos room
  have descriptors := layout.descriptors
  have first := layout.first
  have ptr : mm.allocStart + PAGE_SIZE * k ≠ 0 := by unfold PAGE_SIZE; omega
  have start : mm.block (mm.allocStart + PAGE_SIZE * k, pages) = ⟨k, pages⟩ := by
    unfold MemoryManager.block PAGE_SIZE
    rw [Nat.add_sub_cancel_left, Nat.mul_div_cancel_left k (by decide)]
  rw [run]
  refine ⟨ptr, ?_⟩
  simp only [PageHeap.returned, if_neg ptr]
  constructor
  · exact (MemoryManager.load_congr fun a h1 h2 => frame a (by omega)).trans inv.manager
  · have added := inv.table.add taken_ne_free last_ne_free (b := ⟨k, pages⟩) pos fits
      (fun x h => unused x h.1 h.2) taken last fun x hx h => frame _ (by
        unfold Block.Has at h
        simp only at h
        omega)
    rw [List.map_cons, start]
    exact added.perm (List.Perm.swap _ _ _)
  · intro b hb
    rcases List.mem_cons.1 hb with rfl | hb
    · rw [start]
    · exact inv.placed b hb

/-- Writes to the bytes of a live block keep the invariant. -/
theorem write (inv : s.Inv mm) (layout : mm.Layout) {b : Nat × Nat} (hb : b ∈ s.live) {m : Memory}
    (outside : ∀ a, a < b.1 ∨ b.1 + PAGE_SIZE * b.2 ≤ a → m a = s.memory a) :
    PageHeap.Inv mm { s with memory := m } := by
  have placed := inv.placed b hb
  have pos := inv.start_pos hb
  have descriptors := layout.descriptors
  have first := layout.first
  unfold PAGE_SIZE at placed
  exact inv.frame (fun a _ _ => outside a (by omega)) fun a _ _ => outside a (by omega)

/-- The state after a successful `zalloc`, whose pages read as zero. -/
theorem zreturned (inv : s.Inv mm) (layout : mm.Layout) {pages : Nat} (pos : 1 ≤ pages)
    (room : HasRoom s mm.allocStart pages) :
    (MemoryManager.zalloc s.memory mm.allocStart pages).1 =
        (MemoryManager.alloc s.memory mm.allocStart pages).1 ∧
      (MemoryManager.zalloc s.memory mm.allocStart pages).2 =
        ByteMemory.clear (MemoryManager.alloc s.memory mm.allocStart pages).2
          (MemoryManager.alloc s.memory mm.allocStart pages).1 (PAGE_SIZE * pages) ∧
      (s.returned pages (MemoryManager.zalloc s.memory mm.allocStart pages)).Inv mm := by
  obtain ⟨ptr, invA⟩ := inv.returned layout pos room
  obtain ⟨k, m, run, kpos, fits, -⟩ := inv.alloc_spec layout pos room
  have addressable := layout.addressable
  have size : 8 * (PAGE_SIZE * pages % 2 ^ 64 / 8) = PAGE_SIZE * pages := by
    unfold PAGE_SIZE at addressable ⊢
    omega
  have zrun : MemoryManager.zalloc s.memory mm.allocStart pages =
      ((MemoryManager.alloc s.memory mm.allocStart pages).1,
        ByteMemory.clear (MemoryManager.alloc s.memory mm.allocStart pages).2
          (MemoryManager.alloc s.memory mm.allocStart pages).1 (PAGE_SIZE * pages)) := by
    simp only [MemoryManager.zalloc]
    rw [if_neg ptr, MemoryManager.zeroLoop_eq, size, Nat.mul_zero, Nat.add_zero]
  rw [zrun]
  refine ⟨rfl, rfl, ?_⟩
  have new : ((MemoryManager.alloc s.memory mm.allocStart pages).1, pages) ∈
      (s.returned pages (MemoryManager.alloc s.memory mm.allocStart pages)).live := by
    simp only [PageHeap.returned, if_neg ptr, List.mem_cons_self]
  exact invA.write layout new fun a h => clear_apply_outside _ h

/-! ## `dealloc` removes a block -/

/-- `dealloc` of a live block clears exactly its descriptors. -/
theorem dealloc_spec (inv : s.Inv mm) (layout : mm.Layout) {b : Nat × Nat} (hb : b ∈ s.live)
    {fuel : Nat} (enough : mm.numberOfPages < fuel) :
    ∃ m, MemoryManager.dealloc fuel s.memory mm.allocStart b.1 = some m ∧ ∀ a, m a =
      if mm.firstPage + (mm.block b).start ≤ a ∧ a < mm.firstPage + (mm.block b).start + b.2 then
        PageStatus.free.toU8
      else s.memory a := by
  have placed := inv.placed b hb
  have top := inv.start_add_le hb
  have pos := inv.start_pos hb
  have len := inv.len_pos hb
  have mem : mm.block b ∈ (⟨0, 1⟩ :: s.live.map mm.block : List Block) :=
    List.mem_cons_of_mem _ (List.mem_map_of_mem hb)
  have inner : ∀ x, (mm.block b).start ≤ x → x + 1 < (mm.block b).start + b.2 → _ :=
    inv.table.inner _ mem
  have last : ∀ x, x + 1 = (mm.block b).start + b.2 → _ := inv.table.last _ mem
  generalize (mm.block b).start = start at placed top pos inner last ⊢
  have addressable := layout.addressable
  have descriptors := layout.descriptors
  have first := layout.first
  have ptr : b.1 ≠ 0 := by unfold PAGE_SIZE at placed; omega
  have addr : (mm.heapStart + (b.1 + (2 ^ 64 - mm.allocStart)) % 2 ^ 64 / PAGE_SIZE) % 2 ^ 64 =
      mm.firstPage + start := by
    unfold PAGE_SIZE at placed addressable ⊢
    have offset : (b.1 + (2 ^ 64 - mm.allocStart)) % 2 ^ 64 = 4096 * start := by omega
    rw [offset, Nat.mul_div_cancel_left start (by omega), first, Nat.mod_eq_of_lt (by omega)]
  unfold MemoryManager.dealloc
  rw [if_neg ptr, inv.manager]
  simp only [addr]
  -- the descriptors before `page` are cleared, and nothing else has changed
  refine Loop.run_of_variant
    (I := fun p => mm.firstPage + start ≤ p.1 ∧ p.1 < mm.firstPage + start + b.2 ∧ ∀ a, p.2 a =
      if mm.firstPage + start ≤ a ∧ a < p.1 then PageStatus.free.toU8 else s.memory a)
    (fun p => mm.firstPage + start + b.2 - p.1) ?_ ?_ ⟨Nat.le_refl _, by omega, fun a => ?_⟩
    (by simp only; omega)
  · rintro ⟨page, m⟩ ⟨page', m'⟩ ⟨h1, h2, cleared⟩ next
    simp only [MemoryManager.deallocBody] at next h1 h2 cleared ⊢
    by_cases taken : Page.isTaken m page
    · rw [if_pos taken, Loop.Next.again.injEq, Prod.mk.injEq] at next
      obtain ⟨rfl, rfl⟩ := next
      have more : page + 1 < mm.firstPage + start + b.2 := by
        by_contra h
        have status := last (page - mm.firstPage) (by omega)
        rw [MemoryManager.cell, show mm.firstPage + (page - mm.firstPage) = page by omega] at status
        rw [Page.isTaken, cleared, if_neg (by omega), status] at taken
        exact absurd taken (by decide)
      exact ⟨⟨by omega, more, Page.clear_range h1 cleared⟩, by omega⟩
    · rw [if_neg taken] at next
      exact absurd next (by simp)
  · rintro ⟨page, m⟩ m' ⟨h1, h2, cleared⟩ next
    simp only [MemoryManager.deallocBody] at next h1 h2 cleared
    by_cases taken : Page.isTaken m page
    · rw [if_pos taken] at next
      exact absurd next (by simp)
    · rw [if_neg taken, Loop.Next.done.injEq] at next
      subst next
      have ended : page + 1 = mm.firstPage + start + b.2 := by
        by_contra h
        have status := inner (page - mm.firstPage) (by omega) (by omega)
        rw [MemoryManager.cell, show mm.firstPage + (page - mm.firstPage) = page by omega] at status
        apply taken
        rw [Page.isTaken, cleared, if_neg (by omega), status]
        decide
      rw [← ended]
      exact Page.clear_range h1 cleared
  · rw [if_neg (by simp only; omega)]

/-- The state after `dealloc`. -/
theorem dealloc (inv : s.Inv mm) (layout : mm.Layout) {b : Nat × Nat} (hb : b ∈ s.live) {m : Memory}
    (cleared : ∀ a, m a =
      if mm.firstPage + (mm.block b).start ≤ a ∧ a < mm.firstPage + (mm.block b).start + b.2 then
        PageStatus.free.toU8
      else s.memory a) :
    PageHeap.Inv mm { memory := m, live := s.live.eraseP (·.1 == b.1) } := by
  have top := inv.start_add_le hb
  have pos := inv.start_pos hb
  have len := inv.len_pos hb
  have descriptors := layout.descriptors
  have first := layout.first
  -- a live block is known by its pointer
  have unique : ∀ c ∈ s.live, c.1 = b.1 → c = b := by
    intro c hc e
    have same : mm.block c = mm.block b :=
      inv.table.eq_of_has (x := (mm.block b).start) (List.mem_cons_of_mem _ (List.mem_map_of_mem hc))
        (List.mem_cons_of_mem _ (List.mem_map_of_mem hb))
        ⟨by simp [MemoryManager.block, e], by
          have := inv.len_pos hc
          simp only [MemoryManager.block, e]
          omega⟩
        ⟨Nat.le_refl _, Nat.lt_add_of_pos_right len⟩
    exact Prod.ext e (congrArg Block.len same)
  obtain ⟨c, l₁, l₂, -, eq, live, left⟩ := List.exists_of_eraseP (p := (·.1 == b.1)) hb (by simp)
  obtain rfl : c = b := unique c (by rw [live]; simp) (by simpa using eq)
  rw [left]
  constructor
  · refine (MemoryManager.load_congr fun a h1 h2 => ?_).trans inv.manager
    exact (cleared a).trans (if_neg (by omega))
  · have table := inv.table
    rw [live, List.map_append, List.map_cons] at table
    have front : (⟨0, 1⟩ :: (l₁.map mm.block ++ mm.block c :: l₂.map mm.block)).Perm
        (mm.block c :: ⟨0, 1⟩ :: (l₁ ++ l₂).map mm.block) := by
      rw [List.map_append]
      exact (List.perm_middle.cons _).trans (List.Perm.swap _ _ _)
    refine (table.perm front).remove (fun x h => ?_) fun x hx h => ?_
    · exact (cleared _).trans (if_pos ⟨Nat.add_le_add_left h.1 _, by
        have : x < (mm.block c).start + c.2 := h.2
        omega⟩)
    · refine (cleared _).trans (if_neg fun h' => h ⟨by omega, ?_⟩)
      change x < (mm.block c).start + c.2
      omega
  · refine fun d hd => inv.placed d ?_
    rw [live]
    rcases List.mem_append.1 hd with h | h
    · exact List.mem_append_left _ h
    · exact List.mem_append_right _ (List.mem_cons_of_mem _ h)

/-! ## Every action keeps the invariant -/

/-- An allowed action has an outcome. -/
theorem progress (inv : s.Inv mm) (layout : mm.Layout) {a : PageAction} {fuel : Nat}
    (enough : mm.numberOfPages < fuel) (allowed : a.Allowed mm.allocStart s) :
    ∃ s', a.run mm.allocStart fuel s = some s' := by
  cases a with
  | alloc pages => exact ⟨_, rfl⟩
  | zalloc pages => exact ⟨_, rfl⟩
  | dealloc ptr =>
    obtain ⟨pages, hb⟩ := allowed
    obtain ⟨m, run, -⟩ := inv.dealloc_spec layout hb enough
    exact ⟨_, by rw [PageAction.run, run]; rfl⟩
  | write address value => exact ⟨_, rfl⟩

theorem step (inv : s.Inv mm) (layout : mm.Layout) {a : PageAction} {fuel : Nat}
    (enough : mm.numberOfPages < fuel) (allowed : a.Allowed mm.allocStart s) {s' : PageHeap}
    (run : a.run mm.allocStart fuel s = some s') : s'.Inv mm := by
  cases a with
  | alloc pages =>
    obtain rfl : _ = s' := Option.some.inj run
    exact (inv.returned layout allowed.1 allowed.2).2
  | zalloc pages =>
    obtain rfl : _ = s' := Option.some.inj run
    exact (inv.zreturned layout allowed.1 allowed.2).2.2
  | dealloc ptr =>
    obtain ⟨pages, hb⟩ := allowed
    obtain ⟨m, freed, cleared⟩ := inv.dealloc_spec layout hb enough
    rw [PageAction.run, freed, Option.map_some] at run
    obtain rfl : _ = s' := Option.some.inj run
    exact inv.dealloc layout hb cleared
  | write address value =>
    obtain ⟨b, hb, h1, h2⟩ := allowed
    obtain rfl : _ = s' := Option.some.inj run
    exact inv.write layout hb fun a h => store8_apply_of_ne _ _ (by omega)

theorem usedPages (inv : s.Inv mm) :
    (MemoryManager.getStatistics s.memory mm.allocStart).usedPages =
      1 + (s.live.map (·.2)).sum := by
  have count := inv.table.count taken_ne_free last_ne_free
  rw [List.map_cons, List.sum_cons, List.map_map] at count
  have used : (MemoryManager.getStatistics s.memory mm.allocStart).usedPages =
      Nat.count (fun x => mm.cell s.memory x ≠ PageStatus.free.toU8) mm.numberOfPages := by
    simp only [MemoryManager.getStatistics, MemoryManager.countLoop_eq, inv.manager, Nat.zero_add]
    rfl
  rw [used, count]
  rfl

end PageHeap.Inv

/-! ## Runs from `init` -/

/-- The heap of the linker script: it has at least one page, and it is addressable together with
its descriptors and the alignment after them. -/
structure HeapBounds (heapStart heapSize : BitVec 64) : Prop where
  page_zero : 4096 ≤ heapSize.toNat
  addressable : heapStart.toNat + heapSize.toNat + heapSize.toNat / 4096 + 4096 ≤ 2 ^ 64

/-- The manager `init` sets up. -/
def initialManager (heapStart heapSize : BitVec 64) : MemoryManager where
  heapStart := heapStart.toNat
  heapSize := heapSize.toNat
  firstPage := heapStart.toNat
  numberOfPages := heapSize.toNat / 4096
  allocStart := (heapStart.toNat + heapSize.toNat / 4096 + 4095) / 4096 * 4096

section Init

variable {heapStart heapSize : BitVec 64} (bounds : HeapBounds heapStart heapSize)

include bounds

theorem initialManager_layout : (initialManager heapStart heapSize).Layout := by
  have h1 := bounds.page_zero
  have h2 := bounds.addressable
  constructor <;> simp only [initialManager, PAGE_SIZE] <;> omega

theorem init_allocStart (m : Memory) :
    (MemoryManager.init heapStart heapSize m).1 = (initialManager heapStart heapSize).allocStart := by
  have h2 := bounds.addressable
  have pages : (BitVec.ofNat 64 (heapSize.toNat / PAGE_SIZE)).toNat = heapSize.toNat / 4096 := by
    unfold PAGE_SIZE
    rw [BitVec.toNat_ofNat, Nat.mod_eq_of_lt (by omega)]
  have descriptors : (heapStart + BitVec.ofNat 64 (heapSize.toNat / PAGE_SIZE)).toNat =
      heapStart.toNat + heapSize.toNat / 4096 := by
    rw [BitVec.toNat_add, pages, Nat.mod_eq_of_lt (by omega)]
  have aligned := Align.add_and_not_lowMask_toNat
    (heapStart + BitVec.ofNat 64 (heapSize.toNat / PAGE_SIZE)) (k := 12) (by omega) (by omega)
  rw [descriptors] at aligned
  exact aligned

theorem init_inv (m : Memory) :
    PageHeap.Inv (initialManager heapStart heapSize)
      { memory := (MemoryManager.init heapStart heapSize m).2, live := [] } := by
  have start := init_allocStart bounds m
  have h1 := bounds.page_zero
  have h2 := bounds.addressable
  have layout := initialManager_layout bounds
  have descriptors := layout.descriptors
  have pages : (BitVec.ofNat 64 (heapSize.toNat / PAGE_SIZE)).toNat = heapSize.toNat / 4096 := by
    unfold PAGE_SIZE
    rw [BitVec.toNat_ofNat, Nat.mod_eq_of_lt (by omega)]
  unfold MemoryManager.init at start ⊢
  simp only [MemoryManager.clearLoop] at start ⊢
  rw [start]
  generalize hmm : initialManager heapStart heapSize = mm at start descriptors ⊢
  have first : mm.firstPage = heapStart.toNat := by rw [← hmm]; rfl
  have fields : mm.heapStart = heapStart.toNat ∧ mm.numberOfPages = heapSize.toNat / 4096 := by
    rw [← hmm]
    exact ⟨rfl, rfl⟩
  obtain ⟨hstart, hpages⟩ := fields
  -- the descriptors lie in front of the manager
  have loop_word : ∀ m k, load64 (MemoryManager.statusLoop .free heapStart.toNat
      (heapSize.toNat / PAGE_SIZE - 1) 1 m) (mm.allocStart + k) = load64 m (mm.allocStart + k) := by
    intro m k
    refine load64_congr fun x _ _ => ?_
    rw [MemoryManager.statusLoop_apply, if_neg (by unfold PAGE_SIZE; omega)]
  have last_word : ∀ m k, load64 (Page.setStatus m heapStart.toNat .last) (mm.allocStart + k) =
      load64 m (mm.allocStart + k) := fun m k =>
    load64_congr fun x _ _ => store8_apply_of_ne m _ (by omega)
  have loop_word0 := fun m => loop_word m 0
  have last_word0 := fun m => last_word m 0
  simp only [Nat.add_zero] at loop_word0 last_word0
  constructor
  · simp only [MemoryManager.load]
    rw [load64_store64_of_disjoint _ _ (by omega), loop_word0,
      load64_store64_of_disjoint _ _ (by omega), last_word0,
      load64_store64_of_disjoint _ _ (by omega), load64_store64_of_disjoint _ _ (by omega),
      load64_store64, load64_store64_of_disjoint _ _ (by omega), loop_word,
      load64_store64_of_disjoint _ _ (by omega), last_word,
      load64_store64_of_disjoint _ _ (by omega), load64_store64,
      load64_store64_of_disjoint _ _ (by omega), loop_word,
      load64_store64_of_disjoint _ _ (by omega), last_word, load64_store64,
      load64_store64_of_disjoint _ _ (by omega), loop_word, load64_store64, load64_store64, start,
      pages, ← hmm]
    rfl
  · constructor
    · exact List.pairwise_singleton _ _
    · simp
    · simp only [List.map_nil, List.mem_singleton, forall_eq]
      omega
    · simp only [List.map_nil, List.mem_singleton, forall_eq]
      omega
    · simp only [List.map_nil, List.mem_singleton, forall_eq]
      intro x hx
      obtain rfl : x = 0 := by omega
      simp only [MemoryManager.cell, first]
      rw [store64_apply_of_outside _ _ (by omega), MemoryManager.statusLoop_apply,
        if_neg (by omega), store64_apply_of_outside _ _ (by omega)]
      exact store8_apply_self _ _ _
    · intro x hx uncovered
      have pos : x ≠ 0 := by
        rintro rfl
        exact uncovered ⟨⟨0, 1⟩, List.mem_cons_self, by decide⟩
      simp only [MemoryManager.cell, first]
      rw [store64_apply_of_outside _ _ (by omega), MemoryManager.statusLoop_apply,
        if_pos (by unfold PAGE_SIZE; omega)]
  · intro b hb
    simp at hb

/-- After `init`, all pages but page 0 can be had at once. -/
theorem init_hasRoom (m : Memory) {pages : Nat} (le : 1 + pages ≤ heapSize.toNat / 4096) :
    HasRoom ⟨(MemoryManager.init heapStart heapSize m).2, []⟩
      (initialManager heapStart heapSize).allocStart pages := by
  have inv := init_inv bounds m
  unfold HasRoom
  rw [inv.manager]
  refine ⟨1, le, fun j h1 h2 => ?_⟩
  rw [Page.isFree, beq_iff_eq]
  refine inv.table.free j (Nat.lt_of_lt_of_le h2 le) ?_
  rintro ⟨b, hb, has⟩
  obtain rfl : b = ⟨0, 1⟩ := by simpa using hb
  unfold Block.Has at has
  simp only at has
  omega

end Init

/-- What the descriptors say about the live blocks, and what the next call does, in a state `s`
of a client of the manager at `self`. -/
structure PageHeap.WellKept (self fuel : Nat) (s : PageHeap) : Prop where
  /-- The page ranges of the live blocks are pairwise disjoint. -/
  disjoint : s.live.Pairwise fun b c =>
    ((load s.memory self).block b).start + b.2 ≤ ((load s.memory self).block c).start ∨
      ((load s.memory self).block c).start + c.2 ≤ ((load s.memory self).block b).start
  /-- They are pages of the heap, and never page 0; a live pointer is the address of its pages. -/
  pages : ∀ b ∈ s.live, 1 ≤ ((load s.memory self).block b).start ∧
    ((load s.memory self).block b).start + b.2 ≤ (load s.memory self).numberOfPages ∧
    b.1 = (load s.memory self).allocStart + PAGE_SIZE * ((load s.memory self).block b).start
  /-- A descriptor is free exactly when its page is not page 0 and in no live block. -/
  free : ∀ j < (load s.memory self).numberOfPages,
    Page.isFree s.memory ((load s.memory self).firstPage + j) ↔
      j ≠ 0 ∧ ∀ b ∈ s.live, ¬ ((load s.memory self).block b).Has j
  /-- Inside a live block all descriptors but the last are taken. -/
  taken : ∀ b ∈ s.live, ∀ j, ((load s.memory self).block b).start ≤ j →
    j + 1 < ((load s.memory self).block b).start + b.2 →
      s.memory ((load s.memory self).firstPage + j) = PageStatus.taken.toU8
  /-- The last descriptor of a live block says so. -/
  last : ∀ b ∈ s.live, ∀ j, j + 1 = ((load s.memory self).block b).start + b.2 →
    s.memory ((load s.memory self).firstPage + j) = PageStatus.last.toU8
  /-- `dealloc` ends and frees exactly the pages of the block, changing no other byte. -/
  dealloc : ∀ b ∈ s.live, ∃ m, MemoryManager.dealloc fuel s.memory self b.1 = some m ∧
    (∀ j, ((load s.memory self).block b).Has j → Page.isFree m ((load s.memory self).firstPage + j)) ∧
    ∀ a, (∀ j, ((load s.memory self).block b).Has j → a ≠ (load s.memory self).firstPage + j) →
      m a = s.memory a
  /-- The statistics count page 0 and the live blocks. -/
  usedPages : (getStatistics s.memory self).usedPages = 1 + (s.live.map (·.2)).sum
  /-- A call with room does not return the null pointer. -/
  served : ∀ pages, 1 ≤ pages → HasRoom s self pages →
    (alloc s.memory self pages).1 ≠ 0 ∧ (MemoryManager.zalloc s.memory self pages).1 ≠ 0

theorem PageHeap.Inv.wellKept {mm : MemoryManager} {s : PageHeap} (inv : s.Inv mm)
    (layout : mm.Layout) {fuel : Nat} (enough : mm.numberOfPages < fuel) :
    s.WellKept mm.allocStart fuel := by
  have mem : ∀ b ∈ s.live, mm.block b ∈ (⟨0, 1⟩ :: s.live.map mm.block : List Block) :=
    fun b hb => List.mem_cons_of_mem _ (List.mem_map_of_mem hb)
  have manager := inv.manager
  constructor
  · rw [manager]
    exact List.pairwise_map.1 (List.pairwise_cons.1 inv.table.apart).2
  · rw [manager]
    exact fun b hb => ⟨inv.start_pos hb, inv.start_add_le hb, inv.placed b hb⟩
  · rw [manager]
    intro j hj
    have cell := inv.table.free_iff taken_ne_free last_ne_free hj
    rw [Page.isFree, beq_iff_eq]
    refine cell.trans ⟨fun un => ⟨?_, fun b hb has => un ⟨_, mem b hb, has⟩⟩, ?_⟩
    · rintro rfl
      exact un ⟨⟨0, 1⟩, List.mem_cons_self, by decide⟩
    · rintro ⟨ne, un⟩ ⟨c, hc, has⟩
      rcases List.mem_cons.1 hc with rfl | hc
      · unfold Block.Has at has
        simp only at has
        omega
      · obtain ⟨b, hb, rfl⟩ := List.mem_map.1 hc
        exact un b hb has
  · rw [manager]
    exact fun b hb => inv.table.inner _ (mem b hb)
  · rw [manager]
    exact fun b hb => inv.table.last _ (mem b hb)
  · rw [manager]
    intro b hb
    obtain ⟨m, run, cleared⟩ := inv.dealloc_spec layout hb enough
    refine ⟨m, run, fun j has => ?_, fun a other => ?_⟩
    · have : j < (mm.block b).start + b.2 := has.2
      rw [Page.isFree, beq_iff_eq, cleared, if_pos ⟨Nat.add_le_add_left has.1 _, by omega⟩]
    · refine (cleared a).trans (if_neg fun h => ?_)
      refine other (a - mm.firstPage) ⟨by omega, ?_⟩ (by omega)
      change a - mm.firstPage < (mm.block b).start + b.2
      omega
  · exact inv.usedPages
  · intro pages pos room
    have served := (inv.returned layout pos room).1
    exact ⟨served, by rw [(inv.zreturned layout pos room).1]; exact served⟩

/-- **The page allocator keeps its blocks.** After any actions of a client that keeps to its side,
starting from `init`, the descriptors record exactly the live blocks and page 0, the next
`dealloc` frees exactly its block, and the next action has an outcome. -/
theorem page_allocator_wellKept {heapStart heapSize : BitVec 64}
    (bounds : HeapBounds heapStart heapSize) (m : Memory) {fuel : Nat}
    (enough : heapSize.toNat / 4096 < fuel) {as : List PageAction} {s : PageHeap}
    (run : Transition.Run (PageHeap.Step (init heapStart heapSize m).1 fuel)
      ⟨(init heapStart heapSize m).2, []⟩ as s) :
    s.WellKept (init heapStart heapSize m).1 fuel ∧
      ∀ a : PageAction, a.Allowed (init heapStart heapSize m).1 s →
        ∃ s', a.run (init heapStart heapSize m).1 fuel s = some s' := by
  have layout := initialManager_layout bounds
  rw [init_allocStart bounds m] at run ⊢
  have inv : s.Inv (initialManager heapStart heapSize) :=
    run.invariant (fun s a s' inv step => inv.step layout enough step.1 step.2) (init_inv bounds m)
  exact ⟨inv.wellKept layout enough, fun a allowed => inv.progress layout enough allowed⟩

/-- Two pages allocated in a heap of sixteen. -/
theorem page_allocator_wellKept_two_pages :
    ∃ s, s.WellKept (init 0x80001000 0x10000 fun _ => 0).1 17 ∧
      Transition.Run (PageHeap.Step (init 0x80001000 0x10000 fun _ => 0).1 17)
        ⟨(init 0x80001000 0x10000 fun _ => 0).2, []⟩ [.alloc 2] s := by
  have bounds : HeapBounds 0x80001000 0x10000 := ⟨by decide, by decide⟩
  have room := init_hasRoom bounds (fun _ => 0) (show 1 + 2 ≤ _ by decide)
  rw [← init_allocStart bounds] at room
  have run : Transition.Run (PageHeap.Step (init 0x80001000 0x10000 fun _ => 0).1 17)
      ⟨(init 0x80001000 0x10000 fun _ => 0).2, []⟩ [.alloc 2] _ :=
    .cons ⟨⟨by decide, room⟩, rfl⟩ (.nil _)
  exact ⟨_, (page_allocator_wellKept bounds _ (by decide) run).1, run⟩

end MatteOS.Memory
