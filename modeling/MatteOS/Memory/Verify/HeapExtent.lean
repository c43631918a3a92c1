import MatteOS.Memory.Verify.FirstFit

/-!
# Where the pages lie

`init` counts the pages that the heap has room for, and then puts the descriptors and the
alignment in front of them. The last pages lie in the heap exactly if the rest of its
size has room for both (`allocatesInside_iff`).
-/

namespace MatteOS.Memory

open ByteMemory MemoryManager

/-- A block of `pages` pages at `ptr` lies in the heap, and not on the descriptors. -/
def MemoryManager.InsideHeap (mm : MemoryManager) (ptr pages : Nat) : Prop :=
  mm.heapStart + mm.numberOfPages ≤ ptr ∧
    ptr + PAGE_SIZE * pages ≤ mm.heapStart + mm.heapSize

/-- After `init` and any actions of a client, a block of pages below `m_number_of_pages` that
`alloc` returns lies in the heap. -/
def AllocatesInside (heapStart heapSize : BitVec 64) (m : Memory) (fuel : Nat) : Prop :=
  ∀ as s, Transition.Run (PageHeap.Step (init heapStart heapSize m).1 fuel)
      ⟨(init heapStart heapSize m).2, []⟩ as s →
    ∀ pages i, 1 ≤ pages → i + pages ≤ (initialManager heapStart heapSize).numberOfPages →
      (alloc s.memory (init heapStart heapSize m).1 pages).1 =
          (initialManager heapStart heapSize).allocStart + PAGE_SIZE * i →
        (initialManager heapStart heapSize).InsideHeap
          (alloc s.memory (init heapStart heapSize m).1 pages).1 pages

/-- Page 0 is not returned. -/
theorem PageHeap.Inv.alloc_ne_page_zero {mm : MemoryManager} {s : PageHeap} (inv : s.Inv mm)
    (layout : mm.Layout) (pages : Nat) :
    (alloc s.memory mm.allocStart pages).1 ≠ mm.allocStart := by
  have addressable := layout.addressable
  have descriptors := layout.descriptors
  have page_zero := layout.page_zero
  have zero : mm.cell s.memory 0 = PageStatus.last.toU8 :=
    inv.table.last ⟨0, 1⟩ List.mem_cons_self 0 rfl
  unfold PAGE_SIZE at addressable
  intro e
  cases found : findLoop s.memory mm.firstPage pages mm.numberOfPages 0 with
  | none =>
    simp only [alloc, inv.manager, found] at e
    omega
  | some k =>
    obtain ⟨-, below, hit, -⟩ := findLoop_eq_some_iff.1 found
    simp only [alloc, inv.manager, found, PAGE_SIZE] at e
    rw [Nat.mod_eq_of_lt (by omega)] at e
    obtain rfl : k = 0 := by omega
    exact last_ne_free (zero.symm.trans (beq_iff_eq.1 hit.1))

section Extent

variable {heapStart heapSize : BitVec 64} (bounds : HeapBounds heapStart heapSize) {m : Memory}
  {fuel : Nat}

include bounds

/-- The pages but the manager's can be had as one block, which has to lie in the heap. -/
theorem end_le_of_allocatesInside (inside : AllocatesInside heapStart heapSize m fuel)
    (several : 2 ≤ (initialManager heapStart heapSize).numberOfPages) :
    (initialManager heapStart heapSize).allocStart +
        PAGE_SIZE * (initialManager heapStart heapSize).numberOfPages ≤
      (initialManager heapStart heapSize).heapStart +
        (initialManager heapStart heapSize).heapSize := by
  have layout := initialManager_layout bounds
  have inv := init_inv bounds m
  have room : HasRoom ⟨(init heapStart heapSize m).2, []⟩
      (initialManager heapStart heapSize).allocStart
      ((initialManager heapStart heapSize).numberOfPages - 1) :=
    init_hasRoom bounds m (Nat.le_of_eq (Nat.add_sub_cancel' (Nat.le_of_succ_le several)))
  unfold AllocatesInside at inside
  rw [init_allocStart bounds m] at inside
  generalize initialManager heapStart heapSize = mm at *
  obtain ⟨k, _, run, pos, fits, -⟩ := inv.alloc_spec layout (Nat.le_sub_one_of_lt several) room
  have ptr := congrArg Prod.fst run
  have block := (inside [] _ (.nil _) _ k (Nat.le_sub_one_of_lt several) fits ptr).2
  obtain rfl : k = 1 := by omega
  rw [ptr] at block
  simp only at block
  unfold PAGE_SIZE at block ⊢
  omega

/-- Pages that end in the heap lie in it. -/
theorem allocatesInside_of_end_le (enough : heapSize.toNat / 4096 < fuel)
    (room : (initialManager heapStart heapSize).numberOfPages = 1 ∨
      (initialManager heapStart heapSize).allocStart +
          PAGE_SIZE * (initialManager heapStart heapSize).numberOfPages ≤
        (initialManager heapStart heapSize).heapStart +
          (initialManager heapStart heapSize).heapSize) :
    AllocatesInside heapStart heapSize m fuel := by
  have layout := initialManager_layout bounds
  have init := init_inv bounds m
  have descriptors := layout.descriptors
  replace enough : (initialManager heapStart heapSize).numberOfPages < fuel := enough
  unfold AllocatesInside
  rw [init_allocStart bounds m]
  generalize initialManager heapStart heapSize = mm at *
  intro as s run pages i pos fits ptr
  have inv : s.Inv mm := run.invariant
    (fun s a s' inv step => inv.step layout enough step.1 step.2) init
  rcases room with one | room
  · obtain rfl : i = 0 := by omega
    exact absurd ptr (inv.alloc_ne_page_zero layout pages)
  · rw [ptr]
    unfold InsideHeap
    unfold PAGE_SIZE at *
    omega

/-- **The pages lie in the heap** exactly if there is only the page of the manager, or the size
that does not make up whole pages has room for the descriptors and the alignment behind them. -/
theorem allocatesInside_iff (enough : heapSize.toNat / 4096 < fuel) :
    AllocatesInside heapStart heapSize m fuel ↔ heapSize.toNat / 4096 = 1 ∨
      (heapStart.toNat + heapSize.toNat / 4096 + 4095) / 4096 * 4096 +
        4096 * (heapSize.toNat / 4096) ≤ heapStart.toNat + heapSize.toNat := by
  have page_zero : 1 ≤ heapSize.toNat / 4096 := (initialManager_layout bounds).page_zero
  constructor
  · intro inside
    refine or_iff_not_imp_left.2 fun several => ?_
    exact end_le_of_allocatesInside bounds inside
      (Nat.lt_of_le_of_ne page_zero fun e => several e.symm)
  · exact fun room => allocatesInside_of_end_le bounds enough room

end Extent

/-- A heap whose descriptors end at a page boundary. -/
theorem allocatesInside_aligned : AllocatesInside 0x80000ff0 0x10010 (fun _ => 0) 17 :=
  (allocatesInside_iff ⟨by decide, by decide⟩ (by decide)).2 (Or.inr (by decide))

/-- Of sixteen pages that fill the heap, the last one lies behind it. -/
theorem not_allocatesInside_sixteen_pages :
    ¬ AllocatesInside 0x80001000 0x10000 (fun _ => 0) 17 := fun inside =>
  absurd (end_le_of_allocatesInside ⟨by decide, by decide⟩ inside (by decide)) (by decide)

end MatteOS.Memory
