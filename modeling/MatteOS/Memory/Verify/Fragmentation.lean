import Mathlib.Algebra.Order.BigOperators.Group.List
import Mathlib.Algebra.Order.Ring.Nat
import MatteOS.Memory.Verify.Coalescing

/-!
# How far the heap fragments

One merging pass after each `kfree` leaves free neighbours, but it at least halves their number, and
a `kfree` adds two of them at most: no state that is reached has more than one pair of free
neighbours (`kernel_heap_fragmentation`). There are then few free chunks, so that the heap serves
every request of a fair share of its free bytes (`kmalloc_served`).
-/

namespace MatteOS.Memory

open ByteMemory Tiling KernelMemoryAllocator

/-! ## Free neighbours -/

/-- The pairs of neighbours that are both free. -/
def adjacentFree : List AllocHeader → Nat
  | c :: d :: cs => (if c.isFree && d.isFree then 1 else 0) + adjacentFree (d :: cs)
  | _ => 0

/-- The pair that a free chunk in front makes. -/
def freeHead : List AllocHeader → Nat
  | c :: _ => if c.isFree then 1 else 0
  | [] => 0

def freeChunks (cs : List AllocHeader) : List AllocHeader := cs.filter (!·.isTaken)

section Chunks

variable {l r cs : List AllocHeader} {c d : AllocHeader}

theorem freeHead_le (cs : List AllocHeader) : freeHead cs ≤ 1 := by
  cases cs with
  | nil => exact Nat.zero_le 1
  | cons c cs =>
    rw [freeHead]
    split <;> omega

theorem adjacentFree_cons_of_free (free : c.isFree) (cs : List AllocHeader) :
    adjacentFree (c :: cs) = freeHead cs + adjacentFree cs := by
  cases cs with
  | nil => rfl
  | cons d cs => rw [adjacentFree, freeHead, free, Bool.true_and]

theorem adjacentFree_cons_of_taken (taken : ¬ c.isFree) (cs : List AllocHeader) :
    adjacentFree (c :: cs) = adjacentFree cs := by
  cases cs with
  | nil => rfl
  | cons d cs => simp [adjacentFree, taken]

theorem adjacentFree_le_cons (c : AllocHeader) (cs : List AllocHeader) :
    adjacentFree cs ≤ adjacentFree (c :: cs) ∧ adjacentFree (c :: cs) ≤ adjacentFree cs + 1 := by
  have head := freeHead_le cs
  by_cases free : c.isFree
  · rw [adjacentFree_cons_of_free free]
    omega
  · rw [adjacentFree_cons_of_taken free]
    omega

/-- The pass keeps a free chunk at the front. -/
theorem freeHead_mergePass (cs : List AllocHeader) : freeHead (mergePass cs) = freeHead cs := by
  fun_cases mergePass cs with
  | case1 => rfl
  | case2 => rfl
  | case3 => rfl

/-- **The pass halves the pairs.** -/
theorem two_mul_adjacentFree_mergePass (cs : List AllocHeader) :
    2 * adjacentFree (mergePass cs) ≤ adjacentFree cs := by
  fun_induction mergePass cs with
  | case1 c d cs free ih =>
    rw [Bool.and_eq_true] at free
    have head := freeHead_le cs
    have behind : adjacentFree (c :: d :: cs) = 1 + (freeHead cs + adjacentFree cs) := by
      rw [adjacentFree_cons_of_free free.1, adjacentFree_cons_of_free free.2]
      simp [freeHead, free.2]
    rw [behind, adjacentFree_cons_of_free (c := merge c d) free.1, freeHead_mergePass]
    omega
  | case2 c d cs apart ih =>
    by_cases free : c.isFree
    · have behind : freeHead (d :: cs) = 0 := by
        rw [freeHead, if_neg (by simpa [free] using apart)]
      rw [adjacentFree_cons_of_free free, adjacentFree_cons_of_free free, freeHead_mergePass, behind]
      omega
    · rw [adjacentFree_cons_of_taken free, adjacentFree_cons_of_taken free]
      exact ih
  | case3 cs short =>
    have small : adjacentFree cs = 0 := by
      cases cs with
      | nil => rfl
      | cons c cs =>
        cases cs with
        | nil => rfl
        | cons d cs => exact absurd rfl (short c d cs)
    omega

/-- What a chunk in the middle adds to the pairs depends on the chunk and its neighbours. -/
theorem adjacentFree_append_cons (l : List AllocHeader) (c : AllocHeader) (r : List AllocHeader) :
    adjacentFree (l ++ c :: r) = adjacentFree (l ++ [c]) + adjacentFree (c :: r) := by
  induction l with
  | nil => exact (Nat.zero_add _).symm
  | cons b l ih =>
    have head : freeHead (l ++ c :: r) = freeHead (l ++ [c]) := by cases l <;> rfl
    by_cases free : b.isFree
    · rw [List.cons_append, List.cons_append, adjacentFree_cons_of_free free,
        adjacentFree_cons_of_free free, ih, head]
      omega
    · rw [List.cons_append, List.cons_append, adjacentFree_cons_of_taken free,
        adjacentFree_cons_of_taken free, ih]

theorem adjacentFree_concat_of_taken (l : List AllocHeader) (taken : ¬ c.isFree) :
    adjacentFree (l ++ [c]) = adjacentFree l := by
  induction l with
  | nil => rfl
  | cons b l ih =>
    by_cases free : b.isFree
    · have head : freeHead (l ++ [c]) = freeHead l := by
        cases l with
        | nil => simp [freeHead, taken]
        | cons => rfl
      rw [List.cons_append, adjacentFree_cons_of_free free, adjacentFree_cons_of_free free, ih, head]
    · rw [List.cons_append, adjacentFree_cons_of_taken free, adjacentFree_cons_of_taken free, ih]

theorem adjacentFree_concat_le (l : List AllocHeader) (c : AllocHeader) :
    adjacentFree l ≤ adjacentFree (l ++ [c]) ∧ adjacentFree (l ++ [c]) ≤ adjacentFree l + 1 := by
  induction l with
  | nil => exact ⟨Nat.le_refl 0, Nat.zero_le 1⟩
  | cons b l ih =>
    by_cases free : b.isFree
    · rw [List.cons_append, adjacentFree_cons_of_free free, adjacentFree_cons_of_free free]
      cases l with
      | nil =>
        have head := freeHead_le [c]
        have alone : adjacentFree [c] = 0 := rfl
        rw [List.nil_append, show freeHead [] = 0 from rfl, show adjacentFree [] = 0 from rfl]
        omega
      | cons d l =>
        have head : freeHead (d :: l ++ [c]) = freeHead (d :: l) := rfl
        omega
    · rw [List.cons_append, adjacentFree_cons_of_taken free, adjacentFree_cons_of_taken free]
      exact ih

/-- A chunk that is freed makes two pairs at most. -/
theorem adjacentFree_freed_le (l : List AllocHeader) (c : AllocHeader) (r : List AllocHeader) :
    adjacentFree (l ++ freed c :: r) ≤ adjacentFree (l ++ c :: r) + 2 := by
  rw [adjacentFree_append_cons, adjacentFree_append_cons l c]
  have := adjacentFree_concat_le l c
  have := adjacentFree_concat_le l (freed c)
  have := adjacentFree_le_cons c r
  have := adjacentFree_le_cons (freed c) r
  omega

/-- A chunk that is taken, whole or in part, makes none. -/
theorem adjacentFree_splitChunk_le (size : Nat) (free : c.isFree) :
    adjacentFree (l ++ splitChunk size c ++ r) ≤ adjacentFree (l ++ c :: r) := by
  have taken (n : BitVec 63) : ¬ (AllocHeader.mk n 1).isFree := Bool.false_ne_true
  have front := adjacentFree_concat_le l c
  rw [List.append_assoc, adjacentFree_append_cons l c]
  unfold splitChunk
  split
  · rw [List.cons_append, adjacentFree_append_cons, adjacentFree_concat_of_taken l (taken _),
      adjacentFree_cons_of_taken (taken _)]
    simp only [List.cons_append, List.nil_append]
    rw [adjacentFree_cons_of_free rfl, adjacentFree_cons_of_free free]
    omega
  · have back := adjacentFree_le_cons c r
    rw [List.cons_append, adjacentFree_append_cons, adjacentFree_concat_of_taken l (taken _),
      adjacentFree_cons_of_taken (taken _), List.nil_append]
    omega

/-- Free chunks alternate with taken ones, but for the pairs. -/
theorem length_freeChunks_le (cs : List AllocHeader) :
    (freeChunks cs).length ≤ (cs.filter (·.isTaken)).length + adjacentFree cs + freeHead cs := by
  induction cs with
  | nil => exact Nat.zero_le _
  | cons c cs ih =>
    have head := freeHead_le cs
    by_cases free : c.isFree
    · have taken : c.isTaken = false := by simpa [AllocHeader.isFree] using free
      have here : freeHead (c :: cs) = 1 := by simp [freeHead, free]
      rw [adjacentFree_cons_of_free free, here]
      simp only [freeChunks, List.filter_cons, taken, Bool.not_false, if_true, Bool.false_eq_true,
        if_false, List.length_cons] at ih ⊢
      omega
    · have taken : c.isTaken = true := by simpa [AllocHeader.isFree] using free
      rw [adjacentFree_cons_of_taken free]
      simp only [freeChunks, List.filter_cons, taken, Bool.not_true, if_true, Bool.false_eq_true,
        if_false, List.length_cons] at ih ⊢
      omega
/-- Some free chunk has its share of the free bytes. -/
theorem exists_fits {size n : Nat} (few : (freeChunks cs).length ≤ n) (pos : 0 < size) (some : 0 < n)
    (room : n * size ≤ freeBytes cs) : ∃ c ∈ cs, Fits size c := by
  by_contra none
  have small : ∀ x ∈ (freeChunks cs).map AllocHeader.getSize, x ≤ size - 1 := by
    intro x mem
    obtain ⟨c, hc, rfl⟩ := List.mem_map.1 mem
    obtain ⟨hc, free⟩ := List.mem_filter.1 hc
    have fit : ¬ Fits size c := fun fit => none ⟨c, hc, fit⟩
    have : ¬ size ≤ c.getSize := fun le => fit ⟨free, le⟩
    omega
  have sum := List.sum_le_card_nsmul _ _ small
  rw [List.length_map, Nat.nsmul_eq_mul] at sum
  have bytes : freeBytes cs = ((freeChunks cs).map AllocHeader.getSize).sum := rfl
  have share : n * (size - 1) + n = n * size := by
    rw [← Nat.mul_succ, Nat.succ_eq_add_one, Nat.sub_add_cancel pos]
  have := Nat.mul_le_mul_right (size - 1) few
  omega

theorem takenFrom_map_snd (a : Nat) (cs : List AllocHeader) :
    (takenFrom a cs).map Prod.snd = cs.filter (·.isTaken) := by
  induction cs generalizing a with
  | nil => rfl
  | cons c cs ih =>
    rw [takenFrom_cons, List.filter_cons]
    split
    · rw [List.map_cons, ih]
    · exact ih _

end Chunks

/-! ## Runs -/

namespace KernelHeap.Inv

variable {k : KernelMemoryAllocator} {s : KernelHeap} {cs : List AllocHeader} {fuel : Nat}

/-- There is a taken chunk for each live pointer. -/
theorem length_taken (inv : s.Inv k cs) : (cs.filter (·.isTaken)).length = s.live.length := by
  have same := inv.live.length_eq
  rw [List.length_map, List.length_map] at same
  rw [← takenFrom_map_snd k.head, List.length_map, same]

/-- **A step** leaves one pair of free neighbours at most, if it found no more. -/
theorem adjacentFree_step (inv : s.Inv k cs) (few : adjacentFree cs ≤ 1) (arena : k.Arena)
    (enough : k.totalSize < fuel) {a : HeapAction} {s' : KernelHeap} (step : s.Step k fuel a s') :
    ∃ cs', s'.Inv k cs' ∧ adjacentFree cs' ≤ 1 := by
  obtain ⟨allowed, out⟩ := step
  cases a with
  | kmalloc sz =>
    obtain ⟨pos, le, ds, walk, fits⟩ := allowed
    obtain rfl := inv.walk.unique walk
    obtain ⟨l, c, r, rfl, fit, -, run⟩ := kmalloc_spec arena inv.walk pos le fits enough
    rw [HeapAction.run, run, Option.map_some, Option.some.injEq] at out
    simp only [if_neg (show k.head + total AllocHeader.getSize l + 8 ≠ 0 by omega)] at out
    exact ⟨_, out ▸ (inv.takeChunk pos fit).1, (adjacentFree_splitChunk_le _ fit.1).trans few⟩
  | kfree ptr =>
    obtain ⟨sz, hb⟩ := allowed
    obtain ⟨l, c, r, rfl, address⟩ := inv.chunk_of_live hb
    simp only at address
    subst address
    obtain ⟨m, run, inv'⟩ := inv.kfree_chunks arena hb enough
    rw [HeapAction.run, run, Option.map_some, Option.some.injEq] at out
    subst out
    have more := adjacentFree_freed_le l c r
    have halved := two_mul_adjacentFree_mergePass (l ++ freed c :: r)
    exact ⟨_, inv', by omega⟩
  | write address value =>
    obtain ⟨b, hb, low, high⟩ := allowed
    obtain rfl := Option.some.inj out
    exact ⟨cs, inv.write hb low high value, few⟩

end KernelHeap.Inv

section Runs

variable {mm : MemoryManager} {h : PageHeap} (layout : mm.Layout) (inv : h.Inv mm)
  (room : HasRoom h mm.allocStart ALLOCATION_SIZE)
  (ram : mm.allocStart + PAGE_SIZE * mm.numberOfPages ≤ 2 ^ 56) {fuel : Nat} (enough : 262144 < fuel)
  {as : List HeapAction} {s : KernelHeap}
  (run : Transition.Run (KernelHeap.Step (construct h.memory mm.allocStart).1 fuel)
    ⟨(construct h.memory mm.allocStart).2, []⟩ as s)

include layout inv room ram enough run

theorem fragmentation_of_run :
    (construct h.memory mm.allocStart).1.Arena ∧
      (construct h.memory mm.allocStart).1.totalSize < fuel ∧
      ∃ cs, s.Inv (construct h.memory mm.allocStart).1 cs ∧ adjacentFree cs ≤ 1 ∧
        (freeChunks cs).length ≤ s.live.length + 2 := by
  obtain ⟨arena, size, init⟩ := construct_inv layout inv room ram
  rw [← size] at enough
  generalize construct h.memory mm.allocStart = k at *
  have each : ∀ s a s', (∃ cs, KernelHeap.Inv k.1 s cs ∧ adjacentFree cs ≤ 1) →
      s.Step k.1 fuel a s' → ∃ cs, s'.Inv k.1 cs ∧ adjacentFree cs ≤ 1 := by
    intro s a s' state step
    obtain ⟨cs, inv, few⟩ := state
    exact inv.adjacentFree_step few arena enough step
  obtain ⟨cs, inv', few⟩ := run.invariant each
    ⟨_, init, show adjacentFree [_] ≤ 1 from Nat.zero_le 1⟩
  refine ⟨arena, enough, cs, inv', few, ?_⟩
  have free := length_freeChunks_le cs
  have head := freeHead_le cs
  have taken := inv'.length_taken
  omega

/-- **The heap hardly fragments.** In every state that callers reach, at most one pair of
neighbouring chunks is free, and there are at most two free chunks more than live pointers. -/
theorem kernel_heap_fragmentation :
    ∃ cs, Walk (construct h.memory mm.allocStart).1 s.memory cs ∧ adjacentFree cs ≤ 1 ∧
      (freeChunks cs).length ≤ s.live.length + 2 := by
  obtain ⟨-, -, cs, inv', few⟩ := fragmentation_of_run layout inv room ram enough run
  exact ⟨cs, inv'.walk, few⟩

/-- **Fair requests are served.** In every state that callers reach, `kmalloc` serves what fits, with
its header, in the free bytes of the statistics divided by two more than there are live pointers. -/
theorem kmalloc_served {sz : BitVec 64} (pos : 1 ≤ sz.toNat) (le : sz.toNat ≤ 2 ^ 63)
    {statistics : Statistics}
    (gathered : (construct h.memory mm.allocStart).1.getStatistics fuel s.memory = some statistics)
    (share : (s.live.length + 2) * needed sz ≤ statistics.freeSize) :
    ∃ ptr m, (construct h.memory mm.allocStart).1.kmalloc fuel s.memory sz = some (ptr, m) ∧
      ptr ≠ 0 := by
  obtain ⟨arena, enough', cs, inv', -, few⟩ := fragmentation_of_run layout inv room ram enough run
  rw [getStatistics_spec arena inv'.walk enough'] at gathered
  obtain rfl := Option.some.inj gathered
  have fits := exists_fits few (by unfold needed; omega) (by omega) share
  obtain ⟨ptr, m, -, ran, ne, -⟩ := inv'.kmalloc arena pos le fits enough'
  exact ⟨ptr, m, ran, ne⟩

end Runs

/-- Three chunks in a row that are freed, the one in the middle last. -/
theorem kernel_heap_fragmentation_three :
    ∃ s, Transition.Run (KernelHeap.Step smallHeap.1 262145) ⟨smallHeap.2, []⟩
        ([.kmalloc 8, .kmalloc 8, .kmalloc 8, .kfree (smallHeap.1.head + 8),
          .kfree (smallHeap.1.head + 40)] ++ [.kfree (smallHeap.1.head + 24)]) s ∧
      ∃ cs, Walk smallHeap.1 s.memory cs ∧ adjacentFree cs ≤ 1 ∧
        (freeChunks cs).length ≤ s.live.length + 2 := by
  obtain ⟨arena, size, init⟩ := smallHeap_inv
  obtain ⟨s, s', run, step, -⟩ := exists_run_three arena size init
  have bounds : HeapBounds 0x80001000 0x100000 := ⟨by decide, by decide⟩
  have all := run.append (.cons step (.nil s'))
  refine ⟨s', all, ?_⟩
  rw [smallHeap] at all ⊢
  exact kernel_heap_fragmentation (initialManager_layout bounds) smallPages_inv.1 smallPages_inv.2
    (by decide) (Nat.lt_succ_self 262144) all

/-- Half of a fresh arena. -/
theorem kmalloc_served_half :
    ∃ ptr m, smallHeap.1.kmalloc 262145 smallHeap.2 131064 = some (ptr, m) ∧ ptr ≠ 0 := by
  obtain ⟨arena, size, inv⟩ := smallHeap_inv
  have bounds : HeapBounds 0x80001000 0x100000 := ⟨by decide, by decide⟩
  have enough : smallHeap.1.totalSize < 262145 := by
    rw [size]
    decide
  have gathered := getStatistics_spec arena smallHeap_walk enough
  have none : Transition.Run (KernelHeap.Step smallHeap.1 262145) ⟨smallHeap.2, []⟩ []
    ⟨smallHeap.2, []⟩ := .nil _
  rw [smallHeap] at gathered none ⊢
  exact kmalloc_served (initialManager_layout bounds) smallPages_inv.1 smallPages_inv.2 (by decide)
    (Nat.lt_succ_self 262144) none (by decide) (by decide) gathered (by decide)

end MatteOS.Memory
