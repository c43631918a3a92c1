import MatteOS.Memory.Verify.PageAllocator

/-!
# Where `alloc` looks

The loop over `j` in `alloc` is bounded by `i + pages` only. The descriptors it reads
are written down beside the loops (`allocReads`); they are those of the table exactly if
there is room in the table, or no free run touches its end (`exactFirstFit_iff`).
-/

namespace MatteOS.Memory

open ByteMemory

namespace MemoryManager

/-! ## The descriptors that are read -/

/-- The indices `j` at which the inner loop of `alloc` reads a descriptor. -/
def rangeReads (m : Memory) (firstPage : Nat) : Nat → Nat → List Nat
  | 0, _ => []
  | n + 1, j =>
    j :: if !Page.isFree m (firstPage + j) then [] else rangeReads m firstPage n (j + 1)

/-- The indices at which the loops of `alloc` read a descriptor. -/
def findReads (m : Memory) (firstPage pages : Nat) : Nat → Nat → List Nat
  | 0, _ => []
  | n + 1, i =>
    i :: if Page.isFree m (firstPage + i) then
      rangeReads m firstPage ((i + pages) % 2 ^ 64 - i) i ++
        if rangeFree m firstPage ((i + pages) % 2 ^ 64 - i) i then []
        else findReads m firstPage pages n (i + 1)
    else findReads m firstPage pages n (i + 1)

/-- The descriptors that `alloc(pages)` reads. -/
def allocReads (m : Memory) (self pages : Nat) : List Nat :=
  let mm := load m self
  findReads m mm.firstPage pages mm.numberOfPages 0

section Loops

variable {m : Memory} {firstPage pages : Nat}

/-- The outer loop stops at `i`. -/
def Hit (m : Memory) (firstPage pages i : Nat) : Prop :=
  Page.isFree m (firstPage + i) ∧ rangeFree m firstPage ((i + pages) % 2 ^ 64 - i) i

theorem mem_rangeReads {n i j : Nat} : j ∈ rangeReads m firstPage n i ↔
    i ≤ j ∧ j < i + n ∧ ∀ x, i ≤ x → x < j → Page.isFree m (firstPage + x) := by
  induction n generalizing i with
  | zero => simp only [rangeReads, List.not_mem_nil, false_iff]; omega
  | succ n ih =>
    rw [rangeReads, List.mem_cons]
    by_cases free : Page.isFree m (firstPage + i)
    · simp only [free, Bool.not_true, Bool.false_eq_true, if_false, ih]
      constructor
      · rintro (rfl | ⟨low, high, all⟩)
        · exact ⟨Nat.le_refl j, by omega, fun x h1 h2 => by omega⟩
        · refine ⟨by omega, by omega, fun x h1 h2 => ?_⟩
          by_cases e : x = i
          · rw [e]
            exact free
          · exact all x (by omega) h2
      · rintro ⟨low, high, all⟩
        by_cases e : j = i
        · exact Or.inl e
        · exact Or.inr ⟨by omega, by omega, fun x h1 h2 => all x (by omega) h2⟩
    · simp only [free, Bool.not_false, if_true, List.not_mem_nil, or_false]
      constructor
      · rintro rfl
        exact ⟨Nat.le_refl j, by omega, fun x h1 h2 => by omega⟩
      · rintro ⟨low, -, all⟩
        by_contra ne
        exact free (all i (Nat.le_refl i) (by omega))

theorem findLoop_of_hit {i : Nat} (hit : Hit m firstPage pages i) (n : Nat) :
    findLoop m firstPage pages (n + 1) i = some i := by
  rw [findLoop, if_pos (Bool.and_eq_true_iff.2 hit)]

theorem findLoop_of_not_hit {i : Nat} (miss : ¬ Hit m firstPage pages i) (n : Nat) :
    findLoop m firstPage pages (n + 1) i = findLoop m firstPage pages n (i + 1) := by
  rw [findLoop, if_neg fun both => miss (Bool.and_eq_true_iff.1 both)]

/-- The place where the outer loop stops. -/
theorem findLoop_eq_some_iff {n i k : Nat} : findLoop m firstPage pages n i = some k ↔
    i ≤ k ∧ k < i + n ∧ Hit m firstPage pages k ∧
      ∀ x, i ≤ x → x < k → ¬ Hit m firstPage pages x := by
  induction n generalizing i with
  | zero => simp only [findLoop, reduceCtorEq, false_iff]; omega
  | succ n ih =>
    by_cases hit : Hit m firstPage pages i
    · rw [findLoop_of_hit hit, Option.some.injEq]
      constructor
      · rintro rfl
        exact ⟨Nat.le_refl i, by omega, hit, fun x h1 h2 => by omega⟩
      · rintro ⟨low, -, -, first⟩
        by_contra ne
        exact first i (Nat.le_refl i) (by omega) hit
    · rw [findLoop_of_not_hit hit, ih]
      constructor
      · rintro ⟨low, high, here, first⟩
        refine ⟨by omega, by omega, here, fun x h1 h2 => ?_⟩
        by_cases e : x = i
        · rw [e]
          exact hit
        · exact first x (by omega) h2
      · rintro ⟨low, high, here, first⟩
        have ne : k ≠ i := by
          rintro rfl
          exact hit here
        exact ⟨by omega, by omega, here, fun x h1 h2 => first x (by omega) h2⟩

/-- The outer loop runs to its end. -/
theorem findLoop_eq_none_iff {n i : Nat} : findLoop m firstPage pages n i = none ↔
    ∀ x, i ≤ x → x < i + n → ¬ Hit m firstPage pages x := by
  induction n generalizing i with
  | zero => exact ⟨fun _ x h1 h2 => by omega, fun _ => rfl⟩
  | succ n ih =>
    by_cases hit : Hit m firstPage pages i
    · rw [findLoop_of_hit hit]
      exact ⟨nofun, fun all => absurd hit (all i (Nat.le_refl i) (by omega))⟩
    · rw [findLoop_of_not_hit hit, ih]
      constructor
      · intro all x h1 h2
        by_cases e : x = i
        · rw [e]
          exact hit
        · exact all x (by omega) (by omega)
      · exact fun all x h1 h2 => all x (by omega) (by omega)

/-- What the round for `i` reads. -/
def RoundReads (m : Memory) (firstPage pages i j : Nat) : Prop :=
  j = i ∨ Page.isFree m (firstPage + i) ∧
    j ∈ rangeReads m firstPage ((i + pages) % 2 ^ 64 - i) i

theorem mem_findReads_succ {n i j : Nat} : j ∈ findReads m firstPage pages (n + 1) i ↔
    RoundReads m firstPage pages i j ∨
      ¬ Hit m firstPage pages i ∧ j ∈ findReads m firstPage pages n (i + 1) := by
  rw [findReads, List.mem_cons, RoundReads, Hit]
  by_cases free : Page.isFree m (firstPage + i)
  · simp [free, or_assoc]
  · simp [free]

/-- The search reads in every round up to the one where it stops. -/
theorem mem_findReads {n i j : Nat} : j ∈ findReads m firstPage pages n i ↔
    ∃ x, i ≤ x ∧ x < i + n ∧ (∀ y, i ≤ y → y < x → ¬ Hit m firstPage pages y) ∧
      RoundReads m firstPage pages x j := by
  induction n generalizing i with
  | zero =>
    simp only [findReads, List.not_mem_nil, false_iff]
    rintro ⟨x, low, high, -⟩
    omega
  | succ n ih =>
    rw [mem_findReads_succ, ih]
    constructor
    · rintro (here | ⟨miss, x, low, high, before, reads⟩)
      · exact ⟨i, Nat.le_refl i, by omega, fun y h1 h2 => by omega, here⟩
      · refine ⟨x, by omega, by omega, fun y h1 h2 => ?_, reads⟩
        by_cases e : y = i
        · rw [e]
          exact miss
        · exact before y (by omega) h2
    · rintro ⟨x, low, high, before, reads⟩
      by_cases e : x = i
      · exact Or.inl (e ▸ reads)
      · exact Or.inr ⟨before i (Nat.le_refl i) (by omega), x, by omega, by omega,
          fun y h1 h2 => before y (by omega) h2, reads⟩

theorem hit_iff {i : Nat} (pos : 1 ≤ pages) (below : i + pages < 2 ^ 64) :
    Hit m firstPage pages i ↔ ∀ x, i ≤ x → x < i + pages → Page.isFree m (firstPage + x) := by
  rw [Hit, Nat.mod_eq_of_lt below, Nat.add_sub_cancel_left, rangeFree_iff]
  exact ⟨fun both => both.2, fun all => ⟨all i (Nat.le_refl i) (by omega), all⟩⟩

/-- A sum that wraps leaves the inner loop without a round. -/
theorem hit_of_wraps {i : Nat} (free : Page.isFree m (firstPage + i)) (small : pages < 2 ^ 64)
    (wraps : 2 ^ 64 ≤ i + pages) (index : i < 2 ^ 64) : Hit m firstPage pages i := by
  have none : (i + pages) % 2 ^ 64 - i = 0 := by omega
  refine ⟨free, ?_⟩
  rw [none]
  rfl

end Loops

/-! ## The contract -/

/-- There is room for `pages` pages at `i`, inside of the table. -/
def Room (m : Memory) (mm : MemoryManager) (pages i : Nat) : Prop :=
  i + pages ≤ mm.numberOfPages ∧
    ∀ j, i ≤ j → j < i + pages → Page.isFree m (mm.firstPage + j)

/-- `alloc(pages)` keeps to the table, and takes the first place with room or fails without one. -/
structure ExactFirstFit (m : Memory) (manager pages : Nat) : Prop where
  reads : ∀ i ∈ allocReads m manager pages, i < (load m manager).numberOfPages
  writes : ∀ a, a < (load m manager).firstPage ∨
    (load m manager).firstPage + (load m manager).numberOfPages ≤ a → (alloc m manager pages).2 a = m a
  outcome : (∃ i, Room m (load m manager) pages i ∧ (∀ j < i, ¬ Room m (load m manager) pages j) ∧
      (alloc m manager pages).1 = (load m manager).allocStart + PAGE_SIZE * i ∧
      (alloc m manager pages).1 ≠ 0) ∨
    (∀ i, ¬ Room m (load m manager) pages i) ∧ alloc m manager pages = (0, m)

section Contract

variable {m : Memory} {self pages : Nat} (pos : 1 ≤ pages) (small : pages < 2 ^ 64)

theorem alloc_of_none (none : findLoop m (load m self).firstPage pages
    (load m self).numberOfPages 0 = none) : alloc m self pages = (0, m) := by
  simp only [alloc, none]

include pos

theorem alloc_of_some {i : Nat} (below : i + pages < 2 ^ 64)
    (found : findLoop m (load m self).firstPage pages (load m self).numberOfPages 0 = some i) :
    alloc m self pages = (((load m self).allocStart + PAGE_SIZE * i) % 2 ^ 64,
      Page.setStatus (takeLoop (load m self).firstPage (i + pages - 1 - i) i m)
        ((load m self).firstPage + (i + pages - 1)) .last) := by
  have final : (i + pages + (2 ^ 64 - 1)) % 2 ^ 64 = i + pages - 1 := by omega
  simp only [alloc, found, final]

theorem hit_iff_room {i : Nat} (mm : MemoryManager) (fits : i + pages ≤ mm.numberOfPages)
    (number : mm.numberOfPages < 2 ^ 64) :
    Hit m mm.firstPage pages i ↔ Room m mm pages i := by
  rw [hit_iff pos (by omega)]
  exact ⟨fun all => ⟨fits, all⟩, fun room => room.2⟩

/-- With room in the table, the search ends there. -/
theorem exactFirstFit_of_room (start : 0 < (load m self).allocStart)
    (addressable : (load m self).allocStart + PAGE_SIZE * (load m self).numberOfPages ≤ 2 ^ 64)
    (room : ∃ i, Room m (load m self) pages i) : ExactFirstFit m self pages := by
  classical
  have number : (load m self).numberOfPages < 2 ^ 64 := (load64 m (self + 24)).isLt
  obtain ⟨i, here, before⟩ : ∃ i, Room m (load m self) pages i ∧
      ∀ j < i, ¬ Room m (load m self) pages j :=
    ⟨Nat.find room, Nat.find_spec room, fun j less => Nat.find_min room less⟩
  have fits := here.1
  have hits : ∀ x ≤ i, Hit m (load m self).firstPage pages x ↔ Room m (load m self) pages x :=
    fun x le => hit_iff_room pos _ (by omega) number
  have found : findLoop m (load m self).firstPage pages (load m self).numberOfPages 0 = some i :=
    findLoop_eq_some_iff.2 ⟨Nat.zero_le i, by omega, (hits i (Nat.le_refl i)).2 here,
      fun x _ less hit => before x less ((hits x (Nat.le_of_lt less)).1 hit)⟩
  have run := alloc_of_some pos (by omega) found
  unfold PAGE_SIZE at addressable
  refine ⟨fun j mem => ?_, fun a outside => ?_, Or.inl ⟨i, here, before, ?_, ?_⟩⟩
  · obtain ⟨x, -, less, misses, reads⟩ := mem_findReads.1 mem
    have le : x ≤ i := by
      by_contra gt
      exact misses i (Nat.zero_le i) (by omega) ((hits i (Nat.le_refl i)).2 here)
    rcases reads with rfl | ⟨-, inner⟩
    · omega
    · have high := (mem_rangeReads.1 inner).2.1
      omega
  · have memory := congrArg Prod.snd run
    simp only at memory
    rw [memory, Page.setStatus, store8_apply_of_ne _ _ (by omega), takeLoop, statusLoop_apply,
      if_neg (by omega)]
  · rw [run]
    unfold PAGE_SIZE
    exact Nat.mod_eq_of_lt (by omega)
  · rw [run]
    unfold PAGE_SIZE
    rw [Nat.mod_eq_of_lt (by omega)]
    omega

include small

/-- Without room in the table, the search keeps to it exactly if the last descriptor ends every
free run, or none is free. -/
theorem exactFirstFit_iff_of_no_room (start : 0 < (load m self).allocStart)
    (addressable : (load m self).allocStart + PAGE_SIZE * (load m self).numberOfPages ≤ 2 ^ 64)
    (full : ∀ i, ¬ Room m (load m self) pages i) : ExactFirstFit m self pages ↔
      ∀ i < (load m self).numberOfPages, Page.isFree m ((load m self).firstPage + i) →
        i + pages < 2 ^ 64 ∧
          ¬ Page.isFree m ((load m self).firstPage + ((load m self).numberOfPages - 1)) := by
  have number : (load m self).numberOfPages < 2 ^ 64 := (load64 m (self + 24)).isLt
  unfold PAGE_SIZE at addressable
  constructor
  · intro contract i less free
    obtain ⟨-, run⟩ : (∀ i, ¬ Room m (load m self) pages i) ∧ alloc m self pages = (0, m) :=
      contract.outcome.resolve_left fun ⟨i, room, _⟩ => full i room
    have none : findLoop m (load m self).firstPage pages (load m self).numberOfPages 0 = none := by
      cases found : findLoop m (load m self).firstPage pages (load m self).numberOfPages 0 with
      | none => rfl
      | some k =>
        obtain ⟨-, below, -⟩ := findLoop_eq_some_iff.1 found
        simp only [alloc, found, Prod.mk.injEq, PAGE_SIZE] at run
        rw [Nat.mod_eq_of_lt (by omega)] at run
        omega
    have misses := findLoop_eq_none_iff.1 none
    have unwrapped : ∀ x < (load m self).numberOfPages,
        Page.isFree m ((load m self).firstPage + x) → x + pages < 2 ^ 64 := by
      intro x below free
      by_contra wraps
      exact misses x (Nat.zero_le x) (by omega) (hit_of_wraps free small (by omega) (by omega))
    refine ⟨unwrapped i less free, fun last => ?_⟩
    -- the round for the last descriptor reads the one behind it
    have round := unwrapped _ (by omega) last
    have alone : ∀ x, (load m self).numberOfPages - 1 ≤ x → x < (load m self).numberOfPages →
        Page.isFree m ((load m self).firstPage + x) := by
      intro x low high
      obtain rfl : x = (load m self).numberOfPages - 1 := by omega
      exact last
    have several : pages ≠ 1 := by
      rintro rfl
      exact full ((load m self).numberOfPages - 1) ⟨by omega, fun j low high => alone j low (by omega)⟩
    have behind : (load m self).numberOfPages ∈ allocReads m self pages := by
      refine mem_findReads.2 ⟨(load m self).numberOfPages - 1, Nat.zero_le _, by omega,
        fun y _ _ => misses y (Nat.zero_le y) (by omega), Or.inr ⟨last, ?_⟩⟩
      rw [Nat.mod_eq_of_lt round, Nat.add_sub_cancel_left]
      exact mem_rangeReads.2 ⟨by omega, by omega, alone⟩
    exact absurd (contract.reads _ behind) (Nat.lt_irrefl _)
  · intro ends
    have misses : ∀ x < (load m self).numberOfPages, ¬ Hit m (load m self).firstPage pages x := by
      intro x less hit
      obtain ⟨below, last⟩ := ends x less hit.1
      have all := (hit_iff pos below).1 hit
      by_cases fits : x + pages ≤ (load m self).numberOfPages
      · exact full x ⟨fits, all⟩
      · exact last (all _ (by omega) (by omega))
    have run := @alloc_of_none m self pages
      (findLoop_eq_none_iff.2 fun x _ high => misses x (by omega))
    refine ⟨fun j mem => ?_, fun a _ => by rw [run], Or.inr ⟨full, run⟩⟩
    obtain ⟨x, -, less, -, reads⟩ := mem_findReads.1 mem
    rcases reads with rfl | ⟨free, inner⟩
    · omega
    · obtain ⟨low, -, all⟩ := mem_rangeReads.1 inner
      by_contra beyond
      exact (ends x (by omega) free).2 (all _ (by omega) (by omega))

end Contract

/-- **`alloc` is exact first fit within the table** exactly if there is room in the table, or every
request that is not met ends at a descriptor of the table: none is free, or the last one is not and
no sum wraps. -/
theorem exactFirstFit_iff {m : Memory} {self pages : Nat} (pos : 1 ≤ pages)
    (small : pages < 2 ^ 64) (start : 0 < (load m self).allocStart)
    (addressable : (load m self).allocStart + PAGE_SIZE * (load m self).numberOfPages ≤ 2 ^ 64) :
    ExactFirstFit m self pages ↔ (∃ i, Room m (load m self) pages i) ∨
      ∀ i < (load m self).numberOfPages, Page.isFree m ((load m self).firstPage + i) →
        i + pages < 2 ^ 64 ∧
          ¬ Page.isFree m ((load m self).firstPage + ((load m self).numberOfPages - 1)) := by
  by_cases room : ∃ i, Room m (load m self) pages i
  · exact iff_of_true (exactFirstFit_of_room pos start addressable room) (Or.inl room)
  · rw [exactFirstFit_iff_of_no_room pos small start addressable fun i here => room ⟨i, here⟩]
    exact ⟨Or.inr, fun ends => ends.resolve_left room⟩

/-- The first two pages of a heap of sixteen. -/
theorem exactFirstFit_two_pages :
    ExactFirstFit (init 0x80001000 0x10000 fun _ => 0).2
      (initialManager 0x80001000 0x10000).allocStart 2 := by
  have bounds : HeapBounds 0x80001000 0x10000 := ⟨by decide, by decide⟩
  have manager := (init_inv bounds fun _ => 0).manager
  have room := init_hasRoom bounds (fun _ => 0) (show 1 + 2 ≤ _ by decide)
  simp only at manager
  refine (exactFirstFit_iff (by decide) (by decide) ?_ ?_).2 (Or.inl room)
  · rw [manager]
    decide
  · rw [manager]
    decide

/-- Sixteen pages are asked for where fifteen are free at the end of the table: the search reads
the byte behind it. -/
theorem not_exactFirstFit_sixteen_pages :
    ¬ ExactFirstFit (init 0x80001000 0x10000 fun _ => 0).2
      (initialManager 0x80001000 0x10000).allocStart 16 := by
  have bounds : HeapBounds 0x80001000 0x10000 := ⟨by decide, by decide⟩
  have inv := init_inv bounds fun _ => 0
  have layout := initialManager_layout bounds
  have pages : (initialManager 0x80001000 0x10000).numberOfPages = 16 := by decide
  have start : 0 < (initialManager 0x80001000 0x10000).allocStart := by decide
  obtain ⟨i, fits, free⟩ := init_hasRoom bounds (fun _ => 0) (show 1 + 15 ≤ _ by decide)
  have manager := inv.manager
  generalize (init 0x80001000 0x10000 fun _ => 0).2 = m at *
  generalize initialManager 0x80001000 0x10000 = mm at *
  simp only at manager fits free
  rw [manager] at fits free
  have zero : ¬ Page.isFree m (mm.firstPage + 0) := by
    intro isFree
    have last : m (mm.firstPage + 0) = PageStatus.last.toU8 :=
      inv.table.last ⟨0, 1⟩ List.mem_cons_self 0 rfl
    exact last_ne_free (last.symm.trans (beq_iff_eq.1 isFree))
  obtain rfl : i = 1 := by
    by_contra ne
    obtain rfl : i = 0 := by omega
    exact zero (free 0 (by omega) (by omega))
  intro contract
  have iff := @exactFirstFit_iff_of_no_room m mm.allocStart 16 (by decide)
    (by decide) (by rw [manager]; exact start)
    (by rw [manager]; exact layout.addressable)
  rw [manager] at iff
  refine ((iff fun i room => ?_).1 contract 1 (by omega) (free 1 (by omega) (by omega))).2
    (free _ (by omega) (by omega))
  have fit := room.1
  obtain rfl : i = 0 := by omega
  exact zero (room.2 0 (by omega) (by omega))

end MemoryManager

end MatteOS.Memory
