import MatteOS.Memory.InitMemory
import MatteOS.Memory.Verify.PageAllocator
import MatteOS.Memory.Verify.Permissions

/-!
# The kernel's first page table holds the system defaults

`map` over the page allocator does what `map` does over a source of pages on a cleared root
(`Simulates`): the pages come one after another, and the words that were in the root before keep
their bits around the address of a table (`RootEntry`).
-/

namespace MatteOS.Memory

open ByteMemory RadixTree EntryBits

/-! ## Pages in order -/

/-- The first `n` pages are taken and the others are free. -/
structure FirstTaken (mm : MemoryManager) (m : Memory) (n : Nat) : Prop where
  manager : MemoryManager.load m mm.allocStart = mm
  free : ∀ x < mm.numberOfPages, Page.isFree m (mm.firstPage + x) ↔ n ≤ x

namespace FirstTaken

variable {mm : MemoryManager} {m : Memory} {n pages : Nat}

/-- Stores beside the manager and the descriptors. -/
theorem congr (taken : FirstTaken mm m n) {m' : Memory}
    (manager : AgreeOn (bytesAt mm.allocStart 40) m m')
    (descriptors : AgreeOn (bytesAt mm.firstPage mm.numberOfPages) m m') : FirstTaken mm m' n where
  manager := (MemoryManager.load_congr fun a low high => manager a ⟨low, high⟩).trans taken.manager
  free := by
    intro x small
    rw [← taken.free x small, Page.isFree, Page.isFree,
      descriptors _ ⟨Nat.le_add_right _ _, by omega⟩]

/-- `alloc` gives the next pages. -/
theorem alloc (taken : FirstTaken mm m n) (layout : mm.Layout) (pos : 1 ≤ pages)
    (fits : n + pages ≤ mm.numberOfPages) :
    ∃ m', MemoryManager.alloc m mm.allocStart pages = (mm.allocStart + PAGE_SIZE * n, m') ∧
      FirstTaken mm m' (n + pages) ∧
      ∀ a, ¬ bytesAt mm.firstPage mm.numberOfPages a → m' a = m a := by
  have addressable := layout.addressable
  have descriptors := layout.descriptors
  have first := layout.first
  unfold PAGE_SIZE at addressable ⊢
  have small : n + pages < 2 ^ 64 := by omega
  obtain ⟨k, found, le, unused⟩ := MemoryManager.findLoop_spec pos small
    (fun x low high => (taken.free x (by omega)).2 low) (Nat.zero_le n)
    (Nat.lt_of_lt_of_le (by omega) (Nat.le_add_left mm.numberOfPages 0))
  have here : n ≤ k := (taken.free k (by omega)).1 (unused k (Nat.le_refl k) (by omega))
  obtain rfl : k = n := by omega
  have final : (k + pages + (2 ^ 64 - 1)) % 2 ^ 64 = k + pages - 1 := by omega
  have ptr : (mm.allocStart + 4096 * k) % 2 ^ 64 = mm.allocStart + 4096 * k :=
    Nat.mod_eq_of_lt (by omega)
  have run : MemoryManager.alloc m mm.allocStart pages = (mm.allocStart + 4096 * k,
      Page.setStatus (MemoryManager.takeLoop mm.firstPage (k + pages - 1 - k) k m)
        (mm.firstPage + (k + pages - 1)) .last) := by
    simp only [MemoryManager.alloc, taken.manager, found, final, PAGE_SIZE, ptr]
  generalize status : Page.setStatus (MemoryManager.takeLoop mm.firstPage (k + pages - 1 - k) k m)
    (mm.firstPage + (k + pages - 1)) .last = m' at run
  have apply : ∀ a, m' a = if a = mm.firstPage + (k + pages - 1) then PageStatus.last.toU8
      else if mm.firstPage + k ≤ a ∧ a < mm.firstPage + (k + pages - 1) then PageStatus.taken.toU8
      else m a := by
    intro a
    rw [← status, Page.setStatus, store8, MemoryManager.takeLoop, MemoryManager.statusLoop_apply]
    by_cases last : a = mm.firstPage + (k + pages - 1)
    · rw [if_pos last, if_pos last]
    · rw [if_neg last, if_neg last]
      by_cases inner : mm.firstPage + k ≤ a ∧ a < mm.firstPage + (k + pages - 1)
      · rw [if_pos (by omega), if_pos inner]
      · rw [if_neg (by omega), if_neg inner]
  have outside : ∀ a, ¬ bytesAt mm.firstPage mm.numberOfPages a → m' a = m a := by
    intro a outside
    unfold bytesAt at outside
    rw [apply, if_neg (by omega), if_neg (by omega)]
  refine ⟨m', run, ⟨?_, fun x small => ?_⟩, outside⟩
  · refine (MemoryManager.load_congr fun a low high => outside a ?_).trans taken.manager
    unfold bytesAt
    omega
  · rw [Page.isFree, apply]
    by_cases last : x = k + pages - 1
    · rw [if_pos (by omega)]
      exact ⟨fun free => absurd free (by decide), fun le => absurd le (by omega)⟩
    · rw [if_neg (by omega)]
      by_cases inner : k ≤ x ∧ x < k + pages - 1
      · rw [if_pos (by omega)]
        exact ⟨fun free => absurd free (by decide), fun le => absurd le (by omega)⟩
      · rw [if_neg (by omega)]
        have before := taken.free x small
        rw [Page.isFree] at before
        rw [before]
        omega

/-- `zalloc` clears them. -/
theorem zalloc (taken : FirstTaken mm m n) (layout : mm.Layout) (pos : 1 ≤ pages) (some : 1 ≤ n)
    (fits : n + pages ≤ mm.numberOfPages) :
    ∃ m', MemoryManager.zalloc m mm.allocStart pages = (mm.allocStart + PAGE_SIZE * n,
        ByteMemory.clear m' (mm.allocStart + PAGE_SIZE * n) (PAGE_SIZE * pages)) ∧
      FirstTaken mm (ByteMemory.clear m' (mm.allocStart + PAGE_SIZE * n) (PAGE_SIZE * pages))
        (n + pages) ∧
      ∀ a, ¬ bytesAt mm.firstPage mm.numberOfPages a → m' a = m a := by
  obtain ⟨m', run, taken', outside⟩ := taken.alloc layout pos fits
  have addressable := layout.addressable
  have descriptors := layout.descriptors
  have first := layout.first
  have ne : mm.allocStart + PAGE_SIZE * n ≠ 0 := by unfold PAGE_SIZE; omega
  have size : 8 * (PAGE_SIZE * pages % 2 ^ 64 / 8) = PAGE_SIZE * pages := by
    unfold PAGE_SIZE at addressable ⊢
    omega
  refine ⟨m', ?_, taken'.congr (fun a inside => ?_) (fun a inside => ?_), outside⟩
  · simp only [MemoryManager.zalloc, run]
    rw [if_neg ne, MemoryManager.zeroLoop_eq, size, Nat.mul_zero, Nat.add_zero]
  · unfold bytesAt at inside
    exact clear_apply_outside _ (by unfold PAGE_SIZE; omega)
  · unfold bytesAt at inside
    exact clear_apply_outside _ (by unfold PAGE_SIZE; omega)

end FirstTaken

/-! ## Stale entries -/

theorem loadEntry_congr {m m' : Memory} {a : Nat} (same : ∀ x, bytesAt a 8 x → m x = m' x) :
    loadEntry m a = loadEntry m' a :=
  congrArg PageTableEntry.setValue (load64_congr fun x low high => same x ⟨low, high⟩)

/-- A table can be hung in the entry: it is not valid, and none of its bits gets into the address of
the table. -/
structure PageTableEntry.Vacant (e : PageTableEntry) : Prop where
  invalid : e.isValid = false
  software : e.rsw.getLsbD 1 = false
  reserved : e.reserved = 0

/-- An entry of a clear table, and what a stale one is instead. -/
inductive RootEntry (stale : PageTableEntry) : PageTableEntry → PageTableEntry → Prop where
  | unused : RootEntry stale (.setValue 0) stale
  | table (page : Nat) : RootEntry stale (hang (.setValue 0) page) (hang stale page)

namespace RootEntry

variable {stale e e' : PageTableEntry}

theorem isLeaf_eq (entry : RootEntry stale e e') : e'.isLeaf = stale.isLeaf := by
  cases entry <;> rfl

theorem isValid_eq (entry : RootEntry stale e e') (vacant : stale.Vacant) :
    e'.isValid = e.isValid := by
  cases entry with
  | unused =>
    rw [vacant.invalid]
    decide
  | table page => rfl

theorem of_invalid (entry : RootEntry stale e e') (invalid : e.isValid = false) :
    e = .setValue 0 ∧ e' = stale := by
  cases entry with
  | unused => exact ⟨rfl, rfl⟩
  | table page => cases invalid

/-- Both lead to the same table. -/
theorem getPpn_eq (entry : RootEntry stale e e') (vacant : stale.Vacant) (valid : e.isValid) :
    e'.getPpn = e.getPpn := by
  cases entry with
  | unused => exact absurd valid (by decide)
  | table page =>
    have software : (PageTableEntry.setValue 0).rsw.getLsbD 1 = false := by decide
    have reserved : (PageTableEntry.setValue 0).reserved = 0 := by decide
    exact PageTableEntry.getPpn_congr vacant.software vacant.reserved software reserved rfl

end RootEntry

/-! ## `map` over the allocator -/

/-- The pages of `zalloc(1)` after the first two, of which the second is the root. -/
def heapPages {mm : MemoryManager} (layout : mm.Layout)
    (addressable : mm.allocStart + PAGE_SIZE * mm.numberOfPages ≤ 2 ^ 56) :
    PageSource (mm.allocStart + PAGE_SIZE) where
  page n := mm.allocStart + PAGE_SIZE * (2 + n)
  limit := mm.numberOfPages - 2
  root_aligned := by
    have aligned := layout.aligned
    unfold PAGE_SIZE at aligned ⊢
    omega
  aligned n _ := by
    have aligned := layout.aligned
    unfold PAGE_SIZE at aligned ⊢
    omega
  ne_null n _ := by
    unfold PAGE_SIZE
    omega
  addressable n small := by
    unfold PAGE_SIZE at addressable ⊢
    omega
  injective i _ j _ eq := by
    unfold PAGE_SIZE at eq
    omega
  ne_root n _ eq := by
    unfold PAGE_SIZE at eq
    omega

/-- The memory of the source is that of the allocator behind the root. In the root, the entries that
no mapped page goes through are clear here and stale there. -/
structure Simulates (mm : MemoryManager) (used : BitVec 9 → Prop) (stale : BitVec 9 → PageTableEntry)
    (m : Memory) (s : Vm) : Prop where
  tables : ∀ x, mm.allocStart + 2 * PAGE_SIZE ≤ x → s.memory x = m x
  taken : FirstTaken mm m (2 + s.zallocs)
  root : ∀ i, RootEntry (stale i) (loadEntry s.memory (entryAddress (mm.allocStart + PAGE_SIZE) i))
    (loadEntry m (entryAddress (mm.allocStart + PAGE_SIZE) i))
  unused : ∀ i, ¬ used i →
    loadEntry s.memory (entryAddress (mm.allocStart + PAGE_SIZE) i) = .setValue 0 ∧
      loadEntry m (entryAddress (mm.allocStart + PAGE_SIZE) i) = stale i

theorem MemoryManager.mapStep_of_valid {self a k : Nat} {m : Memory} {v : VirtualAddress}
    (valid : (loadEntry m a).isValid) : MemoryManager.mapStep self v (a, m) k =
      (entryAddress (loadEntry m a).getPpn.toNat (stepIndex v k), m) := by
  rw [MemoryManager.mapStep, (MemoryManager.pageSupply self).mapStep_of_valid valid]
  rfl

theorem MemoryManager.mapStep_of_invalid {self a k : Nat} {m : Memory} {v : VirtualAddress}
    (invalid : (loadEntry m a).isValid = false) : MemoryManager.mapStep self v (a, m) k =
      let taken := MemoryManager.zalloc m self 1
      let e := hang (loadEntry taken.2 a) taken.1
      (entryAddress e.getPpn.toNat (stepIndex v k), storeEntry taken.2 a e) := by
  rw [MemoryManager.mapStep, (MemoryManager.pageSupply self).mapStep_of_invalid invalid]
  simp only [MemoryManager.pageSupply, loadEntry_storeEntry]
  rfl

theorem MemoryManager.map_eq (self root : Nat) (v : VirtualAddress) (p : PhysicalAddress)
    (bits : BitVec 64) (level : Nat) (m : Memory) : MemoryManager.map self root v p bits level m =
      let vm := ([1, 0].filter (level ≤ ·)).foldl (MemoryManager.mapStep self v)
        (entryAddress root v.vpn2, m)
      storeEntry vm.2 vm.1 (leafOf (loadEntry vm.2 vm.1) p bits) := by
  have rounds : ([1, 0].filter (level ≤ ·)).foldl (MemoryManager.mapStep self v)
      (entryAddress root v.vpn2, m) =
        (([1, 0].filter (level ≤ ·)).foldlM ((MemoryManager.pageSupply self).mapStep v)
          (entryAddress root v.vpn2, m)).run := List.idRun_foldlM.symm
  rw [rounds]
  rfl

theorem MemoryManager.mapRange_eq (self root : Nat) (vs ve ps bits : BitVec 64) (m : Memory) :
    MemoryManager.mapRange self root vs ve ps bits m =
      MemoryManager.mapRangeLoop self root bits
        ((alignValue ve 12 - (vs &&& ~~~Align.lowMask 12)).toNat / PAGE_SIZE)
        (vs &&& ~~~Align.lowMask 12) (ps &&& ~~~Align.lowMask 12) m :=
  rfl

theorem MemoryManager.run_identityMapRange (self root : Nat) (start stop bits : BitVec 64)
    (m : Memory) : MemoryManager.run self root m (.identityMapRange start stop bits) =
      MemoryManager.mapRange self root start stop start bits m :=
  (MemoryManager.pageSupply self).identityMapRange_eq root start stop bits m

section Simulates

variable {mm : MemoryManager} {used : BitVec 9 → Prop} {stale : BitVec 9 → PageTableEntry}
  {m : Memory} {s : Vm} (layout : mm.Layout)
  (addressable : mm.allocStart + PAGE_SIZE * mm.numberOfPages ≤ 2 ^ 56)

namespace Simulates

theorem loadEntry (sim : Simulates mm used stale m s) {a : Nat}
    (behind : mm.allocStart + 2 * PAGE_SIZE ≤ a) :
    Memory.loadEntry s.memory a = Memory.loadEntry m a :=
  loadEntry_congr fun x inside => sim.tables x (Nat.le_trans behind inside.1)

include layout in
/-- A store behind the root. -/
theorem storeEntry (sim : Simulates mm used stale m s) {a : Nat}
    (behind : mm.allocStart + 2 * PAGE_SIZE ≤ a) (e : PageTableEntry) :
    Simulates mm used stale (Memory.storeEntry m a e)
      { s with memory := Memory.storeEntry s.memory a e } := by
  have front := layout.descriptors
  have first := layout.first
  unfold PAGE_SIZE at behind
  have kept : ∀ (m : Memory) i, Memory.loadEntry (Memory.storeEntry m a e)
      (entryAddress (mm.allocStart + PAGE_SIZE) i) =
      Memory.loadEntry m (entryAddress (mm.allocStart + PAGE_SIZE) i) := by
    intro m i
    have small := i.isLt
    refine congrArg PageTableEntry.setValue (load64_store64_of_disjoint m _ (.inl ?_))
    unfold entryAddress PAGE_SIZE
    omega
  refine ⟨fun x high => ?_, sim.taken.congr (fun x inside => ?_) (fun x inside => ?_), fun i => ?_,
    fun i not => ?_⟩
  · change Memory.storeEntry s.memory a e x = _
    simp only [Memory.storeEntry, store64]
    rw [sim.tables x high]
  · unfold bytesAt at inside
    exact store64_apply_of_outside _ _ (.inl (by omega))
  · unfold bytesAt at inside
    exact store64_apply_of_outside _ _ (.inl (by omega))
  · rw [kept, kept]
    exact sim.root i
  · rw [kept, kept]
    exact sim.unused i not

/-- The two allocators give the same page, and leave the root. -/
theorem zalloc (sim : Simulates mm used stale m s) (more : s.zallocs + 2 < mm.numberOfPages) :
    (MemoryManager.zalloc m mm.allocStart 1).1 =
        (Memory.zalloc (heapPages layout addressable).page s).1 ∧
      Simulates mm used stale (MemoryManager.zalloc m mm.allocStart 1).2
        (Memory.zalloc (heapPages layout addressable).page s).2 ∧
      ∀ i, Memory.loadEntry (Memory.zalloc (heapPages layout addressable).page s).2.memory
        (entryAddress (mm.allocStart + PAGE_SIZE) i) =
          Memory.loadEntry s.memory (entryAddress (mm.allocStart + PAGE_SIZE) i) := by
  have front := layout.descriptors
  have first := layout.first
  have fits : 2 + s.zallocs + 1 ≤ mm.numberOfPages := by omega
  obtain ⟨m', run, taken, outside⟩ := sim.taken.zalloc layout (Nat.le_refl 1) (by omega) fits
  have ne : (heapPages layout addressable).page s.zallocs ≠ 0 := by
    simp only [heapPages, PAGE_SIZE]
    omega
  -- neither the page nor the descriptors are in the root
  have same : ∀ x, mm.allocStart ≤ x → m' x = m x := by
    intro x high
    refine outside x ?_
    unfold bytesAt
    omega
  have cleared : ∀ (m : Memory) i, Memory.loadEntry
      (ByteMemory.clear m (mm.allocStart + PAGE_SIZE * (2 + s.zallocs)) (PAGE_SIZE * 1))
      (entryAddress (mm.allocStart + PAGE_SIZE) i) =
      Memory.loadEntry m (entryAddress (mm.allocStart + PAGE_SIZE) i) := by
    intro m i
    have small := i.isLt
    refine congrArg PageTableEntry.setValue (load64_clear_outside m (.inl ?_))
    unfold entryAddress PAGE_SIZE
    omega
  have root : ∀ i, Memory.loadEntry m' (entryAddress (mm.allocStart + PAGE_SIZE) i) =
      Memory.loadEntry m (entryAddress (mm.allocStart + PAGE_SIZE) i) := by
    refine fun i => loadEntry_congr fun x inside => same x ?_
    unfold bytesAt entryAddress at inside
    omega
  rw [run]
  simp only [Memory.zalloc, if_neg ne]
  refine ⟨rfl, ⟨fun x high => ?_, ?_, fun i => ?_, fun i not => ?_⟩, cleared s.memory⟩
  · have equal := sim.tables x high
    rw [← same x (by omega)] at equal
    simp only [ByteMemory.clear]
    rw [equal]
    rfl
  · rw [← Nat.add_assoc]
    exact taken
  · have entry := sim.root i
    rw [← root, ← cleared m', ← cleared s.memory] at entry
    exact entry
  · have entry := sim.unused i not
    rw [← root, ← cleared m', ← cleared s.memory] at entry
    exact entry

/-- The tables that one iteration of the loop of `map` makes. -/
theorem more_of_mapStep {a i : Nat} {v : VirtualAddress}
    (invalid : (Memory.loadEntry s.memory a).isValid = false)
    (within : (Memory.mapStep (heapPages layout addressable).page v (a, s) i).2.zallocs + 2 ≤
      mm.numberOfPages) : s.zallocs + 2 < mm.numberOfPages := by
  have ne : (heapPages layout addressable).page s.zallocs ≠ 0 := by
    have first := layout.first
    simp only [heapPages, PAGE_SIZE]
    omega
  rw [mapStep_of_invalid invalid ne] at within
  dsimp only at within
  omega

/-- One iteration of the loop of `map`, at a slot behind the root. -/
theorem mapStep (sim : Simulates mm used stale m s) {a : Nat}
    (behind : mm.allocStart + 2 * PAGE_SIZE ≤ a) (v : VirtualAddress) (i : Nat)
    (within : (Memory.mapStep (heapPages layout addressable).page v (a, s) i).2.zallocs + 2 ≤
      mm.numberOfPages) :
    (MemoryManager.mapStep mm.allocStart v (a, m) i).1 =
        (Memory.mapStep (heapPages layout addressable).page v (a, s) i).1 ∧
      Simulates mm used stale (MemoryManager.mapStep mm.allocStart v (a, m) i).2
        (Memory.mapStep (heapPages layout addressable).page v (a, s) i).2 := by
  have entry := sim.loadEntry behind
  by_cases valid : (Memory.loadEntry m a).isValid
  · rw [MemoryManager.mapStep_of_valid valid, mapStep_of_valid (entry ▸ valid) rfl, entry]
    exact ⟨rfl, sim⟩
  rw [Bool.not_eq_true] at valid
  have invalid : (Memory.loadEntry s.memory a).isValid = false := entry ▸ valid
  have more := more_of_mapStep layout addressable invalid within
  have ne : (heapPages layout addressable).page s.zallocs ≠ 0 := by
    have first := layout.first
    simp only [heapPages, PAGE_SIZE]
    omega
  obtain ⟨same, later, -⟩ := sim.zalloc layout addressable more
  have entry' := later.loadEntry behind
  have stored := later.storeEntry layout behind
    (hang (Memory.loadEntry (MemoryManager.zalloc m mm.allocStart 1).2 a)
      (MemoryManager.zalloc m mm.allocStart 1).1)
  rw [MemoryManager.mapStep_of_invalid valid, mapStep_of_invalid invalid ne]
  simp only [Memory.zalloc, if_neg ne] at same entry' stored ⊢
  rw [entry', ← same]
  rw [same] at stored ⊢
  exact ⟨rfl, stored⟩

include layout in
/-- A table is hung in an entry of the root. -/
theorem hang (sim : Simulates mm used stale m s) {j : BitVec 9} (through : used j) (page : Nat) :
    Simulates mm used stale
      (Memory.storeEntry m (entryAddress (mm.allocStart + PAGE_SIZE) j) (Memory.hang (stale j) page))
      { s with memory := Memory.storeEntry s.memory (entryAddress (mm.allocStart + PAGE_SIZE) j)
                (Memory.hang (.setValue 0) page) } := by
  have front := layout.descriptors
  have first := layout.first
  have small := j.isLt
  have aligned : 4096 ∣ mm.allocStart + PAGE_SIZE := by
    have aligned := layout.aligned
    unfold PAGE_SIZE at aligned ⊢
    omega
  have other : ∀ (m : Memory) i e, i ≠ j → Memory.loadEntry
      (Memory.storeEntry m (entryAddress (mm.allocStart + PAGE_SIZE) j) e)
      (entryAddress (mm.allocStart + PAGE_SIZE) i) =
      Memory.loadEntry m (entryAddress (mm.allocStart + PAGE_SIZE) i) := by
    intro m i e ne
    refine congrArg PageTableEntry.setValue (load64_store64_of_disjoint m _ ?_)
    exact entryAddress_disjoint aligned aligned fun eq => ne (Prod.mk.inj eq).2
  refine ⟨fun x high => ?_, sim.taken.congr (fun x inside => ?_) (fun x inside => ?_), fun i => ?_,
    fun i not => ?_⟩
  · refine (store64_apply_of_outside _ _ (.inr ?_)).trans ((sim.tables x high).trans
      (store64_apply_of_outside _ _ (.inr ?_)).symm)
    all_goals
      unfold PAGE_SIZE at high
      unfold entryAddress PAGE_SIZE
      omega
  · unfold bytesAt at inside
    exact store64_apply_of_outside _ _ (.inl (by unfold entryAddress PAGE_SIZE; omega))
  · unfold bytesAt at inside
    exact store64_apply_of_outside _ _ (.inl (by unfold entryAddress PAGE_SIZE; omega))
  · by_cases same : i = j
    · subst same
      rw [loadEntry_storeEntry, loadEntry_storeEntry]
      exact .table page
    · rw [other _ i _ same, other _ i _ same]
      exact sim.root i
  · have ne : i ≠ j := fun same => not (same ▸ through)
    rw [other _ i _ ne, other _ i _ ne]
    exact sim.unused i not

/-- One iteration of the loop of `map`, at an entry of the root. -/
theorem mapStep_root (sim : Simulates mm used stale m s) {j : BitVec 9} (through : used j)
    (vacant : (stale j).Vacant) (v : VirtualAddress) (i : Nat)
    (within : (Memory.mapStep (heapPages layout addressable).page v
      (entryAddress (mm.allocStart + PAGE_SIZE) j, s) i).2.zallocs + 2 ≤ mm.numberOfPages) :
    (MemoryManager.mapStep mm.allocStart v (entryAddress (mm.allocStart + PAGE_SIZE) j, m) i).1 =
        (Memory.mapStep (heapPages layout addressable).page v
          (entryAddress (mm.allocStart + PAGE_SIZE) j, s) i).1 ∧
      Simulates mm used stale
        (MemoryManager.mapStep mm.allocStart v (entryAddress (mm.allocStart + PAGE_SIZE) j, m) i).2
        (Memory.mapStep (heapPages layout addressable).page v
          (entryAddress (mm.allocStart + PAGE_SIZE) j, s) i).2 := by
  have entry := sim.root j
  have validEq := entry.isValid_eq vacant
  by_cases valid : (Memory.loadEntry s.memory (entryAddress (mm.allocStart + PAGE_SIZE) j)).isValid
  · rw [MemoryManager.mapStep_of_valid (validEq.trans valid), mapStep_of_valid valid rfl,
      entry.getPpn_eq vacant valid]
    exact ⟨rfl, sim⟩
  rw [Bool.not_eq_true] at valid
  have more := more_of_mapStep layout addressable valid within
  have ne : (heapPages layout addressable).page s.zallocs ≠ 0 := by
    have first := layout.first
    simp only [heapPages, PAGE_SIZE]
    omega
  obtain ⟨same, later, kept⟩ := sim.zalloc layout addressable more
  obtain ⟨blank, there⟩ := (later.root j).of_invalid (by rw [kept, valid])
  have hung := later.hang layout through (MemoryManager.zalloc m mm.allocStart 1).1
  rw [MemoryManager.mapStep_of_invalid (validEq.trans valid), mapStep_of_invalid valid ne]
  dsimp only
  rw [there]
  simp only [Memory.zalloc, if_neg ne] at same blank hung ⊢
  rw [blank, ← same]
  refine ⟨?_, same ▸ hung⟩
  have led := (RootEntry.table (MemoryManager.zalloc m mm.allocStart 1).1).getPpn_eq vacant rfl
  rw [led]

end Simulates

/-- Below the root there are other tables. -/
theorem Represents.slot_ne_root {root : Nat} {src : PageSource root} {t : PageTree}
    (rep : Represents src s t) {i j k : BitVec 9} {p : List (BitVec 9)} {l : Nat}
    (slot : t.slot (i :: j :: p) = some (l, k)) : l ≠ root := by
  rintro rfl
  obtain ⟨c, rfl⟩ := rep.rooted
  exact rep.separated.1 i (Tree.owns_of_slot slot)

/-- Below the root there are pages of the source. -/
theorem Represents.page_of_slot {root : Nat} {src : PageSource root} {t : PageTree}
    (rep : Represents src s t) {i j k : BitVec 9} {p : List (BitVec 9)} {l : Nat}
    (slot : t.slot (i :: j :: p) = some (l, k)) : ∃ n < s.zallocs, l = src.page n := by
  rcases rep.source l (Tree.owns_of_slot slot) with rfl | found
  · exact absurd rfl (rep.slot_ne_root slot)
  · exact found

theorem vpn2_eq (a : BitVec 64) :
    (VirtualAddress.ofU64 a).vpn2 = .ofNat 9 (a.toNat / 4096 / 2 ^ 18) := by
  apply BitVec.eq_of_toNat_eq
  rw [VirtualAddress.ofU64, BitVec.extractLsb'_toNat, Nat.shiftRight_eq_div_pow, BitVec.toNat_ofNat]
  omega

namespace Simulates

variable {t : PageTree} {g : Nat → Option PageTableEntry}

/-- The slots of tables below the root are behind it. -/
theorem le_slot (rep : Represents (heapPages layout addressable) s t) {i j k : BitVec 9}
    {p : List (BitVec 9)} {l : Nat} (slot : t.slot (i :: j :: p) = some (l, k)) :
    mm.allocStart + 2 * PAGE_SIZE ≤ entryAddress l k := by
  obtain ⟨n, less, rfl⟩ := rep.page_of_slot slot
  simp only [heapPages, entryAddress, PAGE_SIZE]
  omega

/-- `map` over the allocator does what it does over the source. -/
theorem map (sim : Simulates mm used stale m s)
    (rep : Represents (heapPages layout addressable) s t)
    (vacant : ∀ i, used i → (stale i).Vacant) (v : VirtualAddress) (through : used v.vpn2) (p : PhysicalAddress) (bits : BitVec 64)
    (within : (Memory.map (heapPages layout addressable).page (mm.allocStart + PAGE_SIZE) v p bits 0
      s).zallocs + 2 ≤ mm.numberOfPages) :
    Simulates mm used stale
      (MemoryManager.map mm.allocStart (mm.allocStart + PAGE_SIZE) v p bits 0 m)
      (Memory.map (heapPages layout addressable).page (mm.allocStart + PAGE_SIZE) v p bits 0 s) := by
  have slot₂ : t.slot [v.vpn2] = some (mm.allocStart + PAGE_SIZE, v.vpn2) := by
    obtain ⟨c, rfl⟩ := rep.rooted
    rfl
  have limit : (heapPages layout addressable).limit = mm.numberOfPages - 2 := rfl
  have within₁ := mapStep_zallocs_le (heapPages layout addressable).page v
    (Memory.mapStep (heapPages layout addressable).page v
      (entryAddress (mm.allocStart + PAGE_SIZE) v.vpn2, s) 1) 0
  change _ ≤ (Memory.map (heapPages layout addressable).page (mm.allocStart + PAGE_SIZE) v p bits 0
    s).zallocs at within₁
  obtain ⟨t₁, l₁, s₁, run₁, rep₁, slot₁, -⟩ := rep.mapStep slot₂ (by simp) v 1 (by omega)
  obtain ⟨same₁, sim₁⟩ := sim.mapStep_root layout addressable through (vacant _ through) v 1
    (by omega)
  have behind₁ := le_slot layout addressable rep₁ slot₁
  rw [run₁] at same₁ sim₁ within₁
  have within₀ : (Memory.mapStep (heapPages layout addressable).page v
      (entryAddress l₁ (stepIndex v 1), s₁) 0).2.zallocs + 2 ≤ mm.numberOfPages := by
    rw [← run₁]
    exact within
  obtain ⟨t₀, l₀, s₀, run₀, rep₀, slot₀, -⟩ := rep₁.mapStep slot₁ (by simp) v 0 (by omega)
  obtain ⟨same₀, sim₀⟩ := sim₁.mapStep layout addressable behind₁ v 0 within₀
  have behind₀ := le_slot layout addressable rep₀ slot₀
  rw [run₀] at same₀ sim₀
  -- both loops end at the slot of the leaf
  have loop : ([1, 0].filter (0 ≤ ·)).foldl (Memory.mapStep (heapPages layout addressable).page v)
      (entryAddress (mm.allocStart + PAGE_SIZE) v.vpn2, s) = (entryAddress l₀ (stepIndex v 0), s₀) := by
    rw [show [1, 0].filter (0 ≤ ·) = [1, 0] from rfl, List.foldl_cons, List.foldl_cons, List.foldl_nil,
      run₁, run₀]
  generalize step₁ : MemoryManager.mapStep mm.allocStart v
    (entryAddress (mm.allocStart + PAGE_SIZE) v.vpn2, m) 1 = vm₁ at *
  obtain ⟨a₁, m₁⟩ := vm₁
  dsimp only at same₁ sim₁
  subst same₁
  generalize step₀ : MemoryManager.mapStep mm.allocStart v (entryAddress l₁ (stepIndex v 1), m₁) 0 =
    vm₀ at *
  obtain ⟨a₀, m₀⟩ := vm₀
  dsimp only at same₀ sim₀
  subst same₀
  have loop' : ([1, 0].filter (0 ≤ ·)).foldl (MemoryManager.mapStep mm.allocStart v)
      (entryAddress (mm.allocStart + PAGE_SIZE) v.vpn2, m) = (entryAddress l₀ (stepIndex v 0), m₀) := by
    rw [show [1, 0].filter (0 ≤ ·) = [1, 0] from rfl, List.foldl_cons, List.foldl_cons, List.foldl_nil,
      step₁, step₀]
  simp only [MemoryManager.map_eq, Memory.map_eq, loop, loop', sim₀.loadEntry behind₀]
  exact sim₀.storeEntry layout behind₀ _

/-- The loop of `map_range`. -/
theorem mapRangeLoop (sim : Simulates mm used stale m s)
    (impl : Implements (heapPages layout addressable) s g)
    (vacant : ∀ i, used i → (stale i).Vacant) {bits : BitVec 64}
    (low : bits.toNat < 256) (n : Nat) {v p : BitVec 64} (hv : 4096 ∣ v.toNat)
    (hp : 4096 ∣ p.toNat) (vtop : v.toNat + 4096 * n ≤ 2 ^ 39)
    (ptop : ∀ i < n, p.toNat + 4096 * i < 2 ^ 56)
    (through : ∀ q, v.toNat / 4096 ≤ q → q < v.toNat / 4096 + n → used (.ofNat 9 (q / 2 ^ 18)))
    (within : (Memory.mapRangeLoop (heapPages layout addressable).page (mm.allocStart + PAGE_SIZE)
      bits n v p s).zallocs + 2 ≤ mm.numberOfPages) :
    Simulates mm used stale
      (MemoryManager.mapRangeLoop mm.allocStart (mm.allocStart + PAGE_SIZE) bits n v p m)
      (Memory.mapRangeLoop (heapPages layout addressable).page (mm.allocStart + PAGE_SIZE) bits n v p
        s) := by
  induction n generalizing v p m s g with
  | zero => exact sim
  | succ n ih =>
    have limit : (heapPages layout addressable).limit = mm.numberOfPages - 2 := rfl
    have grows := mapRangeLoop_zallocs_le (heapPages layout addressable).page
      (mm.allocStart + PAGE_SIZE) bits n (v + .ofNat 64 PAGE_SIZE) (p + .ofNat 64 PAGE_SIZE)
      (Memory.map (heapPages layout addressable).page (mm.allocStart + PAGE_SIZE) (.ofU64 v)
        (.ofU64 p) bits 0 s)
    rw [Memory.mapRangeLoop_succ] at within
    have first := ptop 0 (by omega)
    have nextV : (v + .ofNat 64 PAGE_SIZE).toNat = v.toNat + 4096 := nextPage_toNat (by omega)
    have nextP : (p + .ofNat 64 PAGE_SIZE).toNat = p.toNat + 4096 := nextPage_toNat (by omega)
    obtain ⟨t, rep, holds⟩ := id impl
    have here : used (VirtualAddress.ofU64 v).vpn2 := by
      rw [vpn2_eq]
      exact through _ (Nat.le_refl _) (by omega)
    have one := sim.map layout addressable rep vacant (.ofU64 v) here (.ofU64 p) bits (by omega)
    have mapped := impl.map (v := v) (p := p) (by omega) (by omega) low (by omega)
    refine ih one mapped (by omega) (by omega) (by omega) (nextPage_below ptop) ?_ within
    intro q low high
    rw [nextV] at low high
    exact through q (by omega) (by omega)

theorem mapRange (sim : Simulates mm used stale m s)
    (impl : Implements (heapPages layout addressable) s g)
    (vacant : ∀ i, used i → (stale i).Vacant) {vs ve ps bits : BitVec 64}
    (ordered : vs.toNat ≤ ve.toNat) (vtop : ve.toNat ≤ 2 ^ 39) (low : bits.toNat < 256)
    (ptop : ∀ page, vs.toNat / 4096 ≤ page → page < (ve.toNat + 4095) / 4096 →
      4096 * (ps.toNat / 4096 + (page - vs.toNat / 4096)) < 2 ^ 56)
    (through : ∀ q, vs.toNat / 4096 ≤ q → q < (ve.toNat + 4095) / 4096 →
      used (.ofNat 9 (q / 2 ^ 18)))
    (within : (Memory.mapRange (heapPages layout addressable).page (mm.allocStart + PAGE_SIZE)
      vs ve ps bits s).zallocs + 2 ≤ mm.numberOfPages) :
    Simulates mm used stale
      (MemoryManager.mapRange mm.allocStart (mm.allocStart + PAGE_SIZE) vs ve ps bits m)
      (Memory.mapRange (heapPages layout addressable).page (mm.allocStart + PAGE_SIZE) vs ve ps bits
        s) := by
  have v := pageStart_toNat vs
  have p := pageStart_toNat ps
  have n := rangePages ordered vtop
  rw [MemoryManager.mapRange_eq]
  rw [Memory.mapRange_eq] at within ⊢
  rw [n] at within ⊢
  refine sim.mapRangeLoop layout addressable impl vacant low _ (by omega)
    (by omega) (by omega) (fun i hi => ?_) (fun q first last => ?_) within
  · have := ptop (vs.toNat / 4096 + i) (by omega) (by omega)
    omega
  · exact through q (by omega) (by omega)

/-- A root that was not cleared, and no table yet. -/
theorem start (taken : FirstTaken mm m 2)
    (entries : ∀ i, Memory.loadEntry m (entryAddress (mm.allocStart + PAGE_SIZE) i) = stale i) :
    Simulates mm used stale m ⟨ByteMemory.clear m (mm.allocStart + PAGE_SIZE) PAGE_SIZE, 0⟩ := by
  have blank : ∀ i, Memory.loadEntry (ByteMemory.clear m (mm.allocStart + PAGE_SIZE) PAGE_SIZE)
      (entryAddress (mm.allocStart + PAGE_SIZE) i) = .setValue 0 := by
    intro i
    have small := i.isLt
    refine congrArg PageTableEntry.setValue (load64_clear_inside m (Nat.le_add_right _ _) ?_)
    unfold entryAddress PAGE_SIZE
    omega
  refine ⟨fun x high => clear_apply_outside _ (.inr (by omega)), taken, fun i => ?_, fun i _ =>
    ⟨blank i, entries i⟩⟩
  rw [blank, entries]
  exact .unused

/-- A call over the allocator does what it does over the source. -/
theorem run (sim : Simulates mm used stale m s) (impl : Implements (heapPages layout addressable) s g)
    (vacant : ∀ i, used i → (stale i).Vacant) {c : Call} (ok : c.WithinBounds)
    (through : ∀ q, (c.target q).isSome → used (.ofNat 9 (q / 2 ^ 18)))
    (within : (c.run (heapPages layout addressable).page (mm.allocStart + PAGE_SIZE) s).zallocs + 2 ≤
      mm.numberOfPages) :
    Simulates mm used stale (MemoryManager.run mm.allocStart (mm.allocStart + PAGE_SIZE) m c)
      (c.run (heapPages layout addressable).page (mm.allocStart + PAGE_SIZE) s) := by
  cases c with
  | map v p bits =>
    obtain ⟨t, rep, -⟩ := impl
    have here : used (VirtualAddress.ofU64 v).vpn2 := by
      rw [vpn2_eq]
      exact through _ (by simp [Call.target])
    exact sim.map layout addressable rep vacant _ here _ _ within
  | mapRange vs ve ps bits =>
    obtain ⟨ordered, vtop, low, ptop⟩ := ok
    refine sim.mapRange layout addressable impl vacant ordered vtop low ptop
      (fun q first last => through q ?_) within
    simp [Call.target, first, last]
  | identityMapRange start stop bits =>
    obtain ⟨ordered, vtop, low⟩ := ok
    rw [Call.run_identityMapRange, MemoryManager.run_identityMapRange] at *
    refine sim.mapRange layout addressable impl vacant ordered vtop low
      (fun q first last => by omega) (fun q first last => through q ?_) within
    simp [Call.target, first, last]

theorem runCalls (sim : Simulates mm used stale m s)
    (impl : Implements (heapPages layout addressable) s g)
    (vacant : ∀ i, used i → (stale i).Vacant) {calls : List Call}
    (ok : ∀ c ∈ calls, c.WithinBounds)
    (through : ∀ c ∈ calls, ∀ q, (c.target q).isSome → used (.ofNat 9 (q / 2 ^ 18)))
    (within : (Memory.runCalls (heapPages layout addressable).page (mm.allocStart + PAGE_SIZE) calls
      s).zallocs + 2 ≤ mm.numberOfPages) :
    Simulates mm used stale
      (calls.foldl (MemoryManager.run mm.allocStart (mm.allocStart + PAGE_SIZE)) m)
      (Memory.runCalls (heapPages layout addressable).page (mm.allocStart + PAGE_SIZE) calls s) := by
  induction calls generalizing m s g with
  | nil => exact sim
  | cons c calls ih =>
    have limit : (heapPages layout addressable).limit = mm.numberOfPages - 2 := rfl
    have grows := runCalls_zallocs_le (heapPages layout addressable).page
      (mm.allocStart + PAGE_SIZE) calls
      (c.run (heapPages layout addressable).page (mm.allocStart + PAGE_SIZE) s)
    have within' : (c.run (heapPages layout addressable).page (mm.allocStart + PAGE_SIZE)
        s).zallocs + 2 ≤ mm.numberOfPages := Nat.le_trans (Nat.add_le_add_right grows 2) within
    have first := sim.run layout addressable impl vacant (ok c List.mem_cons_self)
      (through c List.mem_cons_self) within'
    have mapped := impl.run (ok c List.mem_cons_self) (by omega)
    exact ih first mapped (fun d mem => ok d (List.mem_cons_of_mem c mem))
      (fun d mem => through d (List.mem_cons_of_mem c mem)) within

end Simulates

end Simulates

/-! ## Leaf entries -/

section LeafEntry

variable {root : Nat} {src : PageSource root} {s : Vm} {t : PageTree}

/-- A valid entry above the leaves leads to a table. -/
theorem Represents.table_of_valid (rep : Represents src s t) {p : List (BitVec 9)} {l : Nat}
    {i : BitVec 9} (slot : t.slot p = some (l, i)) (short : p.length < 3)
    (valid : (loadEntry s.memory (entryAddress l i)).isValid) :
    ∃ l' c, t.subtree p = .node l' c ∧ (loadEntry s.memory (entryAddress l i)).isLeaf = false ∧
      (loadEntry s.memory (entryAddress l i)).getPpn.toNat = l' := by
  have word := rep.held.word_of_slot slot
  cases sub : t.subtree p with
  | empty =>
    rw [sub] at word
    have blank : loadEntry s.memory (entryAddress l i) = .setValue 0 := congrArg _ word
    rw [blank] at valid
    exact absurd valid (by decide)
  | leaf e =>
    have depth : 3 - p.length + p.length = 3 := by omega
    have levels : (t.subtree p).Levels (3 - p.length) :=
      Tree.Levels.subtree (by rw [depth]; exact rep.levels)
    rw [sub, show 3 - p.length = 2 - p.length + 1 by omega] at levels
    exact levels.elim
  | node l' c =>
    rw [sub] at word
    exact ⟨l', c, rfl, word.2.2.2⟩

/-- The leaf entry of an address is decided by where one entry of the root leads and by the pages of
tables. -/
theorem Represents.leafEntry_congr (rep : Represents src s t) {v : VirtualAddress} {m : Memory}
    (valid : (loadEntry m (entryAddress root v.vpn2)).isValid =
      (loadEntry s.memory (entryAddress root v.vpn2)).isValid)
    (pointer : (loadEntry m (entryAddress root v.vpn2)).isLeaf = false)
    (ppn : (loadEntry s.memory (entryAddress root v.vpn2)).isValid →
      (loadEntry m (entryAddress root v.vpn2)).getPpn =
        (loadEntry s.memory (entryAddress root v.vpn2)).getPpn)
    (tables : ∀ n < s.zallocs, ∀ i, loadEntry m (entryAddress (src.page n) i) =
      loadEntry s.memory (entryAddress (src.page n) i)) :
    Memory.leafEntry m root v = Memory.leafEntry s.memory root v := by
  have slot₂ : t.slot [v.vpn2] = some (root, v.vpn2) := by
    obtain ⟨c, rfl⟩ := rep.rooted
    rfl
  unfold Memory.leafEntry
  dsimp only
  rw [valid]
  by_cases valid₂ : (loadEntry s.memory (entryAddress root v.vpn2)).isValid
  case neg => simp only [valid₂, Bool.not_false, if_true]
  obtain ⟨l₁, c₁, sub₁, pointer₁, ppn₁⟩ := rep.table_of_valid slot₂ (by simp) valid₂
  have slot₁ := Tree.slot_append slot₂ sub₁ v.vpn1
  obtain ⟨n₁, less₁, rfl⟩ := rep.page_of_slot slot₁
  rw [ppn valid₂, pointer, pointer₁, ppn₁, tables n₁ less₁]
  simp only [Bool.false_eq_true, if_false]
  by_cases valid₁ : (loadEntry s.memory (entryAddress (src.page n₁) v.vpn1)).isValid
  case neg => simp only [valid₁, Bool.not_false, if_true]
  obtain ⟨l₀, c₀, sub₀, -, ppn₀⟩ := rep.table_of_valid slot₁ (by simp) valid₁
  have slot₀ := Tree.slot_append slot₁ sub₀ v.vpn0
  obtain ⟨n₀, less₀, rfl⟩ := rep.page_of_slot slot₀
  rw [ppn₀, tables n₀ less₀]

end LeafEntry

/-! ## How many tables the calls make -/

section Tables

variable {root : Nat} {src : PageSource root} {s : Vm} {t : PageTree}
  {g : Nat → Option PageTableEntry}

/-- A mapped address goes through two tables below the root. -/
theorem Represents.tables_of_lookup (rep : Represents src s t) {v : VirtualAddress}
    {e : PageTableEntry} (mapped : t.lookup v.path = some e) :
    ∃ t₂ t₁, (loadEntry s.memory (entryAddress root v.vpn2)).isValid ∧
      (loadEntry s.memory (entryAddress root v.vpn2)).getPpn.toNat = t₂ ∧
      (loadEntry s.memory (entryAddress t₂ v.vpn1)).isValid ∧
      (loadEntry s.memory (entryAddress t₂ v.vpn1)).getPpn.toNat = t₁ := by
  obtain ⟨c, rfl⟩ := rep.rooted
  have held₂ := rep.held v.vpn2
  have levels₂ := rep.levels v.vpn2
  simp only [VirtualAddress.path, Tree.lookup] at mapped
  cases sub₂ : c v.vpn2 with
  | empty =>
    rw [sub₂] at mapped
    cases mapped
  | leaf e' =>
    rw [sub₂] at levels₂
    exact levels₂.elim
  | node t₂ c₂ =>
    rw [sub₂] at mapped held₂ levels₂
    obtain ⟨⟨valid₂, -, -, -, ppn₂⟩, held₂⟩ := held₂
    have held₁ := held₂ v.vpn1
    have levels₁ := levels₂ v.vpn1
    simp only [Tree.lookup] at mapped
    cases sub₁ : c₂ v.vpn1 with
    | empty =>
      rw [sub₁] at mapped
      cases mapped
    | leaf e' =>
      rw [sub₁] at levels₁
      exact levels₁.elim
    | node t₁ c₁ =>
      rw [sub₁] at held₁
      obtain ⟨⟨valid₁, -, -, -, ppn₁⟩, -⟩ := held₁
      exact ⟨t₂, t₁, valid₂, ppn₂, valid₁, ppn₁⟩

/-- A page beside a mapped one needs no further table. -/
theorem Implements.map_zallocs (impl : Implements src s g) {v : BitVec 64} {q : Nat}
    (mapped : (g q).isSome) (low : q < 2 ^ 27) (region : q / 512 = v.toNat / 4096 / 512)
    (p : PhysicalAddress) (bits : BitVec 64) :
    (Memory.map src.page root (.ofU64 v) p bits 0 s).zallocs = s.zallocs := by
  obtain ⟨t, rep, holds⟩ := impl
  obtain ⟨e, entry⟩ := Option.isSome_iff_exists.1 mapped
  have number : (BitVec.ofNat 64 (4096 * q)).toNat = 4096 * q := by
    rw [BitVec.toNat_ofNat]
    omega
  have lookup := holds (.ofNat 64 (4096 * q)) (by omega)
  rw [number, Nat.mul_div_cancel_left q (by omega), entry] at lookup
  obtain ⟨t₂, t₁, valid₂, ppn₂, valid₁, ppn₁⟩ := rep.tables_of_lookup lookup
  have same₂ : (VirtualAddress.ofU64 (.ofNat 64 (4096 * q))).vpn2 = (VirtualAddress.ofU64 v).vpn2 := by
    rw [vpn2_eq, vpn2_eq, number]
    congr 1
    omega
  have same₁ : (VirtualAddress.ofU64 (.ofNat 64 (4096 * q))).vpn1 = (VirtualAddress.ofU64 v).vpn1 := by
    simp only [VirtualAddress.ofU64, ← BitVec.toNat_inj, BitVec.extractLsb'_toNat,
      Nat.shiftRight_eq_div_pow, number]
    omega
  rw [same₂] at valid₂ ppn₂
  rw [same₁] at valid₁ ppn₁
  have run₂ := @mapStep_of_valid src.page (.ofU64 v) _ _ 1 _ valid₂ ppn₂
  have run₁ := @mapStep_of_valid src.page (.ofU64 v) _ _ 0 _ valid₁ ppn₁
  have loop : ([1, 0].filter (0 ≤ ·)).foldl (Memory.mapStep src.page (.ofU64 v))
      (entryAddress root (VirtualAddress.ofU64 v).vpn2, s) =
      (entryAddress t₁ (stepIndex (.ofU64 v) 0), s) := by
    rw [show [1, 0].filter (0 ≤ ·) = [1, 0] from rfl, List.foldl_cons, List.foldl_cons,
      List.foldl_nil, run₂]
    exact run₁
  rw [Memory.map_eq, loop]

/-- One call of `map` makes at most two tables. -/
theorem map_zallocs_le_two (pages : Nat → Nat) (v : VirtualAddress) (p : PhysicalAddress)
    (bits : BitVec 64) (s : Vm) :
    (Memory.map pages root v p bits 0 s).zallocs ≤ s.zallocs + 2 := by
  have step : ∀ (vs : Nat × Vm) (i : Nat),
      (Memory.mapStep pages v vs i).2.zallocs ≤ vs.2.zallocs + 1 := by
    intro vs i
    rw [mapStep_zallocs]
    split <;> omega
  have first := step (entryAddress root v.vpn2, s) 1
  have second := step (Memory.mapStep pages v (entryAddress root v.vpn2, s) 1) 0
  exact Nat.le_trans second (Nat.add_le_add_right first 1)

/-- The 2 MiB regions that a call covers. -/
def Call.regions : Call → Nat
  | .map _ _ _ => 1
  | .mapRange vs ve _ _ => ((ve.toNat + 4095) / 4096 + 511) / 512 - vs.toNat / 4096 / 512
  | .identityMapRange start stop _ =>
    ((stop.toNat + 4095) / 4096 + 511) / 512 - start.toNat / 4096 / 512

/-- The loop of `map_range` makes two tables for every region it begins. -/
theorem Implements.mapRangeLoop_zallocs (impl : Implements src s g) {bits : BitVec 64}
    (low : bits.toNat < 256) (n : Nat) {v p : BitVec 64}
    (vtop : v.toNat + 4096 * n ≤ 2 ^ 39) (ptop : ∀ i < n, p.toNat + 4096 * i < 2 ^ 56)
    (begun : v.toNat / 4096 % 512 ≠ 0 → (g (v.toNat / 4096 - 1)).isSome)
    (room : s.zallocs + 2 * ((v.toNat / 4096 + n + 511) / 512 - (v.toNat / 4096 + 511) / 512) ≤
      src.limit) :
    (Memory.mapRangeLoop src.page root bits n v p s).zallocs ≤
      s.zallocs + 2 * ((v.toNat / 4096 + n + 511) / 512 - (v.toNat / 4096 + 511) / 512) := by
  induction n generalizing v p s g with
  | zero => exact Nat.le_add_right _ _
  | succ n ih =>
    have first := ptop 0 (by omega)
    have nextV : (v + .ofNat 64 PAGE_SIZE).toNat = v.toNat + 4096 := nextPage_toNat (by omega)
    have one : (Memory.map src.page root (.ofU64 v) (.ofU64 p) bits 0 s).zallocs ≤
        s.zallocs + 2 * ((v.toNat / 4096 + 512) / 512 - (v.toNat / 4096 + 511) / 512) := by
      by_cases start : v.toNat / 4096 % 512 = 0
      · have := @map_zallocs_le_two root src.page (.ofU64 v) (.ofU64 p) bits s
        omega
      · have := impl.map_zallocs (v := v) (q := v.toNat / 4096 - 1) (begun start) (by omega)
          (by omega) (.ofU64 p) bits
        omega
    have mapped := impl.map (v := v) (p := p) (by omega) (by omega) low (by omega)
    have begun' : (v + .ofNat 64 PAGE_SIZE).toNat / 4096 % 512 ≠ 0 →
        (overwrite (v.toNat / 4096) 1 (p.toNat / 4096) bits g
          ((v + .ofNat 64 PAGE_SIZE).toNat / 4096 - 1)).isSome := by
      intro _
      have here : (v + .ofNat 64 PAGE_SIZE).toNat / 4096 - 1 = v.toNat / 4096 := by omega
      rw [here, overwrite, if_pos (by omega)]
      rfl
    rw [Memory.mapRangeLoop_succ]
    refine Nat.le_trans (ih mapped ?_ (nextPage_below ptop) begun' ?_) ?_
    all_goals omega

/-- A call makes at most two tables for every region. -/
theorem Implements.run_zallocs (impl : Implements src s g) {c : Call} (ok : c.WithinBounds)
    (room : s.zallocs + 2 * c.regions ≤ src.limit) :
    (c.run src.page root s).zallocs ≤ s.zallocs + 2 * c.regions := by
  have range : ∀ {vs ve ps bits : BitVec 64}, (Call.mapRange vs ve ps bits).WithinBounds →
      s.zallocs + 2 * (Call.mapRange vs ve ps bits).regions ≤ src.limit →
      (Memory.mapRange src.page root vs ve ps bits s).zallocs ≤
        s.zallocs + 2 * (Call.mapRange vs ve ps bits).regions := by
    rintro vs ve ps bits ⟨ordered, vtop, low, ptop⟩ room
    have v := pageStart_toNat vs
    have p := pageStart_toNat ps
    have n := rangePages ordered vtop
    rw [Memory.mapRange_eq]
    unfold Call.regions at *
    dsimp only at room ⊢
    rw [n]
    cases count : (ve.toNat + 4095) / 4096 - vs.toNat / 4096 with
    | zero => exact Nat.le_add_right _ _
    | succ n =>
      have top : ∀ i < n + 1, (ps &&& ~~~Align.lowMask 12).toNat + 4096 * i < 2 ^ 56 := by
        intro i hi
        have := ptop (vs.toNat / 4096 + i) (by omega) (by omega)
        omega
      have first := top 0 (by omega)
      have nextV : ((vs &&& ~~~Align.lowMask 12) + .ofNat 64 PAGE_SIZE).toNat =
          vs.toNat / 4096 * 4096 + 4096 := by
        rw [nextPage_toNat (by omega), v]
      have one := @map_zallocs_le_two root src.page (.ofU64 (vs &&& ~~~Align.lowMask 12))
        (.ofU64 (ps &&& ~~~Align.lowMask 12)) bits s
      have mapped := impl.map (v := vs &&& ~~~Align.lowMask 12) (p := ps &&& ~~~Align.lowMask 12)
        (by omega) (by omega) low (by omega)
      rw [Memory.mapRangeLoop_succ]
      refine Nat.le_trans
        (mapped.mapRangeLoop_zallocs low n ?_ (nextPage_below top) (fun _ => ?_) ?_) ?_
      · omega
      · have here : ((vs &&& ~~~Align.lowMask 12) + .ofNat 64 PAGE_SIZE).toNat / 4096 - 1 =
            (vs &&& ~~~Align.lowMask 12).toNat / 4096 := by omega
        rw [here, overwrite, if_pos (by omega)]
        rfl
      · omega
      · omega
  cases c with
  | map v p bits =>
    exact map_zallocs_le_two src.page _ _ bits s
  | mapRange vs ve ps bits => exact range ok room
  | identityMapRange start stop bits =>
    obtain ⟨ordered, vtop, low⟩ := ok
    rw [Call.run_identityMapRange]
    exact range ⟨ordered, vtop, low, fun page h1 h2 => by omega⟩ room

/-- A sequence of calls makes at most two tables for every region. -/
theorem Implements.runCalls_zallocs (impl : Implements src s g) {calls : List Call}
    (ok : ∀ c ∈ calls, c.WithinBounds)
    (room : s.zallocs + 2 * (calls.map Call.regions).sum ≤ src.limit) :
    (Memory.runCalls src.page root calls s).zallocs ≤
      s.zallocs + 2 * (calls.map Call.regions).sum := by
  induction calls generalizing s g with
  | nil => exact Nat.le_add_right _ _
  | cons c calls ih =>
    rw [List.map_cons, List.sum_cons] at room ⊢
    have first := impl.run_zallocs (ok c List.mem_cons_self) (by omega)
    have mapped := impl.run (ok c List.mem_cons_self) (by omega)
    have rest := ih mapped (fun d mem => ok d (List.mem_cons_of_mem c mem)) (by omega)
    refine Nat.le_trans rest ?_
    omega

end Tables

/-! ## The system defaults -/

section SystemDefaults

variable (symbols : LinkerSymbols)

theorem heapEnd_eq : symbols.heapStart + symbols.heapSize = MEMORY_END := by
  unfold LinkerSymbols.heapSize
  rw [BitVec.add_comm, BitVec.sub_add_cancel]

theorem stackEnd_eq : symbols.stackEnd = symbols.heapStart := rfl

/-- A range in one GiB goes through one entry of the root. -/
theorem identityMapRange_within (gib : Nat) {start stop bits : BitVec 64}
    (ordered : start.toNat ≤ stop.toNat) (first : 0x40000000 * gib ≤ start.toNat)
    (last : stop.toNat ≤ 0x40000000 * gib + 0x40000000) (small : gib < 512) (low : bits.toNat < 256) :
    (Call.identityMapRange start stop bits).WithinBounds ∧
      ∀ q, ((Call.identityMapRange start stop bits).target q).isSome → q / 2 ^ 18 = gib := by
  refine ⟨⟨ordered, by omega, low⟩, fun q covered => ?_⟩
  simp only [Call.target] at covered
  split at covered
  case isTrue inside => omega
  case isFalse => cases covered

/-- The calls of `map_system_defaults` keep within bounds, and they go through two entries of the
root. -/
theorem systemDefaults_within : ∀ c ∈ systemDefaults symbols, c.WithinBounds ∧
    ∀ q, (c.target q).isSome → q / 2 ^ 18 = 0 ∨ q / 2 ^ 18 = 2 := by
  have order := symbols.order
  have heap := symbols.heapStart_toNat
  rw [MEMORY_START_toNat, MEMORY_END_toNat] at order
  have image : ∀ {start stop bits : BitVec 64}, start.toNat ≤ stop.toNat →
      0x86000000 ≤ start.toNat → stop.toNat ≤ 0x8e000000 → bits.toNat < 256 →
      (Call.identityMapRange start stop bits).WithinBounds ∧
        ∀ q, ((Call.identityMapRange start stop bits).target q).isSome →
          q / 2 ^ 18 = 0 ∨ q / 2 ^ 18 = 2 := by
    intro start stop bits ordered first last low
    obtain ⟨ok, through⟩ := identityMapRange_within 2 ordered (by omega) (by omega) (by omega) low
    exact ⟨ok, fun q covered => .inr (through q covered)⟩
  have devices : ∀ {start stop bits : BitVec 64}, start.toNat ≤ stop.toNat →
      stop.toNat ≤ 0x40000000 → bits.toNat < 256 →
      (Call.identityMapRange start stop bits).WithinBounds ∧
        ∀ q, ((Call.identityMapRange start stop bits).target q).isSome →
          q / 2 ^ 18 = 0 ∨ q / 2 ^ 18 = 2 := by
    intro start stop bits ordered last low
    obtain ⟨ok, through⟩ := identityMapRange_within 0 ordered (Nat.zero_le _) last (by omega) low
    exact ⟨ok, fun q covered => .inl (through q covered)⟩
  intro c mem
  simp only [systemDefaults, heapEnd_eq, stackEnd_eq, List.mem_cons, List.not_mem_nil, or_false] at mem
  have last : MEMORY_END.toNat = 0x8e000000 := rfl
  have stack : symbols.stackStart.toNat = symbols.bssEnd.toNat := rfl
  rcases mem with rfl | rfl | rfl | rfl | rfl | rfl | rfl | rfl | rfl | rfl | rfl | rfl
  case inr.inr.inr.inr.inr.inr.inl =>
    refine ⟨⟨by decide, by decide, by decide⟩, fun q covered => .inl ?_⟩
    have page : (0x10000000 : BitVec 64).toNat / 4096 = 0x10000 := rfl
    simp only [Call.target, page] at covered
    split at covered
    case isTrue here => omega
    case isFalse => cases covered
  case inr.inr.inr.inr.inr.inr.inr.inl => exact devices (by decide) (by decide) (by decide)
  case inr.inr.inr.inr.inr.inr.inr.inr.inl => exact devices (by decide) (by decide) (by decide)
  case inr.inr.inr.inr.inr.inr.inr.inr.inr.inl => exact devices (by decide) (by decide) (by decide)
  all_goals exact image (by omega) (by omega) (by omega) (by decide)

theorem lastEntry_isSome_iff {calls : List Call} (ok : ∀ c ∈ calls, c.WithinBounds) (page : Nat) :
    (lastEntry calls page).isSome ↔ ∃ c ∈ calls, (c.target page).isSome := by
  rw [← Option.isSome_map (f := fun e : PageTableEntry => e.ppn.toNat), lastEntry_ppn ok, lastTarget,
    List.isSome_findSome?, List.any_eq_true]
  simp only [List.mem_reverse]

/-- The first pages of both entries of the root are not mapped. -/
theorem systemDefaults_gap : ∀ c ∈ systemDefaults symbols, c.target 0 = none ∧
    c.target 0x80000 = none := by
  have order := symbols.order
  have heap := symbols.heapStart_toNat
  rw [MEMORY_START_toNat, MEMORY_END_toNat] at order
  have image : ∀ {start stop bits : BitVec 64}, 0x86000000 ≤ start.toNat →
      (Call.identityMapRange start stop bits).target 0 = none ∧
        (Call.identityMapRange start stop bits).target 0x80000 = none := by
    intro start stop bits first
    exact ⟨if_neg (by omega), if_neg (by omega)⟩
  intro c mem
  simp only [systemDefaults, heapEnd_eq, stackEnd_eq, List.mem_cons, List.not_mem_nil, or_false] at mem
  have stack : symbols.stackStart.toNat = symbols.bssEnd.toNat := rfl
  rcases mem with rfl | rfl | rfl | rfl | rfl | rfl | rfl | rfl | rfl | rfl | rfl | rfl
  case inr.inr.inr.inr.inr.inr.inl => exact ⟨by decide, by decide⟩
  case inr.inr.inr.inr.inr.inr.inr.inl => exact ⟨by decide, by decide⟩
  case inr.inr.inr.inr.inr.inr.inr.inr.inl => exact ⟨by decide, by decide⟩
  case inr.inr.inr.inr.inr.inr.inr.inr.inr.inl => exact ⟨by decide, by decide⟩
  all_goals exact image (by omega)

theorem sum_regions {c₁ c₂ c₃ c₄ c₅ c₆ c₇ c₈ c₉ c₁₀ c₁₁ c₁₂ : Call} :
    ([c₁, c₂, c₃, c₄, c₅, c₆, c₇, c₈, c₉, c₁₀, c₁₁, c₁₂].map Call.regions).sum =
      c₁.regions + (c₂.regions + (c₃.regions + (c₄.regions + (c₅.regions + (c₆.regions +
        (c₇.regions + (c₈.regions + (c₉.regions + (c₁₀.regions + (c₁₁.regions +
          c₁₂.regions)))))))))) := rfl

/-- They make at most 180 tables. -/
theorem systemDefaults_regions : ((systemDefaults symbols).map Call.regions).sum ≤ 90 := by
  have order := symbols.order
  have heap := symbols.heapStart_toNat
  rw [MEMORY_START_toNat, MEMORY_END_toNat] at order
  have range : ∀ {start stop bits : BitVec 64}, start.toNat ≤ stop.toNat →
      0x200000 * (Call.identityMapRange start stop bits).regions + start.toNat ≤
        stop.toNat + 0x400000 := by
    intro start stop bits ordered
    dsimp only [Call.regions]
    omega
  have last : MEMORY_END.toNat = 0x8e000000 := rfl
  have stack : symbols.stackStart.toNat = symbols.bssEnd.toNat := rfl
  have heapRegions := @range symbols.heapStart MEMORY_END READ_WRITE (by omega)
  have textRegions := @range symbols.textStart symbols.textEnd READ_EXECUTE (by omega)
  have rodataRegions := @range symbols.rodataStart symbols.rodataEnd READ_EXECUTE (by omega)
  have dataRegions := @range symbols.dataStart symbols.dataEnd READ_WRITE (by omega)
  have bssRegions := @range symbols.bssStart symbols.bssEnd READ_WRITE (by omega)
  have stackRegions := @range symbols.stackStart symbols.heapStart READ_WRITE (by omega)
  have switchingRegions := @range symbols.contextSwitchingStart symbols.contextSwitchingEnd
    READ_EXECUTE (by omega)
  have specialRegions := @range symbols.textSpecialStart symbols.textSpecialEnd READ_EXECUTE
    (by omega)
  have clint : (Call.identityMapRange 0x02000000 0x0200ffff READ_WRITE).regions = 1 := by decide
  have plic : (Call.identityMapRange 0x0c000000 0x0c002001 READ_WRITE).regions = 1 := by decide
  have contexts : (Call.identityMapRange 0x0c200000 0x0c208001 READ_WRITE).regions = 1 := by decide
  have uart : (Call.map 0x10000000 0x10000000 READ_WRITE).regions = 1 := rfl
  rw [systemDefaults, heapEnd_eq, stackEnd_eq, sum_regions, uart, clint, plic, contexts]
  omega

end SystemDefaults

/-! ## `init_memory` -/

section Init

variable {heapStart heapSize : BitVec 64} (bounds : HeapBounds heapStart heapSize)

include bounds

/-- `init` writes the descriptors and the manager. -/
theorem init_apply (m : Memory) {x : Nat}
    (noDescriptor : ¬ bytesAt heapStart.toNat (heapSize.toNat / 4096) x)
    (noManager : ¬ bytesAt (initialManager heapStart heapSize).allocStart 40 x) :
    (MemoryManager.init heapStart heapSize m).2 x = m x := by
  have start := init_allocStart bounds m
  have one := bounds.page_zero
  unfold MemoryManager.init at start ⊢
  simp only [MemoryManager.clearLoop] at start ⊢
  rw [start]
  unfold bytesAt at noDescriptor noManager
  rw [store64_apply_of_outside _ _ (by omega), MemoryManager.statusLoop_apply,
    if_neg (by unfold PAGE_SIZE; omega), store64_apply_of_outside _ _ (by omega), Page.setStatus,
    store8_apply_of_ne _ _ (by omega), store64_apply_of_outside _ _ (by omega),
    store64_apply_of_outside _ _ (by omega), store64_apply_of_outside _ _ (by omega)]

/-- `init` takes page 0. -/
theorem init_firstTaken (m : Memory) : FirstTaken (initialManager heapStart heapSize)
    (MemoryManager.init heapStart heapSize m).2 1 := by
  have inv := init_inv bounds m
  refine ⟨inv.manager, fun x small => ?_⟩
  have cell := inv.table.free_iff taken_ne_free last_ne_free small
  rw [Page.isFree, beq_iff_eq]
  refine cell.trans ⟨fun uncovered => ?_, ?_⟩
  · by_contra first
    have here : x < 0 + 1 := by omega
    exact uncovered ⟨⟨0, 1⟩, List.mem_cons_self, Nat.zero_le _, here⟩
  · rintro le ⟨b, mem, has⟩
    obtain rfl : b = ⟨0, 1⟩ := by simpa using mem
    unfold BlockTable.Block.Has at has
    simp only at has
    omega

end Init

section InitMemory

variable {symbols : LinkerSymbols} (enough : 256 ≤ symbols.heapSize.toNat / 4096)

theorem heapSize_toNat (symbols : LinkerSymbols) :
    symbols.heapSize.toNat = MEMORY_END.toNat - symbols.heapStart.toNat := by
  have order := symbols.order
  have heap := symbols.heapStart_toNat
  unfold LinkerSymbols.heapSize
  exact BitVec.toNat_sub_of_le (BitVec.le_def.2 (by omega))

include enough in
theorem heapBounds : HeapBounds symbols.heapStart symbols.heapSize := by
  have size := heapSize_toNat symbols
  have heap := symbols.heapStart_toNat
  have order := symbols.order
  rw [MEMORY_END_toNat] at order size
  constructor <;> omega

/-- The manager that `init_memory` sets up. -/
@[irreducible] def bootManager (symbols : LinkerSymbols) : MemoryManager :=
  initialManager symbols.heapStart symbols.heapSize

/-- The page that `alloc(1)` gives for the root. -/
def firstTable (symbols : LinkerSymbols) : Nat := (bootManager symbols).allocStart + PAGE_SIZE

theorem bootManager_eq (symbols : LinkerSymbols) :
    bootManager symbols = initialManager symbols.heapStart symbols.heapSize := by
  delta bootManager
  rfl

include enough in
theorem bootManager_layout : (bootManager symbols).Layout := by
  rw [bootManager_eq]
  exact initialManager_layout (heapBounds enough)

theorem bootManager_addressable (symbols : LinkerSymbols) : (bootManager symbols).allocStart +
    PAGE_SIZE * (bootManager symbols).numberOfPages ≤ 2 ^ 56 := by
  have size := heapSize_toNat symbols
  have heap := symbols.heapStart_toNat
  have order := symbols.order
  rw [MEMORY_END_toNat] at order size
  simp only [bootManager_eq, initialManager, PAGE_SIZE]
  omega

/-- What was in the page of the root before. -/
def staleEntry (symbols : LinkerSymbols) (m : Memory) (i : BitVec 9) : PageTableEntry :=
  loadEntry m (entryAddress (firstTable symbols) i)

/-- The entries of the root that the system defaults go through. -/
def DefaultIndex (i : BitVec 9) : Prop := i = 0 ∨ i = 2
deriving Decidable

open KernelMemoryAllocator in
/-- The last steps of `init_memory` leave the tables alone. -/
theorem KernelMemoryAllocator.init_apply {mm : MemoryManager} (layout : mm.Layout) {m : Memory}
    {n : Nat} (taken : FirstTaken mm m (2 + n)) (room : 2 + n + 65 ≤ mm.numberOfPages) {x : Nat}
    (tables : bytesAt (mm.allocStart + PAGE_SIZE) (PAGE_SIZE * (n + 1)) x) :
    KernelMemoryAllocator.init (MemoryManager.zalloc m mm.allocStart 1).2 mm.allocStart
      (MemoryManager.zalloc m mm.allocStart 1).1 x = m x := by
  have front := layout.descriptors
  have first := layout.first
  unfold bytesAt PAGE_SIZE at tables
  have noDescriptor : ¬ bytesAt mm.firstPage mm.numberOfPages x := by
    unfold bytesAt
    omega
  obtain ⟨m₁, run₁, taken₁, outside₁⟩ := @FirstTaken.zalloc mm m (2 + n) 1 taken layout
    (Nat.le_refl 1) (by omega) (by omega)
  obtain ⟨m₂, run₂, -, outside₂⟩ := @FirstTaken.zalloc mm _ (2 + n + 1) ALLOCATION_SIZE taken₁ layout
    (by decide) (by omega) (by unfold ALLOCATION_SIZE; omega)
  rw [run₁]
  dsimp only [KernelMemoryAllocator.init, construct]
  rw [run₂]
  dsimp only [AllocHeader.setSize, AllocHeader.setFree, AllocHeader.store]
  unfold PAGE_SIZE
  rw [store64_apply_of_outside _ _ (by omega), store64_apply_of_outside _ _ (by omega),
    store64_apply_of_outside _ _ (by omega), store64_apply_of_outside _ _ (by omega),
    store64_apply_of_outside _ _ (by omega), clear_apply_outside _ (by omega),
    outside₂ x noDescriptor, clear_apply_outside _ (by unfold PAGE_SIZE; omega),
    outside₁ x noDescriptor]

/-- The tables that `init_memory` leaves, by those that the calls make on a clear root. -/
structure BootTables (symbols : LinkerSymbols) (page : Nat → Nat) (m : Memory) (s : Vm) : Prop where
  tables : ∀ n < s.zallocs, ∀ i, loadEntry (initMemory symbols m).2 (entryAddress (page n) i) =
    loadEntry s.memory (entryAddress (page n) i)
  root : ∀ i, RootEntry (staleEntry symbols m i)
    (loadEntry s.memory (entryAddress (firstTable symbols) i))
    (loadEntry (initMemory symbols m).2 (entryAddress (firstTable symbols) i))
  unused : ∀ i, ¬ DefaultIndex i →
    loadEntry s.memory (entryAddress (firstTable symbols) i) = .setValue 0 ∧
      loadEntry (initMemory symbols m).2 (entryAddress (firstTable symbols) i) =
        staleEntry symbols m i

include enough in
/-- The root is the page after that of the manager, with the entries that were there. -/
theorem init_alloc_root (layout : (bootManager symbols).Layout) (m : Memory) :
    (MemoryManager.init symbols.heapStart symbols.heapSize m).1 = (bootManager symbols).allocStart ∧
      ∃ m', MemoryManager.alloc (MemoryManager.init symbols.heapStart symbols.heapSize m).2
          (bootManager symbols).allocStart 1 = (firstTable symbols, m') ∧
        FirstTaken (bootManager symbols) m' 2 ∧
        ∀ i, loadEntry m' (entryAddress (firstTable symbols) i) = staleEntry symbols m i := by
  have bounds := heapBounds enough
  have front := layout.descriptors
  have first := layout.first
  have number : (bootManager symbols).numberOfPages = symbols.heapSize.toNat / 4096 := by
    rw [bootManager_eq]
    rfl
  have taken := init_firstTaken bounds m
  have unwritten := fun x => init_apply bounds m (x := x)
  have start : symbols.heapStart.toNat = (bootManager symbols).firstPage := by
    rw [bootManager_eq]
    rfl
  rw [← bootManager_eq] at taken unwritten
  rw [start, ← number] at unwritten
  obtain ⟨m', run, taken', outside⟩ := taken.alloc layout (Nat.le_refl 1) (by omega)
  rw [Nat.mul_one] at run
  refine ⟨?_, m', run, taken', fun i => loadEntry_congr fun x inside => ?_⟩
  · rw [bootManager_eq]
    exact init_allocStart bounds m
  · unfold bytesAt entryAddress firstTable PAGE_SIZE at inside
    have noDescriptor : ¬ bytesAt (bootManager symbols).firstPage
        (bootManager symbols).numberOfPages x := by
      unfold bytesAt
      omega
    have noManager : ¬ bytesAt (bootManager symbols).allocStart 40 x := by
      unfold bytesAt
      omega
    exact (outside x noDescriptor).trans (unwritten x noDescriptor noManager)

/-- What comes after the calls leaves the root and the tables alone. -/
theorem BootTables.of_simulates {m m' : Memory} {s : Vm} (layout : (bootManager symbols).Layout)
    (addressable : (bootManager symbols).allocStart +
      PAGE_SIZE * (bootManager symbols).numberOfPages ≤ 2 ^ 56)
    (sim : Simulates (bootManager symbols) DefaultIndex (staleEntry symbols m) m' s)
    (kept : ∀ x, bytesAt (firstTable symbols) (PAGE_SIZE * (s.zallocs + 1)) x →
      (initMemory symbols m).2 x = m' x) :
    BootTables symbols (heapPages layout addressable).page m s := by
  have root : ∀ i, loadEntry (initMemory symbols m).2 (entryAddress (firstTable symbols) i) =
      loadEntry m' (entryAddress (firstTable symbols) i) := by
    refine fun i => loadEntry_congr fun x inside => kept x ?_
    have small := i.isLt
    unfold bytesAt entryAddress at inside
    unfold bytesAt PAGE_SIZE
    omega
  refine ⟨fun n less i => ?_, fun i => ?_, fun i not => ?_⟩
  · have page : (heapPages layout addressable).page n =
        (bootManager symbols).allocStart + 4096 * (2 + n) := rfl
    have small := i.isLt
    refine loadEntry_congr fun x inside => (kept x ?_).trans (sim.tables x ?_).symm
    all_goals
      rw [page] at inside
      unfold bytesAt entryAddress at inside
    · unfold bytesAt firstTable PAGE_SIZE
      omega
    · unfold PAGE_SIZE
      omega
  · rw [root]
    exact sim.root i
  · rw [root]
    exact sim.unused i not

theorem initMemory_spec (layout : (bootManager symbols).Layout)
    (addressable : (bootManager symbols).allocStart +
      PAGE_SIZE * (bootManager symbols).numberOfPages ≤ 2 ^ 56)
    (enough : 256 ≤ symbols.heapSize.toNat / 4096) {m : Memory}
    (vacant : ∀ i, DefaultIndex i → (staleEntry symbols m i).Vacant) :
    (initMemory symbols m).1 = firstTable symbols ∧ ∃ s,
      Implements (heapPages layout addressable) s (lastEntry (systemDefaults symbols)) ∧
      BootTables symbols (heapPages layout addressable).page m s := by
  obtain ⟨manager, m₂, allocated, taken, stale⟩ := init_alloc_root enough layout m
  have number : (bootManager symbols).numberOfPages = symbols.heapSize.toNat / 4096 := by
    rw [bootManager_eq]
    rfl
  -- the same calls on a clear root
  have clear : Implements (heapPages layout addressable)
      ⟨ByteMemory.clear m₂ (firstTable symbols) PAGE_SIZE, 0⟩ fun _ => none :=
    implements_init _ fun x low high => clear_apply_inside _ low high
  have calls := systemDefaults_within symbols
  have ok : ∀ c ∈ systemDefaults symbols, c.WithinBounds := fun c mem => (calls c mem).1
  have regions := systemDefaults_regions symbols
  have limit : (heapPages layout addressable).limit = (bootManager symbols).numberOfPages - 2 := rfl
  have count := clear.runCalls_zallocs ok (by dsimp only; omega)
  dsimp only at count
  have start : Simulates (bootManager symbols) DefaultIndex (staleEntry symbols m) m₂
      ⟨ByteMemory.clear m₂ (firstTable symbols) PAGE_SIZE, 0⟩ := .start taken stale
  have sim := start.runCalls layout addressable clear vacant ok
    (fun c mem q covered => ((calls c mem).2 q covered).imp (congrArg (BitVec.ofNat 9))
      (congrArg (BitVec.ofNat 9))) (by omega)
  have impl := clear.runCalls ok (by omega)
  have fold : MemoryManager.mapSystemDefaults (bootManager symbols).allocStart symbols
      (firstTable symbols) m₂ = (systemDefaults symbols).foldl (MemoryManager.run
        (bootManager symbols).allocStart ((bootManager symbols).allocStart + PAGE_SIZE)) m₂ := by
    rw [MemoryManager.mapSystemDefaults, firstTable]
  rw [← fold] at sim
  generalize Memory.runCalls (heapPages layout addressable).page
    ((bootManager symbols).allocStart + PAGE_SIZE) (systemDefaults symbols)
    ⟨ByteMemory.clear m₂ (firstTable symbols) PAGE_SIZE, 0⟩ = s at sim impl count
  generalize mapped : MemoryManager.mapSystemDefaults (bootManager symbols).allocStart symbols
    (firstTable symbols) m₂ = m₃ at sim
  have result : initMemory symbols m = (firstTable symbols, KernelMemoryAllocator.init
      (MemoryManager.zalloc m₃ (bootManager symbols).allocStart 1).2
      (bootManager symbols).allocStart
      (MemoryManager.zalloc m₃ (bootManager symbols).allocStart 1).1) := by
    unfold initMemory
    dsimp only
    rw [manager, allocated]
    dsimp only
    rw [mapped]
  refine ⟨by rw [result], s, impl, .of_simulates layout addressable sim fun x inside => ?_⟩
  rw [result]
  exact KernelMemoryAllocator.init_apply layout sim.taken (by omega) inside

include enough in
/-- Addresses that go through an entry of the root that led to no page have the entry of the system
defaults, where these go through it. -/
theorem initMemory_leafEntry {m : Memory}
    (vacant : ∀ i, DefaultIndex i → (staleEntry symbols m i).Vacant) {a : BitVec 64}
    (through : DefaultIndex (VirtualAddress.ofU64 a).vpn2)
    (pointer : (staleEntry symbols m (VirtualAddress.ofU64 a).vpn2).isLeaf = false) :
    leafEntry (initMemory symbols m).2 (initMemory symbols m).1 (.ofU64 a) =
      lastEntry (systemDefaults symbols) (vpn a) := by
  obtain ⟨root, s, impl, boot⟩ := initMemory_spec (bootManager_layout enough)
    (bootManager_addressable symbols) enough vacant
  have entry := boot.root (VirtualAddress.ofU64 a).vpn2
  rw [root, ← (impl.leafEntry a).1]
  obtain ⟨t, rep, -⟩ := impl
  exact rep.leafEntry_congr (entry.isValid_eq (vacant _ through)) (entry.isLeaf_eq.trans pointer)
    (entry.getPpn_eq (vacant _ through)) boot.tables

include enough in
/-- The system defaults leave the other entries of the root as they were. -/
theorem initMemory_unused {m : Memory}
    (vacant : ∀ i, DefaultIndex i → (staleEntry symbols m i).Vacant) {a : BitVec 64}
    (unused : ¬ DefaultIndex (VirtualAddress.ofU64 a).vpn2) :
    lastEntry (systemDefaults symbols) (vpn a) = none ∧
      loadEntry (initMemory symbols m).2
          (entryAddress (initMemory symbols m).1 (VirtualAddress.ofU64 a).vpn2) =
        staleEntry symbols m (VirtualAddress.ofU64 a).vpn2 := by
  obtain ⟨root, s, impl, boot⟩ := initMemory_spec (bootManager_layout enough)
    (bootManager_addressable symbols) enough vacant
  obtain ⟨blank, kept⟩ := boot.unused _ unused
  rw [root, ← (impl.leafEntry a).1]
  refine ⟨?_, kept⟩
  have invalid : (PageTableEntry.setValue 0).isValid = false := by decide
  rw [← firstTable]
  unfold leafEntry
  dsimp only
  rw [blank, invalid]
  rfl

/-- The first page table translates exactly what `map_system_defaults` maps, with its bits. -/
def MapsDefaults (symbols : LinkerSymbols) (m : Memory) : Prop :=
  ∀ a : BitVec 64, leafEntry (initMemory symbols m).2 (initMemory symbols m).1 (.ofU64 a) =
    lastEntry (systemDefaults symbols) (vpn a)

/-- The page of the root is as good as cleared: tables can be hung in the entries that the system
defaults go through, which do not become leaves, and the others are not valid. -/
structure RootClear (symbols : LinkerSymbols) (m : Memory) : Prop where
  vacant : ∀ i, DefaultIndex i → (staleEntry symbols m i).Vacant
  pointer : ∀ i, DefaultIndex i → (staleEntry symbols m i).isLeaf = false
  unused : ∀ i, ¬ DefaultIndex i → (staleEntry symbols m i).isValid = false

include enough in
/-- **The first page table holds the system defaults and nothing else** when the page that
`alloc(1)` gives for its root was as good as clear. -/
theorem initMemory_mapsDefaults {m : Memory} (clear : RootClear symbols m) :
    MapsDefaults symbols m := by
  intro a
  by_cases through : DefaultIndex (VirtualAddress.ofU64 a).vpn2
  · exact initMemory_leafEntry enough clear.vacant through (clear.pointer _ through)
  · obtain ⟨nothing, kept⟩ := initMemory_unused enough clear.vacant through
    rw [nothing, leafEntry]
    dsimp only
    rw [kept, clear.unused _ through]
    rfl

include enough in
/-- A valid leaf that was in another entry of the root stays. -/
theorem not_mapsDefaults_of_stale {m : Memory}
    (vacant : ∀ i, DefaultIndex i → (staleEntry symbols m i).Vacant)
    {a : BitVec 64} (unused : ¬ DefaultIndex (VirtualAddress.ofU64 a).vpn2)
    (valid : (staleEntry symbols m (VirtualAddress.ofU64 a).vpn2).isValid)
    (leaf : (staleEntry symbols m (VirtualAddress.ofU64 a).vpn2).isLeaf) :
    ¬ MapsDefaults symbols m := by
  intro maps
  obtain ⟨nothing, kept⟩ := initMemory_unused enough vacant unused
  have same := maps a
  rw [nothing, leafEntry] at same
  dsimp only at same
  rw [kept, valid, leaf] at same
  cases same

include enough in
/-- A leaf that becomes valid in an entry of the root that the system defaults go through maps all
addresses that go through it. -/
theorem not_mapsDefaults_of_leaf {m : Memory}
    (vacant : ∀ i, DefaultIndex i → (staleEntry symbols m i).Vacant) {i : BitVec 9}
    (through : DefaultIndex i) (leaf : (staleEntry symbols m i).isLeaf) : ¬ MapsDefaults symbols m := by
  intro maps
  have ok : ∀ c ∈ systemDefaults symbols, c.WithinBounds := fun c mem =>
    (systemDefaults_within symbols c mem).1
  have isSome := lastEntry_isSome_iff ok
  have gap := systemDefaults_gap symbols
  have order := symbols.order
  have heap := symbols.heapStart_toNat
  have size := heapSize_toNat symbols
  rw [MEMORY_START_toNat, MEMORY_END_toNat] at order
  rw [MEMORY_END_toNat] at size
  -- one address that goes through the entry is mapped and another is not
  obtain ⟨a, b, throughA, throughB, mapped, unmapped⟩ : ∃ a b : BitVec 64,
      (VirtualAddress.ofU64 a).vpn2 = i ∧ (VirtualAddress.ofU64 b).vpn2 = i ∧
      (lastEntry (systemDefaults symbols) (vpn a)).isSome ∧
      ¬ (lastEntry (systemDefaults symbols) (vpn b)).isSome := by
    rcases through with rfl | rfl
    · refine ⟨0x10000000, 0, by decide, by decide, (isSome _).2 ⟨.map 0x10000000 0x10000000 READ_WRITE,
        by simp [systemDefaults], by decide⟩, fun found => ?_⟩
      obtain ⟨c, mem, covered⟩ := (isSome _).1 found
      rw [show vpn 0 = 0 from rfl, (gap c mem).1] at covered
      cases covered
    · refine ⟨symbols.heapStart, 0x80000000, ?_, by decide, (isSome _).2 ⟨.identityMapRange
        symbols.heapStart (symbols.heapStart + symbols.heapSize) READ_WRITE,
        by simp [systemDefaults], ?_⟩, fun found => ?_⟩
      · rw [vpn2_eq]
        apply BitVec.eq_of_toNat_eq
        rw [BitVec.toNat_ofNat, show (2 : BitVec 9).toNat = 2 from rfl]
        omega
      · have last : MEMORY_END.toNat = 0x8e000000 := rfl
        rw [heapEnd_eq, Call.target, vpn, if_pos (by omega)]
        rfl
      · obtain ⟨c, mem, covered⟩ := (isSome _).1 found
        rw [show vpn 0x80000000 = 0x80000 from rfl, (gap c mem).2] at covered
        cases covered
  obtain ⟨root, s, -, boot⟩ := initMemory_spec (bootManager_layout enough)
    (bootManager_addressable symbols) enough vacant
  have isLeaf := (boot.root i).isLeaf_eq.trans leaf
  rw [← maps a, root, leafEntry, throughA] at mapped
  rw [← maps b, root, leafEntry, throughB] at unmapped
  by_cases valid : (loadEntry (initMemory symbols m).2 (entryAddress (firstTable symbols) i)).isValid
  · simp only [valid, isLeaf, Bool.not_true, Bool.false_eq_true, if_false, if_true] at unmapped
    exact unmapped rfl
  · simp [valid] at mapped

end InitMemory

/-- An image of one page for each section. -/
def smallImage : LinkerSymbols where
  textStart := 0x86000000
  textEnd := 0x86001000
  contextSwitchingStart := 0x86001000
  contextSwitchingEnd := 0x86002000
  textSpecialStart := 0x86002000
  textSpecialEnd := 0x86003000
  rodataStart := 0x86003000
  rodataEnd := 0x86004000
  dataStart := 0x86004000
  dataEnd := 0x86005000
  bssStart := 0x86005000
  bssEnd := 0x86006000
  text := by decide
  contextSwitching := by decide
  textSpecial := by decide
  rodata := by decide
  data := by decide
  bss := by decide
  fits := by decide

/-- Memory that is clear but for one word in the page of the root. -/
def staleMemory (i : BitVec 9) (word : BitVec 64) : Memory :=
  store64 (fun _ => 0) (entryAddress (firstTable smallImage) i) word

theorem staleEntry_stored (i : BitVec 9) (word : BitVec 64) :
    staleEntry smallImage (staleMemory i word) i = .setValue word :=
  congrArg PageTableEntry.setValue (load64_store64 _ _ _)

theorem staleEntry_blank {i j : BitVec 9} (other : j ≠ i) (word : BitVec 64) :
    staleEntry smallImage (staleMemory i word) j = .setValue 0 := by
  have apart : entryAddress (firstTable smallImage) j + 8 ≤ entryAddress (firstTable smallImage) i ∨
      entryAddress (firstTable smallImage) i + 8 ≤ entryAddress (firstTable smallImage) j := by
    have ne : j.toNat ≠ i.toNat := fun same => other (BitVec.eq_of_toNat_eq same)
    unfold entryAddress
    omega
  exact congrArg PageTableEntry.setValue
    ((load64_store64_of_disjoint _ _ apart).trans (load64_eq_zero fun _ _ _ => rfl))

/-- The number of a page was left in the first entry. -/
theorem initMemory_mapsDefaults_ppn : MapsDefaults smallImage (staleMemory 0 0x400) := by
  have blank : (PageTableEntry.setValue 0).Vacant ∧ (PageTableEntry.setValue 0).isLeaf = false :=
    ⟨⟨by decide, by decide, by decide⟩, by decide⟩
  have left : (PageTableEntry.setValue 0x400).Vacant ∧
      (PageTableEntry.setValue 0x400).isLeaf = false :=
    ⟨⟨by decide, by decide, by decide⟩, by decide⟩
  have both : ∀ i, (staleEntry smallImage (staleMemory 0 0x400) i).Vacant ∧
      (staleEntry smallImage (staleMemory 0 0x400) i).isLeaf = false := by
    intro i
    by_cases first : i = 0
    · rw [first, staleEntry_stored]
      exact left
    · rw [staleEntry_blank first]
      exact blank
  exact initMemory_mapsDefaults (by decide)
    ⟨fun i _ => (both i).1, fun i _ => (both i).2, fun i _ => (both i).1.invalid⟩

/-- The second entry of the root holds a superpage of an earlier use. -/
theorem not_mapsDefaults_superpage : ¬ MapsDefaults smallImage (staleMemory 1 0xf) := by
  have page : (VirtualAddress.ofU64 0x40000000).vpn2 = 1 := by decide
  have blank : (PageTableEntry.setValue 0).Vacant := ⟨by decide, by decide, by decide⟩
  refine not_mapsDefaults_of_stale (a := 0x40000000) (by decide) ?_ ?_ ?_ ?_
  · intro i through
    have other : i ≠ 1 := by
      rintro rfl
      exact absurd through (by decide)
    rw [staleEntry_blank other]
    exact blank
  · rw [page]
    decide
  all_goals
    rw [page, staleEntry_stored]
    decide

end MatteOS.Memory

