import Mathlib.Data.List.Chain
import MatteOS.Memory.Verify.KernelHeapRuns

/-!
# What one merging pass leaves

`coalesce` goes over the chunks once and steps over a chunk it has just merged. Where no
two free chunks were neighbours before a `kfree`, none are afterwards, unless the freed
chunk lay between two free ones (`coalesced_mergePass_iff`): then the three of them
become two.
-/

namespace MatteOS.Memory

open ByteMemory Tiling KernelMemoryAllocator

/-! ## Chunks -/

/-- No two neighbours are free. -/
def Coalesced (cs : List AllocHeader) : Prop := cs.IsChain fun c d => ¬ (c.isFree ∧ d.isFree)

section Chunks

variable {l r : List AllocHeader} {b c d : AllocHeader}

@[simp] theorem isFree_freed (c : AllocHeader) : (freed c).isFree = true := rfl

@[simp] theorem isFree_merge (c d : AllocHeader) : (merge c d).isFree = c.isFree := rfl

theorem mergePass_cons_cons (apart : ¬ (c.isFree ∧ d.isFree)) (cs : List AllocHeader) :
    mergePass (c :: d :: cs) = c :: mergePass (d :: cs) := by
  rw [mergePass, if_neg (by simpa using apart)]

/-- Chunks without free neighbours are passed by. -/
theorem mergePass_append (coalesced : Coalesced (l ++ [c])) (r : List AllocHeader) :
    mergePass (l ++ c :: r) = l ++ mergePass (c :: r) := by
  induction l with
  | nil => rfl
  | cons b l ih =>
    cases l with
    | nil => exact mergePass_cons_cons (List.isChain_cons_cons.1 coalesced).1 r
    | cons d l =>
      obtain ⟨apart, rest⟩ := List.isChain_cons_cons.1 coalesced
      have tail := ih rest
      rw [List.cons_append, List.cons_append, mergePass_cons_cons apart]
      exact congrArg (b :: ·) tail

theorem mergePass_of_coalesced {cs : List AllocHeader} (coalesced : Coalesced cs) :
    mergePass cs = cs := by
  induction cs with
  | nil => rfl
  | cons c cs ih =>
    cases cs with
    | nil => rfl
    | cons d cs =>
      obtain ⟨apart, rest⟩ := List.isChain_cons_cons.1 coalesced
      rw [mergePass_cons_cons apart, ih rest]

theorem coalesced_cons :
    Coalesced (c :: r) ↔ (∀ d ∈ r.head?, ¬ (c.isFree ∧ d.isFree)) ∧ Coalesced r :=
  List.isChain_cons

theorem coalesced_append_cons : Coalesced (l ++ c :: r) ↔
    Coalesced l ∧ Coalesced (c :: r) ∧ ∀ b ∈ l.getLast?, ¬ (b.isFree ∧ c.isFree) := by
  unfold Coalesced
  rw [List.isChain_append]
  simp only [List.head?_cons, Option.mem_some_iff, forall_eq']

/-- **One pass after freeing one chunk** leaves no free neighbours, unless the freed chunk had
two of them. -/
theorem coalesced_mergePass_iff (coalesced : Coalesced (l ++ c :: r)) :
    Coalesced (mergePass (l ++ freed c :: r)) ↔
      ¬ ((∃ b ∈ l.getLast?, b.isFree) ∧ ∃ d ∈ r.head?, d.isFree) := by
  obtain ⟨front, back, -⟩ := coalesced_append_cons.1 coalesced
  have rest := (coalesced_cons.1 back).2
  by_cases before : ∃ b ∈ l.getLast?, b.isFree
  · -- the chunk is merged into the one before it, and the pass goes on behind them
    obtain ⟨b, last, free⟩ := before
    obtain ⟨l', rfl⟩ : ∃ l', l = l' ++ [b] := List.getLast?_eq_some_iff.1 last
    obtain ⟨front', -, apart⟩ := coalesced_append_cons.1 front
    have pass : mergePass (l' ++ [b] ++ freed c :: r) = l' ++ merge b (freed c) :: r := by
      rw [List.append_assoc, List.singleton_append, mergePass_append front, mergePass, if_pos
        (by simp [free]), mergePass_of_coalesced rest]
    rw [pass, coalesced_append_cons, coalesced_cons]
    simp only [isFree_merge, free, true_and, front', rest, and_true]
    constructor
    · rintro ⟨alone, -⟩ ⟨-, d, head, freeHead⟩
      exact alone d head freeHead
    · intro alone
      refine ⟨fun d head freeHead => alone ⟨⟨b, last, free⟩, d, head, freeHead⟩, fun e mem => ?_⟩
      simpa [free] using apart e mem
  · have joins : ∀ x : AllocHeader, ∀ b ∈ l.getLast?, ¬ (b.isFree ∧ x.isFree) :=
      fun x b mem free => before ⟨b, mem, free.1⟩
    have alone : Coalesced (l ++ [freed c]) :=
      coalesced_append_cons.2 ⟨front, List.isChain_singleton _, joins _⟩
    refine iff_of_true ?_ fun both => before both.1
    rw [mergePass_append alone]
    cases r with
    | nil => exact alone
    | cons d r =>
      obtain ⟨apart, rest'⟩ := coalesced_cons.1 rest
      by_cases free : d.isFree
      · rw [mergePass, if_pos (by simp [free]), mergePass_of_coalesced rest']
        refine coalesced_append_cons.2 ⟨front, coalesced_cons.2 ⟨fun e mem both => ?_, rest'⟩,
          joins _⟩
        exact apart e mem ⟨free, both.2⟩
      · rw [mergePass_cons_cons (by simp [free]), mergePass_of_coalesced rest]
        refine coalesced_append_cons.2 ⟨front, coalesced_cons.2 ⟨fun e mem both => ?_, rest⟩,
          joins _⟩
        obtain rfl : d = e := by simpa using mem
        exact free both.2

/-- The rest of a chunk that is split has a taken chunk behind it. -/
theorem coalesced_splitChunk (coalesced : Coalesced (l ++ c :: r)) (free : c.isFree) (size : Nat) :
    Coalesced (l ++ splitChunk size c ++ r) := by
  obtain ⟨front, back, apart⟩ := coalesced_append_cons.1 coalesced
  obtain ⟨next, rest⟩ := coalesced_cons.1 back
  have taken : ∀ n, ¬ (AllocHeader.mk n 1).isFree := fun _ => Bool.false_ne_true
  unfold splitChunk
  split
  · simp only [List.append_assoc, List.cons_append, List.nil_append]
    refine coalesced_append_cons.2 ⟨front, coalesced_cons.2 ⟨?_, coalesced_cons.2 ⟨?_, rest⟩⟩, ?_⟩
    · exact fun d _ both => taken _ both.1
    · exact fun d head both => next d head ⟨free, both.2⟩
    · exact fun b _ both => taken _ both.2
  · simp only [List.append_assoc, List.cons_append, List.nil_append]
    refine coalesced_append_cons.2 ⟨front, coalesced_cons.2 ⟨?_, rest⟩, ?_⟩
    · exact fun d _ both => taken _ both.1
    · exact fun b _ both => taken _ both.2

end Chunks

/-! ## The arena -/

/-- No two physically adjacent chunks of the arena are free. -/
def NoAdjacentFree (k : KernelMemoryAllocator) (m : Memory) : Prop :=
  ∃ cs, Walk k m cs ∧ Coalesced cs

/-- The chunk with the payload at `ptr` lies between two free chunks. -/
def BetweenFree (k : KernelMemoryAllocator) (m : Memory) (ptr : Nat) : Prop :=
  ∃ l b c d r, Walk k m (l ++ b :: c :: d :: r) ∧
    ptr = k.head + total AllocHeader.getSize (l ++ [b]) + 8 ∧ b.isFree ∧ d.isFree

section Arena

variable {k : KernelMemoryAllocator} {m : Memory} {l r : List AllocHeader} {c : AllocHeader}

/-- The chunks before an address are the same in every cut. -/
theorem Walk.eq_of_total (walk : Walk k m (l ++ c :: r)) {l' r' : List AllocHeader}
    {c' : AllocHeader} (e : l ++ c :: r = l' ++ c' :: r')
    (same : total AllocHeader.getSize l = total AllocHeader.getSize l') : l = l' := by
  have size : 0 < c.getSize := walk.pos c (by simp)
  have size' : 0 < c'.getSize := walk.pos c' (by rw [e]; simp)
  rcases List.append_eq_append_iff.1 e with ⟨a, rfl, left⟩ | ⟨a, rfl, right⟩
  · cases a with
    | nil => simp
    | cons b a =>
      obtain ⟨rfl, -⟩ := List.cons_eq_cons.1 left
      rw [total_append, total_cons] at same
      omega
  · cases a with
    | nil => simp
    | cons b a =>
      obtain ⟨rfl, -⟩ := List.cons_eq_cons.1 right
      rw [total_append, total_cons] at same
      omega

theorem noAdjacentFree_iff {cs : List AllocHeader} (walk : Walk k m cs) :
    NoAdjacentFree k m ↔ Coalesced cs := by
  constructor
  · rintro ⟨cs', walk', coalesced⟩
    rwa [walk.unique walk']
  · exact fun coalesced => ⟨cs, walk, coalesced⟩

theorem betweenFree_iff (walk : Walk k m (l ++ c :: r)) :
    BetweenFree k m (k.head + total AllocHeader.getSize l + 8) ↔
      (∃ b ∈ l.getLast?, b.isFree) ∧ ∃ d ∈ r.head?, d.isFree := by
  constructor
  · rintro ⟨l', b, c', d, r', walk', address, freeB, freeD⟩
    have e : l ++ c :: r = (l' ++ [b]) ++ c' :: d :: r' := by
      rw [walk.unique walk', List.append_assoc, List.singleton_append]
    obtain rfl := walk.eq_of_total e (by omega)
    obtain ⟨-, rfl⟩ := List.cons_eq_cons.1 (List.append_cancel_left e)
    exact ⟨⟨b, by simp, freeB⟩, d, by simp, freeD⟩
  · rintro ⟨⟨b, last, freeB⟩, d, head, freeD⟩
    obtain ⟨l', rfl⟩ : ∃ l', l = l' ++ [b] := List.getLast?_eq_some_iff.1 last
    obtain ⟨r', rfl⟩ : ∃ r', r = d :: r' := List.head?_eq_some_iff.1 head
    exact ⟨l', b, c, d, r', by simpa using walk, rfl, freeB, freeD⟩

end Arena

/-! ## Runs -/

namespace KernelHeap.Inv

variable {k : KernelMemoryAllocator} {s : KernelHeap} {fuel : Nat}

/-- `kfree` of a live pointer, chunk by chunk. -/
theorem kfree_chunks {l r : List AllocHeader} {c : AllocHeader} (inv : s.Inv k (l ++ c :: r))
    (arena : k.Arena) {sz : BitVec 64}
    (hb : (k.head + total AllocHeader.getSize l + 8, sz) ∈ s.live) (enough : k.totalSize < fuel) :
    ∃ m, k.kfree fuel s.memory (k.head + total AllocHeader.getSize l + 8) = some m ∧
      KernelHeap.Inv k
        { memory := m
          live := s.live.eraseP (·.1 == k.head + total AllocHeader.getSize l + 8) }
        (mergePass (l ++ freed c :: r)) := by
  obtain ⟨m, run, walk, -⟩ := kfree_walk arena inv.walk enough
  obtain ⟨m', cs', run', inv', -⟩ := inv.kfree arena hb enough
  obtain rfl := Option.some.inj (run.symm.trans run')
  obtain rfl := walk.unique inv'.walk
  exact ⟨m, run, inv'⟩

/-- The step of a `kmalloc` that takes the chunk `c`. -/
theorem exists_kmalloc {l r : List AllocHeader} {c : AllocHeader} (inv : s.Inv k (l ++ c :: r))
    (arena : k.Arena) (enough : k.totalSize < fuel) (sz : BitVec 64) (pos : 1 ≤ sz.toNat)
    (le : sz.toNat ≤ 2 ^ 63) (fit : Fits (needed sz) c) (first : ∀ b ∈ l, ¬ Fits (needed sz) b) :
    ∃ s', s.Step k fuel (.kmalloc sz) s' ∧
      s'.live = (k.head + total AllocHeader.getSize l + 8, sz) :: s.live ∧
      s'.Inv k (l ++ splitChunk (needed sz) c ++ r) := by
  have run := kmalloc_first arena inv.walk pos le rfl fit first enough
  refine ⟨_, ⟨⟨pos, le, _, inv.walk, c, by simp, fit⟩, ?_⟩, rfl, (inv.takeChunk pos fit).1⟩
  rw [HeapAction.run, run, Option.map_some]
  simp only [if_neg (show k.head + total AllocHeader.getSize l + 8 ≠ 0 by omega)]

/-- The step of a `kfree` of the chunk `c`. -/
theorem exists_kfree {l r : List AllocHeader} {c : AllocHeader} (inv : s.Inv k (l ++ c :: r))
    (arena : k.Arena) (enough : k.totalSize < fuel) {sz : BitVec 64}
    (hb : (k.head + total AllocHeader.getSize l + 8, sz) ∈ s.live) :
    ∃ s', s.Step k fuel (.kfree (k.head + total AllocHeader.getSize l + 8)) s' ∧
      s'.live = s.live.eraseP (·.1 == k.head + total AllocHeader.getSize l + 8) ∧
      s'.Inv k (mergePass (l ++ freed c :: r)) := by
  obtain ⟨m, run, inv'⟩ := inv.kfree_chunks arena hb enough
  refine ⟨_, ⟨⟨sz, hb⟩, ?_⟩, rfl, inv'⟩
  rw [HeapAction.run, run, Option.map_some]

/-- The chunk of a live pointer. -/
theorem chunk_of_live {cs : List AllocHeader} (inv : s.Inv k cs) {b : Nat × BitVec 64}
    (hb : b ∈ s.live) :
    ∃ l c r, cs = l ++ c :: r ∧ b.1 = k.head + total AllocHeader.getSize l + 8 := by
  obtain ⟨c, hc, ge, -⟩ := inv.owned b hb
  obtain ⟨l, r, e, address⟩ := exists_of_mem_places (mem_takenFrom.1 hc).1
  exact ⟨l, c, r, e, by omega⟩

variable {cs : List AllocHeader} (inv : s.Inv k cs) (coalesced : Coalesced cs) (arena : k.Arena)
  (enough : k.totalSize < fuel)

include inv coalesced arena enough

/-- **What one `kfree` leaves** is without adjacent free chunks exactly if the freed chunk was not
between two free ones. -/
theorem noAdjacentFree_kfree_iff {b : Nat × BitVec 64} (hb : b ∈ s.live) {m : Memory}
    (run : k.kfree fuel s.memory b.1 = some m) :
    NoAdjacentFree k m ↔ ¬ BetweenFree k s.memory b.1 := by
  obtain ⟨ptr, sz⟩ := b
  obtain ⟨l, c, r, rfl, address⟩ := inv.chunk_of_live hb
  simp only at address run ⊢
  subst address
  obtain ⟨m', run', inv'⟩ := inv.kfree_chunks arena hb enough
  obtain rfl := Option.some.inj (run.symm.trans run')
  rw [noAdjacentFree_iff inv'.walk, betweenFree_iff inv.walk]
  exact coalesced_mergePass_iff coalesced

/-- A step keeps free chunks apart, if it does so when it is a `kfree`. -/
theorem coalesced_step {a : HeapAction} {s' : KernelHeap} (step : s.Step k fuel a s')
    (leaves : ∀ ptr, a = .kfree ptr → NoAdjacentFree k s'.memory) :
    ∃ cs', s'.Inv k cs' ∧ Coalesced cs' := by
  obtain ⟨allowed, out⟩ := step
  cases a with
  | kmalloc sz =>
    obtain ⟨pos, le, ds, walk, fits⟩ := allowed
    obtain rfl := inv.walk.unique walk
    obtain ⟨l, c, r, rfl, fit, -, run⟩ := kmalloc_spec arena inv.walk pos le fits enough
    rw [HeapAction.run, run, Option.map_some, Option.some.injEq] at out
    simp only [if_neg (show k.head + total AllocHeader.getSize l + 8 ≠ 0 by omega)] at out
    exact ⟨_, out ▸ (inv.takeChunk pos fit).1, coalesced_splitChunk coalesced fit.1 _⟩
  | kfree ptr =>
    obtain ⟨sz, hb⟩ := allowed
    obtain ⟨m, cs', run, inv', -⟩ := inv.kfree arena hb enough
    rw [HeapAction.run, run, Option.map_some, Option.some.injEq] at out
    subst out
    exact ⟨cs', inv', (noAdjacentFree_iff inv'.walk).1 (leaves ptr rfl)⟩
  | write address value =>
    obtain ⟨b, hb, low, high⟩ := allowed
    obtain rfl := Option.some.inj out
    exact ⟨cs, inv.write hb low high value, coalesced⟩

end KernelHeap.Inv

/-- **Freeing leaves no adjacent free chunks** in a run exactly as long as no chunk between two
free ones is freed. -/
theorem kernel_heap_noAdjacentFree_iff {mm : MemoryManager} {h : PageHeap} (layout : mm.Layout)
    (inv : h.Inv mm) (room : HasRoom h mm.allocStart ALLOCATION_SIZE)
    (ram : mm.allocStart + PAGE_SIZE * mm.numberOfPages ≤ 2 ^ 56) {fuel : Nat}
    (enough : 262144 < fuel) (as : List HeapAction) (s : KernelHeap) :
    Transition.Run (fun s a s' => KernelHeap.Step (construct h.memory mm.allocStart).1 fuel s a s' ∧
        ∀ ptr, a = .kfree ptr → NoAdjacentFree (construct h.memory mm.allocStart).1 s'.memory)
      ⟨(construct h.memory mm.allocStart).2, []⟩ as s ↔
    Transition.Run (fun s a s' => KernelHeap.Step (construct h.memory mm.allocStart).1 fuel s a s' ∧
        ∀ ptr, a = .kfree ptr → ¬ BetweenFree (construct h.memory mm.allocStart).1 s.memory ptr)
      ⟨(construct h.memory mm.allocStart).2, []⟩ as s := by
  obtain ⟨arena, size, init⟩ := construct_inv layout inv room ram
  rw [← size] at enough
  generalize construct h.memory mm.allocStart = k at *
  refine Transition.Run.iff_of_invariant (J := fun s => ∃ cs, s.Inv k.1 cs ∧ Coalesced cs) ?_ ?_
    ⟨_, init, List.isChain_singleton _⟩
  · rintro s a s' ⟨cs, inv, coalesced⟩ ⟨allowed, out⟩
    refine forall_congr' fun ptr => imp_congr_right fun e => ?_
    subst e
    obtain ⟨sz, hb⟩ := allowed
    obtain ⟨m, run, rfl⟩ := Option.map_eq_some_iff.1 out
    exact inv.noAdjacentFree_kfree_iff coalesced arena enough hb run
  · rintro s a s' ⟨cs, inv, coalesced⟩ step leaves
    exact inv.coalesced_step coalesced arena enough step leaves

/-! ## Three chunks in a row -/

/-- A heap of 256 pages. -/
@[irreducible] def smallPages : PageHeap :=
  { memory := (MemoryManager.init 0x80001000 0x100000 fun _ => 0).2, live := [] }

/-- The kernel heap in it. -/
@[irreducible] def smallHeap : KernelMemoryAllocator × Memory :=
  construct smallPages.memory (initialManager 0x80001000 0x100000).allocStart

theorem smallPages_inv : smallPages.Inv (initialManager 0x80001000 0x100000) ∧
    HasRoom smallPages (initialManager 0x80001000 0x100000).allocStart ALLOCATION_SIZE := by
  have bounds : HeapBounds 0x80001000 0x100000 := ⟨by decide, by decide⟩
  rw [smallPages]
  exact ⟨init_inv bounds fun _ => 0, init_hasRoom bounds (fun _ => 0) (by decide)⟩

theorem smallHeap_inv :
    smallHeap.1.Arena ∧ smallHeap.1.totalSize = 262144 ∧
      KernelHeap.Inv smallHeap.1 ⟨smallHeap.2, []⟩ [{ size := 262144, taken := 0 }] := by
  have bounds : HeapBounds 0x80001000 0x100000 := ⟨by decide, by decide⟩
  rw [smallHeap]
  exact construct_inv (initialManager_layout bounds) smallPages_inv.1 smallPages_inv.2 (by decide)

section

variable {k : KernelMemoryAllocator} {m : Memory}

theorem KernelHeap.memory_mk (live : List (Nat × BitVec 64)) :
    KernelHeap.memory ⟨m, live⟩ = m := rfl

theorem KernelHeap.Inv.walk_of {live : List (Nat × BitVec 64)} {cs : List AllocHeader}
    (inv : KernelHeap.Inv k ⟨m, live⟩ cs) : Walk k m cs := inv.walk

variable (arena : k.Arena) (size : k.totalSize = 262144)
  (inv : KernelHeap.Inv k ⟨m, []⟩ [{ size := 262144, taken := 0 }])

include arena size inv

/-- A chunk that is allocated and freed at once. -/
theorem exists_run_one : ∃ s s', KernelHeap.Step k 262145 ⟨m, []⟩ (.kmalloc 8) s ∧
    KernelHeap.Step k 262145 s (.kfree (k.head + 8)) s' ∧
    ¬ BetweenFree k s.memory (k.head + 8) := by
  have enough : k.totalSize < 262145 := by omega
  obtain ⟨s, step, live, inv'⟩ := KernelHeap.Inv.exists_kmalloc (l := []) inv arena enough 8
    (by decide) (by decide) ⟨rfl, by decide⟩ (by simp)
  replace inv' : s.Inv k ([] ++ ⟨16, 1⟩ :: [⟨262128, 0⟩]) := inv'
  obtain ⟨s', step', -, -⟩ := inv'.exists_kfree arena enough (by
    rw [live]
    exact List.mem_cons_self)
  refine ⟨s, s', step, step', fun between => ?_⟩
  have alone := ((betweenFree_iff inv'.walk).1 between).1
  simp at alone

/-- Of three chunks of 16 bytes the first, the last and then the one between are freed: the pass
merges two of the four free chunks and stops in front of the others. -/
theorem exists_run_three :
    ∃ s s', Transition.Run (KernelHeap.Step k 262145) ⟨m, []⟩
        [.kmalloc 8, .kmalloc 8, .kmalloc 8, .kfree (k.head + 8), .kfree (k.head + 40)] s ∧
      KernelHeap.Step k 262145 s (.kfree (k.head + 24)) s' ∧ ¬ NoAdjacentFree k s'.memory := by
  have enough : k.totalSize < 262145 := by omega
  have fits : ∀ n : BitVec 63, 16 ≤ n.toNat → Fits (needed 8) ⟨n, 0⟩ := fun n large => ⟨rfl, large⟩
  have passed : ∀ cs : List AllocHeader, (∀ c ∈ cs, c = ⟨16, 1⟩) → ∀ c ∈ cs, ¬ Fits (needed 8) c := by
    intro cs all c mem fit
    rw [all c mem] at fit
    exact Bool.false_ne_true fit.1
  obtain ⟨s₁, step₁, live₁, inv₁⟩ := KernelHeap.Inv.exists_kmalloc (l := []) inv arena
    enough 8 (by decide) (by decide) (fits _ (by decide)) (passed _ (by simp))
  replace inv₁ : s₁.Inv k ([⟨16, 1⟩] ++ [⟨262128, 0⟩]) := inv₁
  obtain ⟨s₂, step₂, live₂, inv₂⟩ := inv₁.exists_kmalloc arena
    enough 8 (by decide) (by decide) (fits _ (by decide)) (passed _ (by simp))
  replace inv₂ : s₂.Inv k ([⟨16, 1⟩, ⟨16, 1⟩] ++ [⟨262112, 0⟩]) := inv₂
  obtain ⟨s₃, step₃, live₃, inv₃⟩ := inv₂.exists_kmalloc arena
    enough 8 (by decide) (by decide) (fits _ (by decide)) (passed _ (by simp))
  replace inv₃ : s₃.Inv k ([] ++ ⟨16, 1⟩ :: [⟨16, 1⟩, ⟨16, 1⟩, ⟨262096, 0⟩]) := inv₃
  replace live₃ : s₃.live = [(k.head + 40, 8), (k.head + 24, 8), (k.head + 8, 8)] := by
    rw [live₃, live₂, live₁]
    rfl
  obtain ⟨s₄, step₄, live₄, inv₄⟩ := inv₃.exists_kfree arena enough (by
    rw [live₃]
    exact List.mem_cons_of_mem _ (List.mem_cons_of_mem _ List.mem_cons_self))
  replace inv₄ : s₄.Inv k ([⟨16, 0⟩, ⟨16, 1⟩] ++ ⟨16, 1⟩ :: [⟨262096, 0⟩]) := inv₄
  replace live₄ : s₄.live = [(k.head + 40, 8), (k.head + 24, 8)] := by
    rw [live₄, live₃]
    simp
  obtain ⟨s₅, step₅, live₅, inv₅⟩ := inv₄.exists_kfree arena enough (by
    rw [live₄]
    exact List.mem_cons_self)
  replace inv₅ : s₅.Inv k ([⟨16, 0⟩] ++ ⟨16, 1⟩ :: [⟨262112, 0⟩]) := inv₅
  replace live₅ : s₅.live = [(k.head + 24, 8)] := by
    rw [live₅, live₄]
    exact List.eraseP_cons_of_pos (beq_self_eq_true (k.head + 40))
  obtain ⟨s₆, step₆, -, inv₆⟩ := inv₅.exists_kfree arena enough (by
    rw [live₅]
    exact List.mem_cons_self)
  replace inv₆ : s₆.Inv k [⟨32, 0⟩, ⟨262112, 0⟩] := inv₆
  refine ⟨s₅, s₆, .cons step₁ (.cons step₂ (.cons step₃ (.cons step₄ (.cons step₅ (.nil _))))),
    step₆, ?_⟩
  rw [noAdjacentFree_iff inv₆.walk, Coalesced, List.isChain_pair]
  exact fun apart => apart ⟨rfl, rfl⟩

end

theorem smallHeap_walk : Walk smallHeap.1 smallHeap.2 [{ size := 262144, taken := 0 }] :=
  smallHeap_inv.2.2.walk_of

theorem kernel_heap_noAdjacentFree_one :
    ∃ s, Transition.Run (fun s a s' => KernelHeap.Step smallHeap.1 262145 s a s' ∧
        ∀ ptr, a = .kfree ptr → NoAdjacentFree smallHeap.1 s'.memory)
      ⟨smallHeap.2, []⟩ [.kmalloc 8, .kfree (smallHeap.1.head + 8)] s := by
  obtain ⟨arena, size, inv⟩ := smallHeap_inv
  obtain ⟨s₁, s₂, step₁, step₂, apart⟩ := exists_run_one arena size inv
  refine ⟨s₂, ?_⟩
  have bounds : HeapBounds 0x80001000 0x100000 := ⟨by decide, by decide⟩
  have iff := kernel_heap_noAdjacentFree_iff (initialManager_layout bounds) smallPages_inv.1
    smallPages_inv.2 (by decide) (Nat.lt_succ_self 262144)
    [.kmalloc 8, .kfree (smallHeap.1.head + 8)] s₂
  rw [← smallHeap] at iff
  refine iff.2 (.cons ⟨step₁, nofun⟩ (.cons ⟨step₂, ?_⟩ (.nil s₂)))
  rintro ptr ⟨⟩
  exact apart

/-- Of three chunks in a row that are freed two stay apart. -/
theorem not_noAdjacentFree_three :
    ∃ s s', Transition.Run (KernelHeap.Step smallHeap.1 262145) ⟨smallHeap.2, []⟩
        [.kmalloc 8, .kmalloc 8, .kmalloc 8, .kfree (smallHeap.1.head + 8),
          .kfree (smallHeap.1.head + 40)] s ∧
      KernelHeap.Step smallHeap.1 262145 s (.kfree (smallHeap.1.head + 24)) s' ∧
      ¬ NoAdjacentFree smallHeap.1 s'.memory :=
  exists_run_three smallHeap_inv.1 smallHeap_inv.2.1 smallHeap_inv.2.2

end MatteOS.Memory
