import MatteOS.Memory.Verify.Coalescing

/-!
# What is freed memory

`is_in_freed_memory` walks the chunks. In every state that callers reach it finds exactly the
addresses of the arena that are in the chunk of no live pointer (`isInFreedMemory_iff`), those of a
chunk that was just given back among them.
-/

namespace MatteOS.Memory

open ByteMemory Tiling KernelMemoryAllocator

/-- The address is in the chunk of the pointer, of which the header is in front. -/
def InChunkOf (m : Memory) (ptr x : Nat) : Prop :=
  ptr - 8 ≤ x ∧ x < ptr - 8 + (AllocHeader.load m (ptr - 8)).getSize

section Walks

variable {k : KernelMemoryAllocator} {m : Memory} {cs : List AllocHeader} {x : Nat}

/-- Some chunk has every address of the arena. -/
theorem exists_place {a : Nat} (low : a ≤ x) (high : x < a + total AllocHeader.getSize cs) :
    ∃ p ∈ chunksFrom a cs, p.1 ≤ x ∧ x < p.1 + p.2.getSize := by
  induction cs generalizing a with
  | nil =>
    rw [total_nil] at high
    omega
  | cons c cs ih =>
    by_cases here : x < a + c.getSize
    · exact ⟨(a, c), List.mem_cons_self, low, here⟩
    · rw [total_cons] at high
      obtain ⟨p, mem, inside⟩ := ih (a := a + c.getSize) (by omega) (by omega)
      exact ⟨p, List.mem_cons_of_mem _ mem, inside⟩

/-- The walk is in front of the chunks `r`, and none of those before it is free around `x`. -/
def Looking (k : KernelMemoryAllocator) (cs : List AllocHeader) (x ptr : Nat) : Prop :=
  ∃ l r, cs = l ++ r ∧ ptr = k.head + total AllocHeader.getSize l ∧
    ∀ p ∈ chunksFrom k.head l, ¬ (p.1 ≤ x ∧ x < p.1 + p.2.getSize ∧ p.2.isFree)

/-- What the walk looks for. -/
def FreeAround (k : KernelMemoryAllocator) (cs : List AllocHeader) (x : Nat) : Prop :=
  ∃ p ∈ chunksFrom k.head cs, p.1 ≤ x ∧ x < p.1 + p.2.getSize ∧ p.2.isFree

variable (arena : k.Arena) (walk : Walk k m cs)

include arena walk

/-- **One round** passes a chunk or has the answer. -/
theorem Looking.step {ptr : Nat} (state : Looking k cs x ptr) :
    (∃ next, freedBody m (k.head + k.totalSize) x ptr = .again next ∧ Looking k cs x next ∧
      ptr < next ∧ ptr < k.head + k.totalSize) ∨
    ∃ answer, freedBody m (k.head + k.totalSize) x ptr = .done answer ∧
      (answer = true ↔ FreeAround k cs x) := by
  obtain ⟨l, r, e, rfl, none⟩ := state
  cases r with
  | nil =>
    rw [List.append_nil] at e
    subst e
    have whole := walk.whole
    refine .inr ⟨false, ?_, fun h => absurd h (by decide), fun ⟨p, mem, here⟩ => absurd here (none p mem)⟩
    rw [freedBody, if_neg (by omega)]
  | cons c r =>
    obtain ⟨header, large, inside, bound⟩ := chunk_at arena walk e
    have next : (k.head + total AllocHeader.getSize l + c.getSize) % 2 ^ 64 =
        k.head + total AllocHeader.getSize l + c.getSize := Nat.mod_eq_of_lt (by omega)
    have body : freedBody m (k.head + k.totalSize) x (k.head + total AllocHeader.getSize l) =
        if k.head + total AllocHeader.getSize l ≤ x ∧
            x < k.head + total AllocHeader.getSize l + c.getSize ∧ c.isFree then .done true
          else .again (k.head + total AllocHeader.getSize l + c.getSize) := by
      simp only [freedBody, header, next]
      rw [if_pos (by omega)]
    by_cases here : k.head + total AllocHeader.getSize l ≤ x ∧
        x < k.head + total AllocHeader.getSize l + c.getSize ∧ c.isFree
    · rw [if_pos here] at body
      have mem : (k.head + total AllocHeader.getSize l, c) ∈ chunksFrom k.head cs := by
        rw [e]
        exact mem_places_middle k.head l c r
      exact .inr ⟨true, body, fun _ => ⟨_, mem, here⟩, fun _ => rfl⟩
    · rw [if_neg here] at body
      refine .inl ⟨_, body, ⟨l ++ [c], r, by simp [e], by simp [Nat.add_assoc], fun p mem => ?_⟩,
        by omega, by omega⟩
      rw [chunksFrom, places_append] at mem
      rcases List.mem_append.1 mem with mem | mem
      · exact none p mem
      · rw [List.mem_singleton.1 mem]
        exact here

/-- The walk finds the free chunk around an address. -/
theorem isInFreedMemory_walk (x : Nat) {fuel : Nat} (enough : k.totalSize < fuel) :
    ∃ answer, k.isInFreedMemory fuel m x = some answer ∧ (answer = true ↔ FreeAround k cs x) := by
  have top := arena.top
  have tail : (k.head + k.totalSize) % 2 ^ 64 = k.head + k.totalSize := Nat.mod_eq_of_lt (by omega)
  unfold isInFreedMemory
  rw [tail]
  refine Loop.run_of_variant (I := Looking k cs x) (fun ptr => k.head + k.totalSize - ptr)
    (fun ptr next state again => ?_) (fun ptr answer state done => ?_)
    ⟨[], cs, rfl, rfl, fun p mem => absurd mem List.not_mem_nil⟩ (by omega)
  · rcases state.step arena walk with ⟨next', body, state', more, inside⟩ | ⟨_, body, -⟩
    · obtain rfl := Loop.Next.again.inj (body.symm.trans again)
      exact ⟨state', by omega⟩
    · cases body.symm.trans again
  · rcases state.step arena walk with ⟨_, body, -⟩ | ⟨answer', body, right⟩
    · cases body.symm.trans done
    · obtain rfl := Loop.Next.done.inj (body.symm.trans done)
      exact right

end Walks

/-! ## Runs -/

namespace KernelHeap.Inv

variable {k : KernelMemoryAllocator} {s : KernelHeap} {cs : List AllocHeader} {x : Nat}

/-- An address of the arena is in a free chunk or in that of a live pointer. -/
theorem freeAround_iff (inv : s.Inv k cs) : FreeAround k cs x ↔
    (k.head ≤ x ∧ x < k.head + k.totalSize) ∧ ∀ b ∈ s.live, ¬ InChunkOf s.memory b.1 x := by
  constructor
  · rintro ⟨p, mem, low, high, free⟩
    have within := le_places mem
    rw [inv.walk.whole] at within
    refine ⟨⟨by omega, by omega⟩, fun b hb inside => ?_⟩
    obtain ⟨c, hc, ge, -⟩ := inv.owned b hb
    obtain ⟨place, taken⟩ := mem_takenFrom.1 hc
    have header := inv.walk.tiles.header_eq place
    simp only at header
    unfold InChunkOf at inside
    rw [header] at inside
    have other : p ≠ (b.1 - 8, c) := by
      rintro rfl
      rw [AllocHeader.isFree, taken] at free
      exact absurd free (by decide)
    have apart := places_apart mem place other
    simp only at apart
    omega
  · rintro ⟨⟨low, high⟩, none⟩
    rw [← inv.walk.whole] at high
    obtain ⟨p, mem, here⟩ := exists_place low high
    refine ⟨p, mem, here.1, here.2, ?_⟩
    by_contra taken
    have hp : p ∈ takenFrom k.head cs := mem_takenFrom.2 ⟨mem, by
      simpa [AllocHeader.isFree] using taken⟩
    have live : p.1 + 8 ∈ s.live.map (·.1) := inv.live.mem_iff.2 (List.mem_map.2 ⟨p, hp, rfl⟩)
    obtain ⟨b, hb, ptr⟩ := List.mem_map.1 live
    refine none b hb ?_
    have header := inv.walk.tiles.header_eq mem
    rw [InChunkOf, ptr, Nat.add_sub_cancel, header]
    exact here

end KernelHeap.Inv

/-- **What `is_in_freed_memory` finds.** In every state that callers reach it ends, and it finds the
addresses of the arena that are in the chunk of no live pointer. After a `kfree` it finds the chunk
that was given back. -/
theorem isInFreedMemory_iff {mm : MemoryManager} {h : PageHeap} (layout : mm.Layout)
    (inv : h.Inv mm) (room : HasRoom h mm.allocStart ALLOCATION_SIZE)
    (ram : mm.allocStart + PAGE_SIZE * mm.numberOfPages ≤ 2 ^ 56) {fuel : Nat}
    (enough : 262144 < fuel) {as : List HeapAction} {s : KernelHeap}
    (run : Transition.Run (KernelHeap.Step (construct h.memory mm.allocStart).1 fuel)
      ⟨(construct h.memory mm.allocStart).2, []⟩ as s) :
    (∀ x, ∃ answer, (construct h.memory mm.allocStart).1.isInFreedMemory fuel s.memory x = some answer ∧
      (answer = true ↔ ((construct h.memory mm.allocStart).1.head ≤ x ∧
        x < (construct h.memory mm.allocStart).1.head + 262144) ∧
          ∀ b ∈ s.live, ¬ InChunkOf s.memory b.1 x)) ∧
      ∀ ptr s', s.Step (construct h.memory mm.allocStart).1 fuel (.kfree ptr) s' → ∀ x,
        InChunkOf s.memory ptr x →
          (construct h.memory mm.allocStart).1.isInFreedMemory fuel s'.memory x = some true := by
  obtain ⟨arena, size, cs, inv'⟩ := KernelHeap.Inv.of_run layout inv room ram enough run
  have enough' := enough
  rw [← size] at enough' ⊢
  refine ⟨fun x => ?_, fun ptr s' step x inside => ?_⟩
  · obtain ⟨answer, ran, found⟩ := isInFreedMemory_walk arena inv'.walk x enough'
    exact ⟨answer, ran, found.trans inv'.freeAround_iff⟩
  · obtain ⟨⟨sz, hb⟩, out⟩ := step
    obtain ⟨c, hc, ge, -⟩ := inv'.owned _ hb
    obtain ⟨place, taken⟩ := mem_takenFrom.1 hc
    have within := le_places place
    have header := inv'.walk.tiles.header_eq place
    simp only at header within ge
    unfold InChunkOf at inside
    rw [header] at inside
    rw [inv'.walk.whole] at within
    obtain ⟨m, cs', freed, after, gone, -⟩ := inv'.kfree arena hb enough'
    rw [HeapAction.run, freed, Option.map_some] at out
    obtain rfl := Option.some.inj out
    obtain ⟨answer, ran, found⟩ := isInFreedMemory_walk arena after.walk x enough'
    have free : FreeAround _ cs' x := after.freeAround_iff.2 ⟨⟨by omega, by omega⟩, fun d hd inside' => ?_⟩
    · rw [ran, found.2 free]
    · -- another pointer has a chunk of its own
      obtain ⟨c', hc', ge', -⟩ := after.owned d hd
      have header' := after.walk.tiles.header_eq (mem_takenFrom.1 hc').1
      simp only at header'
      unfold InChunkOf at inside'
      rw [header'] at inside'
      rw [gone] at hc'
      obtain ⟨old, ne⟩ := List.mem_filter.1 hc'
      have other : d.1 ≠ ptr := by simpa [Nat.sub_add_cancel ge'] using ne
      have apart := places_apart (mem_takenFrom.1 old).1 place fun same => by
        have address : d.1 - 8 = ptr - 8 := congrArg Prod.fst same
        omega
      simp only at apart
      omega

/-- A chunk that is allocated and freed at once. -/
theorem isInFreedMemory_iff_one :
    ∃ s s', Transition.Run (KernelHeap.Step smallHeap.1 262145) ⟨smallHeap.2, []⟩ [.kmalloc 8] s ∧
      KernelHeap.Step smallHeap.1 262145 s (.kfree (smallHeap.1.head + 8)) s' ∧
      smallHeap.1.isInFreedMemory 262145 s'.memory (smallHeap.1.head + 8) = some true := by
  obtain ⟨arena, size, inv⟩ := smallHeap_inv
  obtain ⟨s, s', step, step', -⟩ := exists_run_one arena size inv
  have bounds : HeapBounds 0x80001000 0x100000 := ⟨by decide, by decide⟩
  have enough : smallHeap.1.totalSize < 262145 := by
    rw [size]
    decide
  obtain ⟨cs, after⟩ : ∃ cs, s.Inv smallHeap.1 cs := by
    obtain ⟨s'', cs, out, after⟩ := inv.step arena step.1 enough
    obtain rfl := Option.some.inj (out.symm.trans step.2)
    exact ⟨cs, after⟩
  obtain ⟨sz, hb⟩ := step'.1
  obtain ⟨c, hc, -, -⟩ := after.owned _ hb
  have large := after.walk.sizes c (by
    obtain ⟨_, _, split, -⟩ := exists_of_mem_places (mem_takenFrom.1 hc).1
    rw [split]
    simp)
  have header := after.walk.tiles.header_eq (mem_takenFrom.1 hc).1
  simp only at header
  have inside : InChunkOf s.memory (smallHeap.1.head + 8) (smallHeap.1.head + 8) := by
    rw [InChunkOf, header]
    omega
  have run : Transition.Run (KernelHeap.Step smallHeap.1 262145) ⟨smallHeap.2, []⟩ [.kmalloc 8] s :=
    .cons step (.nil s)
  refine ⟨s, s', run, step', ?_⟩
  rw [smallHeap] at run step' inside ⊢
  exact (isInFreedMemory_iff (initialManager_layout bounds) smallPages_inv.1 smallPages_inv.2
    (by decide) (Nat.lt_succ_self 262144) run).2 _ s' step' _ inside

end MatteOS.Memory
