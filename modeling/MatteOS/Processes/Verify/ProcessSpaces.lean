import MatteOS.Memory.Verify.HeapMapping
import MatteOS.Memory.Verify.InitMemory
import MatteOS.Processes.ProcessSpaces
import MatteOS.Processes.Verify.AddressSpace

/-!
# Processes stay apart

In every run, the blocks of the processes are live and none belongs to two of them, and the page
table of each process still holds what `create_dummy_process` put there (`ProcessSpaces.Inv`). So
user code reaches pages of the image and of its own stack only, and a step changes a byte of a
process only if it is a store to the stack by that process or a write of the kernel
(`processes_stay_apart`).
-/

namespace MatteOS.Processes

open ByteMemory Memory EntryBits Traps ObjectStore

/-- The block holds a page table of the process. -/
def ProcessSpace.IsTable (p : ProcessSpace) (b : Nat × Nat) : Prop :=
  b ∈ p.blocks ∧ b.1 ≠ p.trapFrame ∧ b.1 ≠ p.stackBottom

/-! ## A process in the making -/

section Making

variable {mm : MemoryManager} {h h' : PageHeap} {root : Nat} {tables : List Nat}
  {g : Nat → Option PageTableEntry}

/-- A process in the making: `h` was the heap before it, `blocks` are those it took, and `others`
are those of them that hold no table. -/
structure Making (mm : MemoryManager) (h : PageHeap) (root : Nat) (h' : PageHeap)
    (blocks others : List (Nat × Nat)) (tables : List Nat) (g : Nat → Option PageTableEntry) :
    Prop where
  on : HeapTables mm h' root tables
  holds : HoldsPageMap root tables h'.memory g
  took : Took mm blocks h h'
  taken : ∀ x ∈ root :: tables, (x, 1) ∈ blocks
  others_taken : ∀ b ∈ others, b ∈ blocks
  apart : ∀ b ∈ others, ∀ x ∈ root :: tables, b.1 ≠ x

namespace Making

variable {blocks others : List (Nat × Nat)} {h'' : PageHeap}

theorem live (making : Making mm h root h' blocks others tables g) {b : Nat × Nat}
    (mem : b ∈ blocks) : b ∈ h'.live := by
  rw [making.took.live]
  exact List.mem_append_left _ mem

/-- The root table is cleared. -/
theorem start (inv : h.Inv mm) (layout : mm.Layout)
    (low : mm.allocStart + 4096 * mm.numberOfPages ≤ 2 ^ 56)
    (run : h.zalloc mm.allocStart 1 = some (root, h')) :
    Making mm h root h' [(root, 1)] [] [] fun _ => none := by
  obtain ⟨on, holds⟩ := HeapTables.start inv layout low run
  refine ⟨on, holds,
    .of_zalloc inv layout (Nat.le_refl 1) run, fun x table => ?_,
    fun b none => absurd none List.not_mem_nil, fun b none => absurd none List.not_mem_nil⟩
  rw [List.mem_singleton] at table
  exact table ▸ List.mem_singleton_self _

/-- Another block is taken. -/
theorem zalloc (making : Making mm h root h' blocks others tables g) (layout : mm.Layout)
    {pages ptr : Nat} (pos : 1 ≤ pages) (run : h'.zalloc mm.allocStart pages = some (ptr, h'')) :
    Making mm h root h'' ((ptr, pages) :: blocks) ((ptr, pages) :: others) tables g ∧
      ∀ b ∈ blocks, ptr ≠ b.1 := by
  obtain ⟨inv, live, same⟩ := making.on.inv.zalloc layout pos run
  have step := Took.of_zalloc making.on.inv layout pos run
  have fresh : ∀ b ∈ blocks, ptr ≠ b.1 := by
    intro b mem same
    have ptrs := inv.ptrs_nodup
    rw [live, List.map_cons, List.nodup_cons] at ptrs
    exact ptrs.1 (List.mem_map.2 ⟨b, making.live mem, same.symm⟩)
  refine ⟨⟨⟨inv, fun x table => ?_, making.on.nodup⟩, ?_, ⟨?_, ?_⟩,
    fun x table => List.mem_cons_of_mem _ (making.taken x table), fun b mem => ?_,
    fun b mem x table => ?_⟩, fresh⟩
  · rw [live]
    exact List.mem_cons_of_mem _ (making.on.live x table)
  · refine making.holds.congr fun x inside => ?_
    obtain ⟨table, mem, inside⟩ := inside
    exact step.older inv layout (making.on.live table mem) x (by rwa [Nat.mul_one])
  · rw [live, making.took.live]
    rfl
  · refine AgreeOn.trans (making.took.same.mono fun x outside => ?_)
      (step.same.mono fun x outside => ?_)
    · exact ⟨outside.1, fun b mem => outside.2 b (List.mem_cons_of_mem _ mem)⟩
    · refine ⟨outside.1, fun b mem => outside.2 b ?_⟩
      rw [List.mem_singleton] at mem
      exact mem ▸ List.mem_cons_self
  · rcases List.mem_cons.1 mem with rfl | mem
    · exact List.mem_cons_self
    · exact List.mem_cons_of_mem _ (making.others_taken b mem)
  · rcases List.mem_cons.1 mem with rfl | mem
    · exact fresh _ (making.taken x table)
    · exact making.apart b mem x table

/-- A block that holds no table is filled. -/
theorem fill (making : Making mm h root h' blocks others tables g) (layout : mm.Layout)
    {b : Nat × Nat} (mem : b ∈ others) {m : Memory}
    (outside : ∀ x, ¬ bytesAt b.1 (PAGE_SIZE * b.2) x → m x = h'.memory x) :
    Making mm h root { h' with memory := m } blocks others tables g := by
  have taken := making.others_taken b mem
  have live := making.live taken
  refine ⟨⟨?_, making.on.live, making.on.nodup⟩, ?_, ⟨making.took.live, ?_⟩, making.taken,
    making.others_taken, making.apart⟩
  · refine making.on.inv.write layout live fun a beside => outside a ?_
    unfold bytesAt
    omega
  · refine making.holds.congr fun x inside => outside x fun inside' => ?_
    obtain ⟨table, table', inside⟩ := inside
    have apart := making.on.inv.blocks_apart live (making.on.live table table')
      fun same => making.apart b mem table table' (congrArg Prod.fst same)
    unfold RegionsApart at apart
    unfold bytesAt at inside inside'
    simp only at apart
    omega
  · exact making.took.same.trans fun x beside => outside x (beside.2 b taken)

/-- Pages are mapped. -/
theorem runCalls (making : Making mm h root h' blocks others tables g) (layout : mm.Layout)
    (low : mm.allocStart + 4096 * mm.numberOfPages ≤ 2 ^ 56) {calls : List Call}
    (ok : ∀ c ∈ calls, c.WithinBounds) (run : h'.runCalls mm.allocStart root calls = some h'') :
    ∃ new more, Making mm h root h'' (more ++ blocks) others (tables ++ new)
      fun page => calls.foldl (fun old c => c.entry page old) (g page) := by
  obtain ⟨new, on, holds, grown⟩ := making.on.runCalls layout low making.holds ok run
  have fresh : ∀ x ∈ new, (x, 1) ∈ new.reverse.map (·, 1) := fun x mem =>
    List.mem_map_of_mem (List.mem_reverse.2 mem)
  have taken : ∀ x ∈ root :: (tables ++ new), (x, 1) ∈ new.reverse.map (·, 1) ++ blocks := by
    intro x table
    rw [← List.cons_append, List.mem_append] at table
    rcases table with old | mem
    · exact List.mem_append_right _ (making.taken x old)
    · exact List.mem_append_left _ (fresh x mem)
  refine ⟨new, new.reverse.map (·, 1), on, holds, ⟨?_, ?_⟩, taken,
    fun b mem => List.mem_append_right _ (making.others_taken b mem), fun b mem x table => ?_⟩
  · rw [grown.live, making.took.live, List.append_assoc]
  · refine AgreeOn.trans (making.took.same.mono fun x outside => ?_)
      (grown.same.mono fun x outside => ?_)
    · exact ⟨outside.1, fun b mem => outside.2 b (List.mem_append_right _ mem)⟩
    · refine ⟨outside.1, fun table mem inside => outside.2 _ (taken table mem) ?_⟩
      rwa [Nat.mul_one]
  · rw [← List.cons_append, List.mem_append] at table
    rcases table with old | new
    · exact making.apart b mem x old
    · have ptrs := on.inv.ptrs_nodup
      rw [grown.live, List.map_append, List.nodup_append] at ptrs
      exact (ptrs.2.2 x (List.mem_map_of_mem (fresh x new)) b.1
        (List.mem_map_of_mem (making.live (making.others_taken b mem)))).symm

end Making

end Making

/-! ## What `create_dummy_process` leaves -/

/-- The pages of `p` are live, and `tables` holds the map it was made with. -/
structure ProcessSpace.Held (mm : MemoryManager) (symbols : LinkerSymbols) (h : PageHeap)
    (p : ProcessSpace) (tables : List Nat) : Prop where
  on : HeapTables mm h p.root tables
  map : ∃ (pages : ProcessPages symbols p.root) (g : Nat → Option PageTableEntry),
    pages.trapFrame = p.trapFrame ∧ pages.stackBottom = p.stackBottom ∧
      HoldsPageMap p.root tables h.memory g ∧ SpaceMap pages g
  tables : ∀ x ∈ p.root :: tables, p.IsTable (x, 1)
  frame : (p.trapFrame, 1) ∈ p.blocks
  stack : (p.stackBottom, STACK_PAGES) ∈ p.blocks
  live : ∀ b ∈ p.blocks, b ∈ h.live

section Symbols

variable (symbols : LinkerSymbols)

/-- The manager of the heap that `linker.ld` lays out. -/
def heapManager : MemoryManager := initialManager symbols.heapStart symbols.heapSize

variable {symbols}

theorem heapBounds (page : 4096 ≤ symbols.heapSize.toNat) :
    HeapBounds symbols.heapStart symbols.heapSize where
  page_zero := page
  addressable := by
    have start := symbols.heapStart_toNat
    have order := symbols.order
    have size : symbols.heapSize.toNat = MEMORY_END.toNat - symbols.heapStart.toNat :=
      BitVec.toNat_sub_of_le (BitVec.le_def.2 (by omega))
    rw [MEMORY_START_toNat, MEMORY_END_toNat] at order
    rw [MEMORY_END_toNat] at size
    omega

theorem heapManager_layout (page : 4096 ≤ symbols.heapSize.toNat) : (heapManager symbols).Layout :=
  initialManager_layout (heapBounds page)

/-- The pages lie behind the image, and in the physical address space. -/
theorem heapManager_bounds (symbols : LinkerSymbols) :
    symbols.heapStart.toNat ≤ (heapManager symbols).firstPage ∧
      symbols.heapStart.toNat ≤ (heapManager symbols).allocStart ∧
      (heapManager symbols).allocStart + 4096 * (heapManager symbols).numberOfPages ≤ 2 ^ 56 := by
  have start := symbols.heapStart_toNat
  have order := symbols.order
  have size : symbols.heapSize.toNat = MEMORY_END.toNat - symbols.heapStart.toNat :=
    BitVec.toNat_sub_of_le (BitVec.le_def.2 (by omega))
  rw [MEMORY_START_toNat, MEMORY_END_toNat] at order
  rw [MEMORY_END_toNat] at size
  unfold heapManager initialManager
  simp only
  omega

theorem imageCalls_within (symbols : LinkerSymbols) : ∀ c ∈ imageCalls symbols, c.WithinBounds := by
  intro c mem
  obtain ⟨start, stop, bits, rfl, ok, -⟩ := imageCalls_identity symbols c mem
  exact ok

/-- Calls for the image leave pages of the image only. -/
theorem ImageOnly.foldl {g : Nat → Option PageTableEntry} (image : ImageOnly symbols g)
    {calls : List Call}
    (identity : ∀ c ∈ calls, ∃ start stop bits, c = .identityMapRange start stop bits ∧
      c.WithinBounds ∧ MEMORY_START ≤ start ∧ stop ≤ symbols.bssEnd) :
    ImageOnly symbols fun page => calls.foldl (fun old c => c.entry page old) (g page) := by
  induction calls generalizing g with
  | nil => exact image
  | cons c calls ih =>
    obtain ⟨start, stop, bits, rfl, ok, low, high⟩ := identity c List.mem_cons_self
    exact ih (image.identity ok low high) fun d mem => identity d (List.mem_cons_of_mem _ mem)

theorem imageOnly_imageCalls (symbols : LinkerSymbols) : ImageOnly symbols fun page =>
    (imageCalls symbols).foldl (fun old c => c.entry page old) none := by
  have start : ImageOnly symbols fun _ => none := fun q e found => by cases found
  exact start.foldl (imageCalls_identity symbols)

end Symbols

/-- The pages of a process, which are blocks of the heap. -/
def heapProcessPages {symbols : LinkerSymbols} {root trapFrame stackBottom : Nat} {tables : List Nat}
    (ok : DistinctPages (root :: tables)) (trapFrame_aligned : 4096 ∣ trapFrame)
    (stackBottom_aligned : 4096 ∣ stackBottom)
    (trapFrame_heap : symbols.heapStart.toNat ≤ trapFrame ∧ trapFrame < 2 ^ 56)
    (stackBottom_heap : symbols.heapStart.toNat ≤ stackBottom ∧ stackBottom + 4096 < 2 ^ 56)
    (trapFrame_ne : trapFrame ≠ stackBottom ∧ trapFrame ≠ stackBottom + 4096)
    (noTable : ∀ x ∈ root :: tables, trapFrame ≠ x ∧ stackBottom ≠ x ∧ stackBottom + 4096 ≠ x) :
    ProcessPages symbols root where
  toPageSource := tableSource ok
  trapFrame := trapFrame
  stackBottom := stackBottom
  trapFrame_aligned := trapFrame_aligned
  stackBottom_aligned := stackBottom_aligned
  trapFrame_heap := trapFrame_heap
  stackBottom_heap := stackBottom_heap
  trapFrame_apart := by
    refine ⟨(noTable root List.mem_cons_self).1, trapFrame_ne.1, trapFrame_ne.2, fun n small => ?_⟩
    rw [tableSource_page ok small]
    exact (noTable _ (List.mem_cons_of_mem _ (List.getElem_mem small))).1
  stackBottom_apart := by
    refine ⟨(noTable root List.mem_cons_self).2.1, (noTable root List.mem_cons_self).2.2,
      fun n small => ?_⟩
    rw [tableSource_page ok small]
    exact (noTable _ (List.mem_cons_of_mem _ (List.getElem_mem small))).2

theorem runCalls_singleton {self root : Nat} {c : Call} (h : PageHeap) :
    h.runCalls self root [c] = h.runCall self root c := by
  rw [PageHeap.runCalls, List.foldlM_cons, Option.bind_eq_bind]
  cases h.runCall self root c <;> rfl

/-- The trap frame is filled. -/
theorem fill_frame {mm : MemoryManager} {h h' : PageHeap} {root trapFrame : Nat}
    {blocks others : List (Nat × Nat)} {tables : List Nat} {g : Nat → Option PageTableEntry}
    (making : Making mm h root h' blocks ((trapFrame, 1) :: others) tables g) (layout : mm.Layout)
    (programCounter satp : BitVec 64) :
    Making mm h root { h' with memory := initializeThread h'.memory trapFrame programCounter satp }
      blocks ((trapFrame, 1) :: others) tables g := by
  refine making.fill layout List.mem_cons_self fun x outside => ?_
  refine initializeThread_apply_of_outside h'.memory programCounter satp ?_
  unfold bytesAt PAGE_SIZE at outside
  unfold TrapFrame.SIZE
  simp only at outside
  omega

/-- **A process is made of blocks of its own**, and its page table maps the image, the trap frame
and the stack. -/
theorem createDummyProcess_held {symbols : LinkerSymbols} (page : 4096 ≤ symbols.heapSize.toNat)
    {h h' : PageHeap} (inv : h.Inv (heapManager symbols)) {programCounter : BitVec 64}
    {p : ProcessSpace}
    (run : ProcessSpaces.createDummyProcess (heapManager symbols).allocStart symbols programCounter h =
      some (p, h')) :
    ∃ tables, p.Held (heapManager symbols) symbols h' tables ∧
      Took (heapManager symbols) p.blocks h h' := by
  have layout := heapManager_layout page
  obtain ⟨behind, behind', low⟩ := heapManager_bounds symbols
  generalize heapManager symbols = mm at *
  unfold ProcessSpaces.createDummyProcess at run
  simp only [Option.bind_eq_bind, Option.bind_eq_some_iff, Option.some.injEq, Prod.mk.injEq] at run
  obtain ⟨⟨root, h₀⟩, first, h₁, image, ⟨trapFrame, h₂⟩, second, h₃, frame, ⟨stackBottom, h₄⟩, third,
    h₅, stack, rfl, rfl⟩ := run
  dsimp only at first image second frame third stack ⊢
  obtain ⟨new₁, more₁, making₁⟩ := (Making.start inv layout low first).runCalls layout low
    (imageCalls_within symbols) image
  obtain ⟨making₂, -⟩ := making₁.zalloc layout (Nat.le_refl 1) second
  have frameBlock := making₂.on.inv.block_inside layout (making₂.live List.mem_cons_self)
  simp only at frameBlock
  have frameOk : (frameCall trapFrame).WithinBounds := frameCall_within (by omega)
  have filled := fill_frame making₂ layout programCounter (buildSatp SATP_SV39 1 (.ofNat 64 root))
  rw [← runCalls_singleton] at frame stack
  obtain ⟨new₂, more₂, making₃⟩ := filled.runCalls layout low (List.forall_mem_singleton.2 frameOk) frame
  obtain ⟨making₄, fresh⟩ := making₃.zalloc layout (show 1 ≤ STACK_PAGES by decide) third
  have stackBlock := making₄.on.inv.block_inside layout (making₄.live List.mem_cons_self)
  unfold STACK_PAGES at stackBlock
  simp only at stackBlock
  have stackOk : (stackCall stackBottom).WithinBounds := stackCall_within stackBlock.1 (by omega)
  obtain ⟨new₃, more₃, making₅⟩ := making₄.runCalls layout low (List.forall_mem_singleton.2 stackOk)
    stack
  have taken : h₅.live.take (h₅.live.length - h.live.length) =
      more₃ ++ (stackBottom, STACK_PAGES) :: (more₂ ++ (trapFrame, 1) :: (more₁ ++ [(root, 1)])) := by
    rw [making₅.took.live, List.length_append, Nat.add_sub_cancel, List.take_left]
  rw [taken]
  have frameMem := making₅.others_taken (trapFrame, 1) (List.mem_cons_of_mem _ List.mem_cons_self)
  have stackMem := making₅.others_taken (stackBottom, STACK_PAGES) List.mem_cons_self
  have apart := making₅.on.inv.blocks_apart (making₅.live frameMem) (making₅.live stackMem)
    (fun same => absurd (congrArg Prod.snd same) (show 1 ≠ STACK_PAGES by decide))
  have noTable : ∀ x ∈ root :: ([] ++ new₁ ++ new₂ ++ new₃),
      trapFrame ≠ x ∧ stackBottom ≠ x ∧ stackBottom + 4096 ≠ x := by
    intro x table
    have beside := making₅.on.inv.blocks_apart (making₅.live stackMem) (making₅.on.live x table)
      (fun same => absurd (congrArg Prod.snd same) (show STACK_PAGES ≠ 1 by decide))
    unfold RegionsApart PAGE_SIZE STACK_PAGES at beside
    simp only at beside
    exact ⟨making₅.apart _ (List.mem_cons_of_mem _ List.mem_cons_self) x table, by omega, by omega⟩
  unfold RegionsApart PAGE_SIZE STACK_PAGES at apart
  simp only at apart
  refine ⟨_, ⟨making₅.on, ⟨heapProcessPages (making₅.on.distinct layout low) frameBlock.1 stackBlock.1
    ⟨by omega, by omega⟩ ⟨by omega, by omega⟩ ⟨by omega, by omega⟩ noTable, _, rfl, rfl, making₅.holds,
    (imageOnly_imageCalls symbols).spaceMap _⟩, fun x table => ?_, frameMem, stackMem,
    fun b mem => making₅.live mem⟩, making₅.took⟩
  obtain ⟨noFrame, noStack, -⟩ := noTable x table
  exact ⟨making₅.taken x table, noFrame.symm, noStack.symm⟩

/-- The number of pages that the calls for the image map. -/
def imagePages (symbols : LinkerSymbols) : Nat := ((imageCalls symbols).map Call.pages).sum

/-- **A process can be created** where there is room: four pages besides the tables, and two tables
for each page of the image, the trap frame and the stack. -/
theorem createDummyProcess_room {symbols : LinkerSymbols} (page : 4096 ≤ symbols.heapSize.toNat)
    {h : PageHeap} (inv : h.Inv (heapManager symbols)) (programCounter : BitVec 64) {n : Nat}
    (room : HasRoom h (heapManager symbols).allocStart (n + (2 * imagePages symbols + 10))) :
    ∃ p h', ProcessSpaces.createDummyProcess (heapManager symbols).allocStart symbols programCounter h =
      some (p, h') ∧ HasRoom h' (heapManager symbols).allocStart n := by
  have layout := heapManager_layout page
  obtain ⟨-, -, low⟩ := heapManager_bounds symbols
  generalize heapManager symbols = mm at *
  obtain ⟨root, h₀, first, room₀⟩ := inv.zalloc_room layout (Nat.le_refl 1)
    (n := n + 9 + 2 * imagePages symbols) (by
      rwa [show 1 + (n + 9 + 2 * imagePages symbols) = n + (2 * imagePages symbols + 10) by omega])
  have making₀ := Making.start inv layout low first
  obtain ⟨h₁, image, room₁⟩ := making₀.on.runCalls_room layout low making₀.holds
    (imageCalls_within symbols) room₀
  obtain ⟨new₁, more₁, making₁⟩ := making₀.runCalls layout low (imageCalls_within symbols) image
  obtain ⟨trapFrame, h₂, second, room₂⟩ := making₁.on.inv.zalloc_room layout (Nat.le_refl 1)
    (n := n + 8) (by rwa [show 1 + (n + 8) = n + 9 by omega])
  obtain ⟨making₂, -⟩ := making₁.zalloc layout (Nat.le_refl 1) second
  have frameBlock := making₂.on.inv.block_inside layout (making₂.live List.mem_cons_self)
  simp only at frameBlock
  have frameOk : (frameCall trapFrame).WithinBounds := frameCall_within (by omega)
  have filled := fill_frame making₂ layout programCounter (buildSatp SATP_SV39 1 (.ofNat 64 root))
  have room₂' := room₂.congr making₂.on.inv filled.on.inv fun x cell =>
    initializeThread_apply_of_outside h₂.memory programCounter (buildSatp SATP_SV39 1 (.ofNat 64 root))
      (a := trapFrame) (by
        have beside : ¬ bytesAt trapFrame (PAGE_SIZE * 1) x := fun inside =>
          making₂.on.inv.not_descriptors layout (making₂.live List.mem_cons_self) inside cell
        unfold bytesAt PAGE_SIZE at beside
        unfold TrapFrame.SIZE
        omega)
  obtain ⟨h₃, frame, room₃⟩ := filled.on.runCall_room layout low filled.holds frameOk (n := n + 6) room₂'
  have frame' := frame
  rw [← runCalls_singleton] at frame'
  obtain ⟨new₂, more₂, making₃⟩ := filled.runCalls layout low (List.forall_mem_singleton.2 frameOk) frame'
  obtain ⟨stackBottom, h₄, third, room₄⟩ := making₃.on.inv.zalloc_room layout
    (show 1 ≤ STACK_PAGES by decide) (n := n + 4) (by
      rwa [show STACK_PAGES + (n + 4) = n + 6 by unfold STACK_PAGES; omega])
  obtain ⟨making₄, -⟩ := making₃.zalloc layout (show 1 ≤ STACK_PAGES by decide) third
  have stackBlock := making₄.on.inv.block_inside layout (making₄.live List.mem_cons_self)
  unfold STACK_PAGES at stackBlock
  simp only at stackBlock
  have stackOk : (stackCall stackBottom).WithinBounds := stackCall_within stackBlock.1 (by omega)
  obtain ⟨h₅, stack, room₅⟩ := making₄.on.runCall_room layout low making₄.holds stackOk (n := n) room₄
  refine ⟨⟨root, trapFrame, stackBottom, h₅.live.take (h₅.live.length - h.live.length)⟩, h₅, ?_, room₅⟩
  unfold ProcessSpaces.createDummyProcess
  simp only [Option.bind_eq_bind, first, image, second, frame, third, stack, Option.bind_some]

/-! ## Held page tables -/

namespace ProcessSpace.Held

variable {mm : MemoryManager} {symbols : LinkerSymbols} {h h' : PageHeap} {p : ProcessSpace}
  {tables : List Nat}

/-- Nothing changes for a process while its blocks stay live and its tables are let be. -/
theorem keep (held : p.Held mm symbols h tables) (inv : h'.Inv mm) (live : ∀ b ∈ p.blocks, b ∈ h'.live)
    (same : ∀ b, p.IsTable b → AgreeOn (bytesAt b.1 (PAGE_SIZE * b.2)) h.memory h'.memory) :
    p.Held mm symbols h' tables := by
  obtain ⟨pages, g, frame, stack, holds, map⟩ := held.map
  refine ⟨⟨inv, fun x table => live _ (held.tables x table).1, held.on.nodup⟩,
    ⟨pages, g, frame, stack, holds.congr fun x inside => ?_, map⟩, held.tables, held.frame, held.stack,
    live⟩
  obtain ⟨table, mem, inside⟩ := inside
  exact same _ (held.tables table mem) x (by rwa [Nat.mul_one])

/-- What the page table says of an address, and where it sends it. -/
theorem entries (held : p.Held mm symbols h tables) :
    ∃ (pages : ProcessPages symbols p.root) (g : Nat → Option PageTableEntry),
      pages.trapFrame = p.trapFrame ∧ pages.stackBottom = p.stackBottom ∧ SpaceMap pages g ∧
      (∀ permits a, Permits h.memory p.root permits a ↔ ∃ e, g (vpn a) = some e ∧ permits e) ∧
      (∀ permits x, Grants h.memory p.root permits x ↔
        ∃ page < 2 ^ 27, ∃ e, g page = some e ∧ permits e ∧ x / 4096 = e.ppn.toNat) ∧
      ∀ a, (translate h.memory p.root (.ofU64 a)).toOption.map (·.getValue.toNat) =
        (g (vpn a)).map fun e => 4096 * e.ppn.toNat + a.toNat % 4096 := by
  obtain ⟨pages, g, frame, stack, ⟨ok, impl⟩, map⟩ := held.map
  exact ⟨pages, g, frame, stack, map, fun _ _ => impl.permits_iff, fun _ _ => impl.grants_iff,
    impl.translate_eq⟩

end ProcessSpace.Held

/-- A byte of a page of the image. -/
def InImage (symbols : LinkerSymbols) (x : Nat) : Prop :=
  imageFirst ≤ x / 4096 ∧ x / 4096 < imageEnd symbols

theorem InImage.lt_heapStart {symbols : LinkerSymbols} {x : Nat} (inside : InImage symbols x) :
    x < symbols.heapStart.toNat := by
  have start := symbols.heapStart_toNat
  have last := inside.2
  unfold imageEnd at last
  omega

/-- The page of an entry that user code may use is one of the image or of the stack. -/
theorem SpaceMap.user_page {symbols : LinkerSymbols} {root : Nat} {pages : ProcessPages symbols root}
    {g : Nat → Option PageTableEntry} (map : SpaceMap pages g) {q : Nat} {e : PageTableEntry}
    (entry : g q = some e) (user : e.user = 1) {x : Nat} (place : x / 4096 = e.ppn.toNat) :
    InImage symbols x ∨ bytesAt pages.stackBottom (PAGE_SIZE * STACK_PAGES) x := by
  have aligned := pages.stackBottom_aligned
  rcases map.cases q e entry with ⟨low, high, same⟩ | ⟨-, -, kernel⟩ | ⟨i, small, -, ppn, -⟩
  · exact .inl ⟨by omega, by omega⟩
  · rw [kernel] at user
    cases user
  · refine .inr ?_
    unfold bytesAt PAGE_SIZE STACK_PAGES
    omega

theorem SpaceMap.stack_entry {symbols : LinkerSymbols} {root : Nat}
    {pages : ProcessPages symbols root} {g : Nat → Option PageTableEntry} (map : SpaceMap pages g)
    (i : Nat) (small : i < 2) : ∃ e, g (stackFirst + i) = some e ∧
      e.ppn.toNat = pages.stackBottom / 4096 + i ∧ e.UserReadable ∧ e.UserWritable := by
  obtain ⟨e, entry⟩ := Option.isSome_iff_exists.1 (map.stack i small)
  have apart := SpaceMap.apart pages
  have place : stackFirst = 0xefffe := rfl
  rcases map.cases _ e entry with ⟨-, high, -⟩ | ⟨here, -, -⟩ | ⟨j, -, here, ppn, allowed⟩
  · omega
  · omega
  · obtain rfl : i = j := by omega
    exact ⟨e, entry, ppn, allowed⟩

theorem SpaceMap.frame_entry {symbols : LinkerSymbols} {root : Nat}
    {pages : ProcessPages symbols root} {g : Nat → Option PageTableEntry} (map : SpaceMap pages g) :
    ∃ e, g 1 = some e ∧ e.ppn.toNat = pages.trapFrame / 4096 ∧ e.user = 0 := by
  obtain ⟨e, entry⟩ := Option.isSome_iff_exists.1 map.frame
  have first : imageFirst = 0x86000 := rfl
  have place : stackFirst = 0xefffe := rfl
  rcases map.cases _ e entry with ⟨low, -, -⟩ | ⟨-, ppn, kernel⟩ | ⟨j, -, here, -⟩
  · omega
  · exact ⟨e, entry, ppn, kernel⟩
  · omega

/-! ## The invariant -/

namespace ProcessSpaces

/-- The kernel keeps to its side of the allocator, leaves the blocks of the processes in place and
their tables to `map`; user code stores where the page table of its process lets it. -/
def Allowed (symbols : LinkerSymbols) (managerPointer : Nat) (s : ProcessSpaces) : SpaceEvent → Prop
  | .page a => a.Allowed (s.the managerPointer) s.heap ∧
    (∀ ptr, a = .dealloc ptr → ∀ p ∈ s.spaces, ∀ b ∈ p.blocks, b.1 ≠ ptr) ∧
    ∀ x v, a = .write x v → ∀ p ∈ s.spaces, ∀ b, p.IsTable b → ¬ bytesAt b.1 (PAGE_SIZE * b.2) x
  | .setVariable address _ => address < symbols.heapStart.toNat ∧ ¬ bytesAt managerPointer 8 address
  | .create _ => True
  | .store process address _ => ∀ p, s.spaces[process]? = some p →
    Permits s.heap.memory p.root PageTableEntry.UserWritable address ∧
      ∀ x, (translate s.heap.memory p.root (.ofU64 address)).toOption = some x →
        ¬ bytesAt managerPointer 8 x.getValue.toNat

def Step (symbols : LinkerSymbols) (managerPointer fuel : Nat) (s : ProcessSpaces) (e : SpaceEvent)
    (s' : ProcessSpaces) : Prop :=
  Allowed symbols managerPointer s e ∧ s.run symbols managerPointer fuel e = some s'

structure Inv (symbols : LinkerSymbols) (managerPointer : Nat) (s : ProcessSpaces) : Prop where
  heap : s.heap.Inv (heapManager symbols)
  pointer : load64 s.heap.memory managerPointer = .ofNat 64 (heapManager symbols).allocStart
  held : ∀ p ∈ s.spaces, ∃ tables, p.Held (heapManager symbols) symbols s.heap tables
  apart : s.spaces.Pairwise fun p q => ∀ b ∈ p.blocks, ∀ c ∈ q.blocks, b ≠ c

/-- What an event may change of a process. -/
def MayChange (e : SpaceEvent) (i : Nat) (p : ProcessSpace) (b : Nat × Nat) (x : Nat) : Prop :=
  (∃ a v, e = .store i a v ∧ b = (p.stackBottom, STACK_PAGES)) ∨
    ∃ v, e = .page (.write x v) ∧ ¬ p.IsTable b

section Step

variable {symbols : LinkerSymbols} {managerPointer : Nat} {s : ProcessSpaces}

theorem Inv.the (inv : s.Inv symbols managerPointer) :
    s.the managerPointer = (heapManager symbols).allocStart := by
  have low := (heapManager_bounds symbols).2.2
  unfold ProcessSpaces.the
  rw [inv.pointer, BitVec.toNat_ofNat]
  omega

/-- The bytes in front of the heap are no descriptors. -/
theorem not_descriptors_of_lt {x : Nat} (low : x < symbols.heapStart.toNat) :
    ¬ (heapManager symbols).descriptors x := by
  have first := (heapManager_bounds symbols).1
  unfold MemoryManager.descriptors
  omega

theorem Inv.not_block_of_lt (inv : s.Inv symbols managerPointer) {b : Nat × Nat}
    (mem : b ∈ s.heap.live) {x : Nat} (low : x < symbols.heapStart.toNat) :
    ¬ bytesAt b.1 (PAGE_SIZE * b.2) x := by
  have start := (heapManager_bounds symbols).2.1
  have behind := inv.heap.allocStart_lt mem
  unfold bytesAt
  omega

/-- Two blocks of processes that share a byte are one. -/
theorem Inv.block_unique (inv : s.Inv symbols managerPointer) {i j : Nat} {p q : ProcessSpace}
    (at_i : s.spaces[i]? = some p) (at_j : s.spaces[j]? = some q) {b c : Nat × Nat}
    (mem : b ∈ p.blocks) (mem' : c ∈ q.blocks) {x : Nat} (inside : bytesAt b.1 (PAGE_SIZE * b.2) x)
    (inside' : bytesAt c.1 (PAGE_SIZE * c.2) x) : i = j ∧ b = c := by
  obtain ⟨tables, held⟩ := inv.held p (List.mem_of_getElem? at_i)
  obtain ⟨tables', held'⟩ := inv.held q (List.mem_of_getElem? at_j)
  have same : b = c := by
    by_contra ne
    have apart := inv.heap.blocks_apart (held.live b mem) (held'.live c mem') ne
    unfold RegionsApart at apart
    unfold bytesAt at inside inside'
    simp only at apart
    omega
  refine ⟨?_, same⟩
  by_contra ne
  obtain ⟨small, rfl⟩ := List.getElem?_eq_some_iff.1 at_i
  obtain ⟨small', rfl⟩ := List.getElem?_eq_some_iff.1 at_j
  rcases Nat.lt_or_gt_of_ne ne with lt | gt
  · exact List.pairwise_iff_getElem.1 inv.apart i j small small' lt b mem c mem' same
  · exact List.pairwise_iff_getElem.1 inv.apart j i small' small gt c mem' b mem same.symm

/-- An event keeps the invariant and the processes, and changes what it may. -/
structure Advances (symbols : LinkerSymbols) (managerPointer : Nat) (e : SpaceEvent)
    (s s' : ProcessSpaces) : Prop where
  inv : s'.Inv symbols managerPointer
  spaces : ∀ (i : Nat) (p : ProcessSpace), s.spaces[i]? = some p → s'.spaces[i]? = some p
  changed : ∀ (i : Nat) (p : ProcessSpace), s.spaces[i]? = some p → ∀ b ∈ p.blocks,
    ∀ x, bytesAt b.1 (PAGE_SIZE * b.2) x → s'.heap.memory x ≠ s.heap.memory x → MayChange e i p b x

/-- A step that leaves the list of the processes as it is. -/
theorem Inv.advances (inv : s.Inv symbols managerPointer) {e : SpaceEvent} {h : PageHeap}
    (inv' : h.Inv (heapManager symbols))
    (cell : AgreeOn (bytesAt managerPointer 8) s.heap.memory h.memory)
    (live : ∀ p ∈ s.spaces, ∀ b ∈ p.blocks, b ∈ h.live)
    (changed : ∀ (i : Nat) (p : ProcessSpace), s.spaces[i]? = some p → ∀ b ∈ p.blocks,
      ∀ x, bytesAt b.1 (PAGE_SIZE * b.2) x → h.memory x ≠ s.heap.memory x → ¬ p.IsTable b ∧ MayChange e i p b x) :
    Advances symbols managerPointer e s { s with heap := h } where
  inv := by
    refine ⟨inv', ?_, fun p mem => ?_, inv.apart⟩
    · rw [← inv.pointer]
      exact load64_congr fun x low high => cell x ⟨low, high⟩
    · obtain ⟨tables, held⟩ := inv.held p mem
      obtain ⟨i, at_i⟩ := List.getElem?_of_mem mem
      refine ⟨tables, held.keep inv' (live p mem) fun b table x inside => ?_⟩
      by_contra ne
      exact (changed i p at_i b table.1 x inside ne).1 table
  spaces := fun i p at_i => at_i
  changed := fun i p at_i b mem x inside ne => (changed i p at_i b mem x inside ne).2

/-- A step that takes blocks leaves those of the processes alone. -/
theorem Inv.took (inv : s.Inv symbols managerPointer) (page : 4096 ≤ symbols.heapSize.toNat)
    (below : managerPointer + 8 ≤ symbols.heapStart.toNat) {e : SpaceEvent} {h : PageHeap}
    (inv' : h.Inv (heapManager symbols)) {blocks : List (Nat × Nat)}
    (took : Took (heapManager symbols) blocks s.heap h) :
    Advances symbols managerPointer e s { s with heap := h } := by
  have layout := heapManager_layout page
  refine inv.advances inv' (took.same.mono fun x inside => ?_) (fun p mem b mem' => ?_)
    fun i p at_i b mem x inside ne => ?_
  · unfold bytesAt at inside
    refine ⟨not_descriptors_of_lt (by omega), fun b new => ?_⟩
    have behind := inv'.allocStart_lt (b := b) (by
      rw [took.live]
      exact List.mem_append_left _ new)
    have start := (heapManager_bounds symbols).2.1
    unfold bytesAt
    omega
  · obtain ⟨tables, held⟩ := inv.held p mem
    rw [took.live]
    exact List.mem_append_right _ (held.live b mem')
  · obtain ⟨tables, held⟩ := inv.held p (List.mem_of_getElem? at_i)
    exact absurd (took.older inv' layout (held.live b mem) x inside) ne

/-- A write of one byte that is in no page table. -/
theorem Inv.store (inv : s.Inv symbols managerPointer) {e : SpaceEvent} {x : Nat} {v : BitVec 8}
    (inv' : PageHeap.Inv (heapManager symbols)
      { s.heap with memory := store8 s.heap.memory x v })
    (cell : ¬ bytesAt managerPointer 8 x)
    (changed : ∀ (i : Nat) (p : ProcessSpace), s.spaces[i]? = some p → ∀ b ∈ p.blocks,
      bytesAt b.1 (PAGE_SIZE * b.2) x → ¬ p.IsTable b ∧ MayChange e i p b x) :
    Advances symbols managerPointer e s (s.withMemory (store8 s.heap.memory x v)) := by
  refine inv.advances inv' (fun y inside => store8_apply_of_ne _ _ ?_) (fun p mem b mem' => ?_)
    fun i p at_i b mem y inside ne => ?_
  · rintro rfl
    exact cell inside
  · obtain ⟨tables, held⟩ := inv.held p mem
    exact held.live b mem'
  · obtain rfl : y = x := by
      by_contra other
      exact ne (store8_apply_of_ne _ _ other)
    exact changed i p at_i b mem inside

/-- The kernel uses the allocator. -/
theorem Inv.page (inv : s.Inv symbols managerPointer) (page : 4096 ≤ symbols.heapSize.toNat)
    (below : managerPointer + 8 ≤ symbols.heapStart.toNat) {fuel : Nat}
    (enough : (heapManager symbols).numberOfPages < fuel) {a : PageAction}
    (allowed : Allowed symbols managerPointer s (.page a)) {h : PageHeap}
    (run : a.run (heapManager symbols).allocStart fuel s.heap = some h) :
    Advances symbols managerPointer (.page a) s { s with heap := h } := by
  have layout := heapManager_layout page
  obtain ⟨fits, kept, written⟩ := allowed
  rw [inv.the] at fits
  have inv' := inv.heap.step layout enough fits run
  cases a with
  | alloc pages =>
    obtain rfl : _ = h := Option.some.inj run
    exact inv.took page below inv' (.of_alloc inv.heap layout fits.1 fits.2)
  | zalloc pages =>
    obtain rfl : _ = h := Option.some.inj run
    exact inv.took page below inv' (.of_zalloc inv.heap layout fits.1 (by
      rw [PageHeap.zalloc, if_pos fits.2]))
  | dealloc ptr =>
    obtain ⟨pages, mem⟩ := fits
    obtain ⟨m, freed, cleared⟩ := inv.heap.dealloc_spec layout mem enough
    rw [PageAction.run, freed, Option.map_some] at run
    obtain rfl : _ = h := Option.some.inj run
    have same : ∀ x, ¬ (heapManager symbols).descriptors x → m x = s.heap.memory x := by
      intro x outside
      have top := inv.heap.start_add_le mem
      unfold MemoryManager.descriptors at outside
      simp only at top
      rw [cleared, if_neg (by simp only; omega)]
    refine inv.advances inv' (fun x inside => same x ?_) (fun p mem b mem' => ?_)
      fun i p at_i b mem x inside ne => ?_
    · unfold bytesAt at inside
      exact not_descriptors_of_lt (by omega)
    · obtain ⟨tables, held⟩ := inv.held p mem
      have other := kept ptr rfl p mem b mem'
      exact (List.mem_eraseP_of_neg (by simpa using other)).2 (held.live b mem')
    · obtain ⟨tables, held⟩ := inv.held p (List.mem_of_getElem? at_i)
      exact absurd (same x (inv.heap.not_descriptors layout (held.live b mem) inside)) ne
  | write address value =>
    obtain ⟨c, mem, low, high⟩ := fits
    obtain rfl : _ = h := Option.some.inj run
    refine inv.store inv' (fun cell => ?_) fun i p at_i b mem' inside => ?_
    · unfold bytesAt at cell
      exact inv.not_block_of_lt mem (by omega) ⟨low, high⟩
    · have noTable : ¬ p.IsTable b := fun table =>
        written address value rfl p (List.mem_of_getElem? at_i) b table inside
      exact ⟨noTable, .inr ⟨value, rfl, noTable⟩⟩

/-- User code stores a byte. -/
theorem Inv.userStore (inv : s.Inv symbols managerPointer) (page : 4096 ≤ symbols.heapSize.toNat)
    {process : Nat} {address : BitVec 64} {value : BitVec 8}
    (allowed : Allowed symbols managerPointer s (.store process address value)) {p : ProcessSpace}
    (at_p : s.spaces[process]? = some p) {x : PhysicalAddress}
    (sent : (translate s.heap.memory p.root (.ofU64 address)).toOption = some x) :
    Advances symbols managerPointer (.store process address value) s
      (s.withMemory (store8 s.heap.memory x.getValue.toNat value)) := by
  have layout := heapManager_layout page
  obtain ⟨permitted, noCell⟩ := allowed p at_p
  obtain ⟨tables, held⟩ := inv.held p (List.mem_of_getElem? at_p)
  obtain ⟨pages, g, -, bottom, map, permits, -, translated⟩ := held.entries
  obtain ⟨e, entry, writable⟩ := (permits _ _).1 permitted
  have place := translated address
  rw [sent, entry, Option.map_some, Option.map_some, Option.some.injEq] at place
  have reached := map.user_page entry writable.2.1 (x := x.getValue.toNat) (by omega)
  rw [bottom] at reached
  have inv' : PageHeap.Inv (heapManager symbols)
      { s.heap with memory := store8 s.heap.memory x.getValue.toNat value } := by
    rcases reached with image | stack
    · have low := image.lt_heapStart
      obtain ⟨first, start, -⟩ := heapManager_bounds symbols
      refine inv.heap.frame (fun a _ _ => store8_apply_of_ne _ _ ?_)
        fun a _ _ => store8_apply_of_ne _ _ ?_
      · omega
      · omega
    · refine inv.heap.write layout (held.live _ held.stack) fun a outside =>
        store8_apply_of_ne _ _ ?_
      unfold bytesAt at stack
      simp only at outside
      omega
  refine inv.store inv' (noCell x sent) fun j q at_q b mem inside => ?_
  rcases reached with image | stack
  · obtain ⟨tables', held'⟩ := inv.held q (List.mem_of_getElem? at_q)
    exact absurd inside (inv.not_block_of_lt (held'.live b mem) image.lt_heapStart)
  · obtain ⟨rfl, rfl⟩ := inv.block_unique at_p at_q held.stack mem stack inside
    rw [at_p, Option.some.injEq] at at_q
    obtain rfl := at_q
    exact ⟨fun table => table.2.2 rfl, .inl ⟨address, value, rfl, rfl⟩⟩

/-- A process is created. -/
theorem Inv.create (inv : s.Inv symbols managerPointer) (page : 4096 ≤ symbols.heapSize.toNat)
    (below : managerPointer + 8 ≤ symbols.heapStart.toNat) {programCounter : BitVec 64}
    {p : ProcessSpace} {h : PageHeap}
    (run : createDummyProcess (heapManager symbols).allocStart symbols programCounter s.heap =
      some (p, h)) :
    Advances symbols managerPointer (.create programCounter) s
      { heap := h, spaces := s.spaces ++ [p] } := by
  obtain ⟨tables, held, took⟩ := createDummyProcess_held page inv.heap run
  have old := inv.took page below (e := .create programCounter) held.on.inv took
  refine ⟨⟨held.on.inv, old.inv.pointer, fun q mem => ?_, ?_⟩, fun i q at_i => ?_, old.changed⟩
  · rcases List.mem_append.1 mem with before | new
    · exact old.inv.held q before
    · rw [List.mem_singleton] at new
      exact ⟨tables, new ▸ held⟩
  · refine List.pairwise_append.2 ⟨inv.apart, List.pairwise_singleton _ _, fun q before r new => ?_⟩
    rw [List.mem_singleton] at new
    subst new
    obtain ⟨tables', held'⟩ := inv.held q before
    intro b mem c mem' same
    have ptrs := held.on.inv.ptrs_nodup
    rw [took.live, List.map_append, List.nodup_append] at ptrs
    exact ptrs.2.2 _ (List.mem_map_of_mem mem') _ (List.mem_map_of_mem (held'.live b mem))
      (congrArg Prod.fst same.symm)
  · obtain ⟨small, -⟩ := List.getElem?_eq_some_iff.1 at_i
    rwa [List.getElem?_append_left small]

/-- **Every step** keeps the invariant and changes of the processes only what it may. -/
theorem Inv.step (inv : s.Inv symbols managerPointer) (page : 4096 ≤ symbols.heapSize.toNat)
    (below : managerPointer + 8 ≤ symbols.heapStart.toNat) {fuel : Nat}
    (enough : (heapManager symbols).numberOfPages < fuel) {e : SpaceEvent} {s' : ProcessSpaces}
    (step : Step symbols managerPointer fuel s e s') : Advances symbols managerPointer e s s' := by
  obtain ⟨allowed, run⟩ := step
  cases e with
  | page a =>
    rw [ProcessSpaces.run, inv.the, Option.map_eq_some_iff] at run
    obtain ⟨h, run, rfl⟩ := run
    exact inv.page page below enough allowed run
  | setVariable address value =>
    obtain rfl : _ = s' := Option.some.inj run
    obtain ⟨low, noCell⟩ := allowed
    obtain ⟨first, start, -⟩ := heapManager_bounds symbols
    refine inv.store (inv.heap.frame (fun a _ _ => store8_apply_of_ne _ _ ?_)
      fun a _ _ => store8_apply_of_ne _ _ ?_) noCell fun i p at_i b mem inside => ?_
    · omega
    · omega
    · obtain ⟨tables, held⟩ := inv.held p (List.mem_of_getElem? at_i)
      exact absurd inside (inv.not_block_of_lt (held.live b mem) low)
  | create programCounter =>
    rw [ProcessSpaces.run, inv.the, Option.map_eq_some_iff] at run
    obtain ⟨⟨p, h⟩, run, rfl⟩ := run
    exact inv.create page below run
  | store process address value =>
    simp only [ProcessSpaces.run, Option.bind_eq_bind, Option.bind_eq_some_iff,
      Option.some.injEq] at run
    obtain ⟨p, at_p, x, sent, rfl⟩ := run
    exact inv.userStore page allowed at_p sent

theorem boot_inv (page : 4096 ≤ symbols.heapSize.toNat)
    (below : managerPointer + 8 ≤ symbols.heapStart.toNat) (m : Memory) :
    (boot symbols managerPointer m).Inv symbols managerPointer := by
  have bounds := heapBounds page
  obtain ⟨first, start, -⟩ := heapManager_bounds symbols
  have self := init_allocStart bounds m
  refine ⟨?_, ?_, fun p none => absurd none List.not_mem_nil, List.Pairwise.nil⟩
  · refine (init_inv bounds m).frame (fun a low high => store64_apply_of_outside _ _ ?_)
      fun a low high => store64_apply_of_outside _ _ ?_
    · change (heapManager symbols).allocStart ≤ a at low
      omega
    · change (heapManager symbols).firstPage ≤ a at low
      omega
  · exact (load64_store64 _ _ _).trans (congrArg _ self)

end Step

/-! ## Isolation -/

/-- What the page tables of the processes let user code reach, and where they lead. -/
structure Isolated (symbols : LinkerSymbols) (s : ProcessSpaces) : Prop where
  /-- User code reaches the image and the stack of its process. -/
  reach : ∀ p ∈ s.spaces, ∀ x, Grants s.heap.memory p.root (fun e => e.user = 1) x →
    InImage symbols x ∨ bytesAt p.stackBottom (PAGE_SIZE * STACK_PAGES) x
  /-- The stack is where the trap frame says, and can be read and written. -/
  stack : ∀ p ∈ s.spaces, ∀ i < PAGE_SIZE * STACK_PAGES,
    let a := STACK_ADDRESS - .ofNat 64 (PAGE_SIZE * STACK_PAGES) + .ofNat 64 i
    (translate s.heap.memory p.root (.ofU64 a)).toOption.map (·.getValue.toNat) =
        some (p.stackBottom + i) ∧
      Permits s.heap.memory p.root
        (fun e => e.UserReadable ∧ e.UserWritable) a
  /-- The trap vector finds the trap frame, which user code does not reach. -/
  frame : ∀ p ∈ s.spaces, ∀ i < PAGE_SIZE,
    let a := THREAD_FRAME_ADDRESS + .ofNat 64 i
    (translate s.heap.memory p.root (.ofU64 a)).toOption.map (·.getValue.toNat) =
        some (p.trapFrame + i) ∧
      ¬ Permits s.heap.memory p.root (fun e => e.user = 1) a
  /-- The root table, the trap frame and the stack are blocks of the process. -/
  own : ∀ p ∈ s.spaces, p.IsTable (p.root, 1) ∧ (p.trapFrame, 1) ∈ p.blocks ∧
    (p.stackBottom, STACK_PAGES) ∈ p.blocks
  /-- No byte belongs to two processes. -/
  apart : s.spaces.Pairwise fun p q => ∀ b ∈ p.blocks, ∀ c ∈ q.blocks,
    RegionsApart (b.1, PAGE_SIZE * b.2) (c.1, PAGE_SIZE * c.2)

theorem Inv.isolated {symbols : LinkerSymbols} {managerPointer : Nat} {s : ProcessSpaces}
    (inv : s.Inv symbols managerPointer) : s.Isolated symbols where
  reach p mem x granted := by
    obtain ⟨tables, held⟩ := inv.held p mem
    obtain ⟨pages, g, -, bottom, map, -, grants, -⟩ := held.entries
    obtain ⟨q, -, e, entry, user, place⟩ := (grants _ _).1 granted
    rw [← bottom]
    exact map.user_page entry user place
  stack p mem i small := by
    obtain ⟨tables, held⟩ := inv.held p mem
    obtain ⟨pages, g, -, bottom, map, permits, -, translated⟩ := held.entries
    obtain ⟨e, entry, ppn, readable, writable⟩ := map.stack_entry (i / 4096) (by
      unfold PAGE_SIZE STACK_PAGES at small
      omega)
    have aligned := pages.stackBottom_aligned
    have base : (STACK_ADDRESS - .ofNat 64 (PAGE_SIZE * STACK_PAGES)).toNat = 0xefffe000 := rfl
    unfold PAGE_SIZE STACK_PAGES at small base ⊢
    dsimp only
    have there : vpn (STACK_ADDRESS - .ofNat 64 (4096 * 2) + .ofNat 64 i) =
        stackFirst + i / 4096 := by
      rw [vpn_add, base]
      unfold stackFirst
      omega
    have offset : (STACK_ADDRESS - .ofNat 64 (4096 * 2) + .ofNat 64 i).toNat % 4096 = i % 4096 := by
      rw [BitVec.toNat_add, base, BitVec.toNat_ofNat]
      omega
    rw [translated, permits, there, entry, offset, Option.map_some, Option.some.injEq]
    exact ⟨by omega, e, rfl, readable, writable⟩
  frame p mem i small := by
    obtain ⟨tables, held⟩ := inv.held p mem
    obtain ⟨pages, g, frame, -, map, permits, -, translated⟩ := held.entries
    obtain ⟨e, entry, ppn, kernel⟩ := map.frame_entry
    have aligned := pages.trapFrame_aligned
    have base : THREAD_FRAME_ADDRESS.toNat = 4096 := rfl
    unfold PAGE_SIZE at small
    dsimp only
    have there : vpn (THREAD_FRAME_ADDRESS + .ofNat 64 i) = 1 := by
      rw [vpn_add, base]
      omega
    have offset : (THREAD_FRAME_ADDRESS + .ofNat 64 i).toNat % 4096 = i := by
      rw [BitVec.toNat_add, base, BitVec.toNat_ofNat]
      omega
    rw [translated, permits, there, entry, offset, Option.map_some, Option.some.injEq]
    refine ⟨by omega, fun reached => ?_⟩
    obtain ⟨e', same, user⟩ := reached
    rw [← Option.some.inj same, kernel] at user
    cases user
  own p mem := by
    obtain ⟨tables, held⟩ := inv.held p mem
    exact ⟨held.tables p.root List.mem_cons_self, held.frame, held.stack⟩
  apart := by
    refine inv.apart.imp_of_mem fun {p q} memP memQ apart b mem c mem' => ?_
    obtain ⟨tables, held⟩ := inv.held p memP
    obtain ⟨tables', held'⟩ := inv.held q memQ
    exact inv.heap.blocks_apart (held.live b mem) (held'.live c mem') (apart b mem c mem')

end ProcessSpaces

/-- A process for each entry point, where there is room for all of them. -/
theorem ProcessSpaces.Inv.create_all {symbols : LinkerSymbols} {managerPointer : Nat}
    {s : ProcessSpaces} (inv : s.Inv symbols managerPointer) (page : 4096 ≤ symbols.heapSize.toNat)
    (below : managerPointer + 8 ≤ symbols.heapStart.toNat) (fuel : Nat)
    (programCounters : List (BitVec 64)) {n : Nat}
    (room : HasRoom s.heap (heapManager symbols).allocStart
      (n + programCounters.length * (2 * imagePages symbols + 10))) :
    ∃ s', Transition.Run (ProcessSpaces.Step symbols managerPointer fuel) s
        (programCounters.map .create) s' ∧
      s'.spaces.length = s.spaces.length + programCounters.length ∧
      HasRoom s'.heap (heapManager symbols).allocStart n := by
  induction programCounters generalizing s with
  | nil =>
    rw [List.length_nil, Nat.zero_mul] at room
    exact ⟨s, .nil s, rfl, room⟩
  | cons programCounter rest ih =>
    rw [List.length_cons, Nat.add_one_mul, ← Nat.add_assoc] at room
    obtain ⟨p, h, made, room₁⟩ := createDummyProcess_room page inv.heap programCounter room
    have inv₁ := (inv.create page below made).inv
    obtain ⟨s', run, count, room'⟩ := ih inv₁ room₁
    refine ⟨s', .cons ⟨trivial, ?_⟩ run, ?_, room'⟩
    · rw [ProcessSpaces.run, inv.the, made]
      rfl
    · rw [count, List.length_append, List.length_singleton, List.length_cons]
      omega

/-- After `init`, all pages but the first are free. -/
theorem ProcessSpaces.boot_room {symbols : LinkerSymbols} (page : 4096 ≤ symbols.heapSize.toNat)
    {managerPointer : Nat} (below : managerPointer + 8 ≤ symbols.heapStart.toNat) (m : Memory)
    {pages : Nat} (le : 1 + pages ≤ symbols.heapSize.toNat / 4096) :
    HasRoom (ProcessSpaces.boot symbols managerPointer m).heap (heapManager symbols).allocStart
      pages := by
  have bounds := heapBounds page
  refine (init_hasRoom bounds m le).congr (init_inv bounds m)
    (ProcessSpaces.boot_inv page below m).heap fun x cell => store64_apply_of_outside _ _ ?_
  have first := (heapManager_bounds symbols).1
  have low := cell.1
  change (heapManager symbols).firstPage ≤ x at low
  omega

/-- The invariant holds in every state of a run from boot. -/
theorem ProcessSpaces.run_inv {symbols : LinkerSymbols} (page : 4096 ≤ symbols.heapSize.toNat)
    {managerPointer : Nat} (place : symbols.bssStart.toNat ≤ managerPointer ∧
      managerPointer + 8 ≤ symbols.bssEnd.toNat) {fuel : Nat}
    (enough : symbols.heapSize.toNat / 4096 < fuel) (m : Memory) {es : List SpaceEvent}
    {s : ProcessSpaces}
    (run : Transition.Run (ProcessSpaces.Step symbols managerPointer fuel)
      (ProcessSpaces.boot symbols managerPointer m) es s) : s.Inv symbols managerPointer := by
  have start := symbols.heapStart_toNat
  have below : managerPointer + 8 ≤ symbols.heapStart.toNat := by omega
  exact run.invariant (fun s e s' inv step => (inv.step page below enough step).inv)
    (ProcessSpaces.boot_inv page below m)

/-- **Processes stay apart.** In every state of a run from boot, user code of a process reaches only
the image and its own stack, and the stack and the trap frame are where the kernel put them; and
every further step keeps the processes, and changes a byte of a process only if it is a store of that
process to its stack or a write of the kernel that is not to a page table. -/
theorem processes_stay_apart {symbols : LinkerSymbols} (page : 4096 ≤ symbols.heapSize.toNat)
    {managerPointer : Nat} (place : symbols.bssStart.toNat ≤ managerPointer ∧
      managerPointer + 8 ≤ symbols.bssEnd.toNat) {fuel : Nat}
    (enough : symbols.heapSize.toNat / 4096 < fuel) (m : Memory) {es : List SpaceEvent}
    {s : ProcessSpaces}
    (run : Transition.Run (ProcessSpaces.Step symbols managerPointer fuel)
      (ProcessSpaces.boot symbols managerPointer m) es s) :
    s.Isolated symbols ∧
      ∀ e s', ProcessSpaces.Step symbols managerPointer fuel s e s' →
        ∀ (i : Nat) (p : ProcessSpace), s.spaces[i]? = some p → s'.spaces[i]? = some p ∧
          ∀ b ∈ p.blocks, ∀ x, bytesAt b.1 (PAGE_SIZE * b.2) x →
            s'.heap.memory x ≠ s.heap.memory x → ProcessSpaces.MayChange e i p b x := by
  have start := symbols.heapStart_toNat
  have below : managerPointer + 8 ≤ symbols.heapStart.toNat := by omega
  have inv := ProcessSpaces.run_inv page place enough m run
  refine ⟨inv.isolated, fun e s' step i p at_i => ?_⟩
  have advances := inv.step page below enough step
  exact ⟨advances.spaces i p at_i, advances.changed i p at_i⟩

theorem smallImage_room : HasRoom (ProcessSpaces.boot smallImage 0x86005000 fun _ => 0).heap
    (heapManager smallImage).allocStart 44 :=
  ProcessSpaces.boot_room (by decide) (by decide) _ (by decide)

theorem processes_stay_apart_two : ∃ s, Transition.Run (ProcessSpaces.Step smallImage 0x86005000 40000)
      (ProcessSpaces.boot smallImage 0x86005000 fun _ => 0) [.create 0x86000000, .create 0x86000010] s ∧
    s.spaces.length = 2 ∧ s.Isolated smallImage := by
  have inv := @ProcessSpaces.boot_inv smallImage 0x86005000 (by decide) (by decide) fun _ => 0
  obtain ⟨s, run, two, -⟩ := inv.create_all (by decide) (by decide) 40000 [0x86000000, 0x86000010]
    (n := 0) smallImage_room
  exact ⟨s, run, two, (processes_stay_apart (by decide) (by decide) (by decide) _ run).1⟩

end MatteOS.Processes
