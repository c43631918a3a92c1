import MatteOS.Memory.Verify.KernelMemory
import MatteOS.Processes.ProcessObjects
import MatteOS.Processes.Verify.ProcessSpaces

/-!
# Processes can be created

`create_dummy_process` succeeds while the page allocator has a run of free pages for the process and
the kernel heap a free chunk for its objects. Each `kmalloc` takes from that chunk or from another,
and what is left of it still holds the objects to come (`HasChunk`). The heap writes within its arena
only, which is a block of the kernel, so that nothing of a process changes.
-/

namespace MatteOS.Memory

open ByteMemory KernelMemoryAllocator

/-! ## A chunk for objects -/

/-- The kernel heap has a free chunk of `n` bytes, if any are wanted. -/
def HasChunk (k : KernelMemoryAllocator) (m : Memory) (n : Nat) : Prop :=
  ∃ cs, Walk k m cs ∧ (0 < n → ∃ c ∈ cs, Fits n c)

/-- What objects of these sizes take, with their headers. -/
def neededAll (sizes : List (BitVec 64)) : Nat := (sizes.map needed).sum

/-- The objects have a size, and one that can be rounded up. -/
def Sized (sizes : List (BitVec 64)) : Prop := ∀ sz ∈ sizes, 1 ≤ sz.toNat ∧ sz.toNat ≤ 2 ^ 63

theorem neededAll_pos {sizes : List (BitVec 64)} (sized : Sized sizes) :
    neededAll sizes = 0 ∨ 16 ≤ neededAll sizes := by
  cases sizes with
  | nil => exact .inl rfl
  | cons sz sizes =>
    have pos := (sized sz List.mem_cons_self).1
    refine .inr ?_
    rw [neededAll, List.map_cons, List.sum_cons]
    unfold needed
    omega

theorem neededAll_append (sizes sizes' : List (BitVec 64)) :
    neededAll (sizes ++ sizes') = neededAll sizes + neededAll sizes' := by
  rw [neededAll, List.map_append, List.sum_append]
  rfl

section

variable {k : KernelMemoryAllocator} {m : Memory} {n : Nat}

theorem HasChunk.congr (chunk : HasChunk k m n) {m' : Memory}
    (same : ∀ x, k.head ≤ x → x < k.head + k.totalSize → m' x = m x) : HasChunk k m' n := by
  obtain ⟨cs, walk, fits⟩ := chunk
  exact ⟨cs, walk.congr same, fits⟩

/-- What is left of a chunk that is recut. -/
theorem fits_splitChunk {size : Nat} {c : AllocHeader} (large : size + n ≤ c.getSize)
    (more : 8 < n) : ∃ d ∈ splitChunk size c, Fits n d := by
  have bound := c.size.isLt
  unfold AllocHeader.getSize at large
  unfold splitChunk
  rw [if_pos (by unfold AllocHeader.getSize; omega)]
  refine ⟨_, List.mem_cons_of_mem _ List.mem_cons_self, rfl, ?_⟩
  rw [AllocHeader.getSize, BitVec.toNat_ofNat, Nat.mod_eq_of_lt (by unfold AllocHeader.getSize; omega)]
  unfold AllocHeader.getSize
  omega

/-- `kmalloc` serves an object from the chunk, or from another one. -/
theorem HasChunk.kmalloc (arena : k.Arena) {sz : BitVec 64} (pos : 1 ≤ sz.toNat)
    (le : sz.toNat ≤ 2 ^ 63) (rest : n = 0 ∨ 16 ≤ n) (chunk : HasChunk k m (needed sz + n))
    {fuel : Nat} (enough : k.totalSize < fuel) :
    ∃ ptr m', k.kmalloc fuel m sz = some (ptr, m') ∧ ptr ≠ 0 ∧ HasChunk k m' n ∧ k.StaysIn m m' := by
  obtain ⟨cs, walk, fits⟩ := chunk
  have low : 16 ≤ needed sz := by
    unfold needed
    omega
  have dvd : 8 ∣ needed sz := by
    unfold needed
    omega
  obtain ⟨c, mem, free, large⟩ := fits (by omega)
  have fit : ∃ c ∈ cs, Fits (needed sz) c := ⟨c, mem, free, by omega⟩
  obtain ⟨l, d, r, rfl, fitD, -, run⟩ := kmalloc_spec arena walk pos le fit enough
  obtain ⟨walk', -, -⟩ := takeChunk_walk walk (needed sz) fitD low dvd rfl
  refine ⟨_, _, run, by omega, ⟨_, walk', fun some => ?_⟩, kmalloc_staysIn arena walk pos le fit enough run⟩
  have fitC : Fits n c := ⟨free, by omega⟩
  simp only [List.mem_append, List.mem_cons] at mem
  rcases mem with before | rfl | behind
  · exact ⟨c, by simp [before], fitC⟩
  · obtain ⟨e, cut, fitE⟩ := fits_splitChunk large (by omega)
    exact ⟨e, by simp [cut], fitE⟩
  · exact ⟨c, by simp [behind], fitC⟩

/-- All objects are served. -/
theorem HasChunk.newObjects (arena : k.Arena) {sizes : List (BitVec 64)} (sized : Sized sizes)
    (rest : n = 0 ∨ 16 ≤ n) (chunk : HasChunk k m (neededAll sizes + n)) {fuel : Nat}
    (enough : k.totalSize < fuel) :
    ∃ m', k.newObjects fuel m sizes = some m' ∧ HasChunk k m' n ∧ k.StaysIn m m' := by
  induction sizes generalizing m with
  | nil =>
    refine ⟨m, rfl, ?_, fun _ _ => rfl⟩
    rwa [show neededAll [] = 0 from rfl, Nat.zero_add] at chunk
  | cons sz sizes ih =>
    obtain ⟨pos, le⟩ := sized sz List.mem_cons_self
    have sized' : Sized sizes := fun sz' mem => sized sz' (List.mem_cons_of_mem sz mem)
    have rest' : neededAll sizes + n = 0 ∨ 16 ≤ neededAll sizes + n := by
      have := neededAll_pos sized'
      omega
    rw [neededAll, List.map_cons, List.sum_cons, Nat.add_assoc] at chunk
    obtain ⟨ptr, m₁, run, ne, chunk₁, stays⟩ := chunk.kmalloc arena pos le rest' enough
    obtain ⟨m', run', chunk', stays'⟩ := ih sized' chunk₁
    refine ⟨m', ?_, chunk', fun x outside => (stays' x outside).trans (stays x outside)⟩
    rw [KernelMemoryAllocator.newObjects, List.foldlM_cons, run, Option.bind_eq_bind, Option.bind_some,
      if_neg ne, Option.bind_some]
    exact run'

end

end MatteOS.Memory

namespace MatteOS.Processes

open ByteMemory Memory KernelMemoryAllocator ObjectStore

/-! ## The kernel heap beside the processes -/

/-- The arena of the kernel heap is a block of its own, with a free chunk of `n` bytes in it. -/
structure ProcessSpaces.HasKernelHeap (k : KernelMemoryAllocator) (s : ProcessSpaces) (n : Nat) : Prop where
  arena : k.Arena
  whole : k.totalSize = PAGE_SIZE * ALLOCATION_SIZE
  live : (k.head, ALLOCATION_SIZE) ∈ s.heap.live
  apart : ∀ p ∈ s.spaces, (k.head, ALLOCATION_SIZE) ∉ p.blocks
  chunk : HasChunk k s.heap.memory n

namespace ProcessSpaces

variable {symbols : LinkerSymbols} {managerPointer : Nat} {s : ProcessSpaces}
  {k : KernelMemoryAllocator} {n : Nat}

/-- What the kernel heap does to its arena, it does to no process. -/
theorem Inv.staysIn (inv : s.Inv symbols managerPointer) (page : 4096 ≤ symbols.heapSize.toNat)
    (below : managerPointer + 8 ≤ symbols.heapStart.toNat) (kernel : s.HasKernelHeap k n) {m : Memory}
    (stays : k.StaysIn s.heap.memory m) : (s.withMemory m).Inv symbols managerPointer := by
  have layout := heapManager_layout page
  have whole := kernel.whole
  have behind := inv.heap.allocStart_lt kernel.live
  have start := (heapManager_bounds symbols).2.1
  simp only at behind
  refine (inv.advances (e := .create 0) (inv.heap.write layout kernel.live fun x outside => stays x ?_)
    (fun x inside => stays x ?_) (fun p mem b mem' => ?_) fun i p at_i b mem x inside ne => ?_).inv
  · simp only at outside
    omega
  · unfold bytesAt at inside
    omega
  · obtain ⟨tables, held⟩ := inv.held p mem
    exact held.live b mem'
  · obtain ⟨tables, held⟩ := inv.held p (List.mem_of_getElem? at_i)
    have other : b ≠ (k.head, ALLOCATION_SIZE) := by
      rintro rfl
      exact kernel.apart p (List.mem_of_getElem? at_i) mem
    have apart := inv.heap.blocks_apart (held.live b mem) kernel.live other
    unfold RegionsApart at apart
    unfold bytesAt at inside
    simp only at apart
    exact absurd (stays x (by omega)) ne

/-- A process is created with its objects, where there is room for both. -/
theorem Inv.createWithObjects (inv : s.Inv symbols managerPointer)
    (page : 4096 ≤ symbols.heapSize.toNat) (below : managerPointer + 8 ≤ symbols.heapStart.toNat)
    {fuel : Nat} (enough : PAGE_SIZE * ALLOCATION_SIZE < fuel)
    (creation : BitVec 64 × List (BitVec 64)) (sized : Sized creation.2) {pages : Nat}
    (room : HasRoom s.heap (heapManager symbols).allocStart (pages + (2 * imagePages symbols + 10)))
    (rest : n = 0 ∨ 16 ≤ n) (kernel : s.HasKernelHeap k (neededAll creation.2 + n)) :
    ∃ s', s.createWithObjects symbols managerPointer k fuel creation = some s' ∧
      s'.Inv symbols managerPointer ∧ s'.spaces.length = s.spaces.length + 1 ∧
      HasRoom s'.heap (heapManager symbols).allocStart pages ∧ s'.HasKernelHeap k n := by
  have layout := heapManager_layout page
  obtain ⟨p, h, made, room₁⟩ := createDummyProcess_room page inv.heap creation.1 room
  obtain ⟨tables, held, took⟩ := createDummyProcess_held page inv.heap made
  have inv₁ := (inv.create page below made).inv
  have whole := kernel.whole
  -- the pages of the process are not in the arena
  have live : (k.head, ALLOCATION_SIZE) ∈ h.live := by
    rw [took.live]
    exact List.mem_append_right _ kernel.live
  have fresh : (k.head, ALLOCATION_SIZE) ∉ p.blocks := by
    intro mem
    have ptrs := held.on.inv.ptrs_nodup
    rw [took.live, List.map_append, List.nodup_append] at ptrs
    exact ptrs.2.2 _ (List.mem_map_of_mem mem) _ (List.mem_map_of_mem kernel.live) rfl
  have chunk : HasChunk k h.memory (neededAll creation.2 + n) := by
    refine kernel.chunk.congr fun x low high => took.older held.on.inv layout kernel.live x ?_
    rw [whole] at high
    exact ⟨low, high⟩
  obtain ⟨m, run, chunk', stays⟩ := chunk.newObjects kernel.arena sized rest (whole ▸ enough)
  have apart : ∀ q ∈ s.spaces ++ [p], (k.head, ALLOCATION_SIZE) ∉ q.blocks := by
    intro q mem
    rcases List.mem_append.1 mem with before | new
    · exact kernel.apart q before
    · rw [List.mem_singleton] at new
      exact new ▸ fresh
  have kernel₁ : ProcessSpaces.HasKernelHeap k ⟨h, s.spaces ++ [p]⟩ (neededAll creation.2 + n) :=
    ⟨kernel.arena, whole, live, apart, chunk⟩
  refine ⟨(ProcessSpaces.mk h (s.spaces ++ [p])).withMemory m, ?_,
    inv₁.staysIn page below kernel₁ stays, ?_, ?_, ⟨kernel.arena, whole, live, apart, chunk'⟩⟩
  · rw [ProcessSpaces.createWithObjects, ProcessSpaces.run, inv.the, made, Option.map_some,
      Option.bind_eq_bind, Option.bind_some, run]
    rfl
  · rw [ProcessSpaces.withMemory, List.length_append, List.length_singleton]
  · refine room₁.write held.on.inv layout live fun x outside => stays x ?_
    simp only at outside
    omega

/-- One after the other. -/
theorem Inv.create_all_objects (inv : s.Inv symbols managerPointer)
    (page : 4096 ≤ symbols.heapSize.toNat) (below : managerPointer + 8 ≤ symbols.heapStart.toNat)
    {fuel : Nat} (enough : PAGE_SIZE * ALLOCATION_SIZE < fuel)
    {creations : List (BitVec 64 × List (BitVec 64))} (sized : Sized (creations.flatMap Prod.snd))
    (room : HasRoom s.heap (heapManager symbols).allocStart
      (creations.length * (2 * imagePages symbols + 10)))
    (kernel : s.HasKernelHeap k (neededAll (creations.flatMap Prod.snd))) :
    ∃ s', creations.foldlM (ProcessSpaces.createWithObjects symbols managerPointer k fuel) s = some s' ∧
      s'.Inv symbols managerPointer ∧ s'.spaces.length = s.spaces.length + creations.length := by
  induction creations generalizing s with
  | nil => exact ⟨s, rfl, inv, rfl⟩
  | cons c creations ih =>
    rw [List.flatMap_cons] at sized kernel
    rw [neededAll_append] at kernel
    rw [List.length_cons, Nat.add_one_mul] at room
    have later : Sized (creations.flatMap Prod.snd) := fun sz mem =>
      sized sz (List.mem_append_right _ mem)
    obtain ⟨s₁, run, inv₁, count, room₁, kernel₁⟩ := inv.createWithObjects page below enough c
      (fun sz mem => sized sz (List.mem_append_left _ mem)) room (neededAll_pos later) kernel
    obtain ⟨s', run', inv', count'⟩ := ih inv₁ later room₁ kernel₁
    refine ⟨s', ?_, inv', ?_⟩
    · rw [List.foldlM_cons, run]
      exact run'
    · rw [count', count, List.length_cons]
      omega

end ProcessSpaces

/-! ## The heap at boot -/

/-- The first pages behind the manager. -/
def bootArena (symbols : LinkerSymbols) : KernelMemoryAllocator where
  head := (heapManager symbols).allocStart + PAGE_SIZE
  totalSize := ALLOCATION_SIZE * PAGE_SIZE

/-- The constructor of the kernel heap: the only byte of its first header that is not 0 is the third,
which makes the size `64 * 4096`. -/
def bootArenaEvents (symbols : LinkerSymbols) : List SpaceEvent :=
  [.page (.zalloc ALLOCATION_SIZE), .page (.write ((bootArena symbols).head + 2) 4)]

/-- The header of a chunk that is the whole arena. -/
theorem load_firstHeader {m : Memory} {a : Nat} (clear : ∀ x, a ≤ x → x < a + 8 → m x = 0) :
    AllocHeader.load (store8 m (a + 2) 4) a = { size := 262144, taken := 0 } := by
  have same : AllocHeader.load (store8 m (a + 2) 4) a =
      AllocHeader.load (store8 (fun _ => 0) (a + 2) 4) a := AllocHeader.load_congr fun x low high => by
    unfold store8
    split
    · rfl
    · exact clear x low high
  rw [same, AllocHeader.load, load64]
  simp only [store8_apply_self, store8_apply_of_ne _ _ (by omega : a + 7 ≠ a + 2),
    store8_apply_of_ne _ _ (by omega : a + 6 ≠ a + 2), store8_apply_of_ne _ _ (by omega : a + 5 ≠ a + 2),
    store8_apply_of_ne _ _ (by omega : a + 4 ≠ a + 2), store8_apply_of_ne _ _ (by omega : a + 3 ≠ a + 2),
    store8_apply_of_ne _ _ (by omega : a + 1 ≠ a + 2), store8_apply_of_ne _ _ (by omega : a ≠ a + 2)]
  decide

namespace ProcessSpaces

/-- The heap after the arena was taken, with what its pages held before. -/
def afterArena (symbols : LinkerSymbols) (m : Memory) : ProcessSpaces where
  heap := {
    memory := clear m (bootArena symbols).head (PAGE_SIZE * ALLOCATION_SIZE)
    live := [((bootArena symbols).head, ALLOCATION_SIZE)] }
  spaces := []

section

variable {symbols : LinkerSymbols} {managerPointer : Nat}
  (below : managerPointer + 8 ≤ symbols.heapStart.toNat) (page : 4096 ≤ symbols.heapSize.toNat)

include below page

/-- `MemoryManager::init` leaves the first page taken. -/
theorem boot_firstTaken (m : Memory) :
    FirstTaken (heapManager symbols) (boot symbols managerPointer m).heap.memory 1 := by
  obtain ⟨first, start, -⟩ := heapManager_bounds symbols
  refine (init_firstTaken (heapBounds page) m).congr (fun a inside => ?_) fun a inside => ?_
  · have low : (heapManager symbols).allocStart ≤ a := inside.1
    exact store64_apply_of_outside _ _ (.inr (by omega))
  · have low : (heapManager symbols).firstPage ≤ a := inside.1
    exact store64_apply_of_outside _ _ (.inr (by omega))

/-- The arena is the run of pages behind the first one. -/
theorem boot_takes_arena (fits : 65 ≤ symbols.heapSize.toNat / 4096) (m : Memory) (fuel : Nat) :
    ∃ m₁, ProcessSpaces.Step symbols managerPointer fuel (boot symbols managerPointer m)
        (.page (.zalloc ALLOCATION_SIZE)) (afterArena symbols m₁) ∧
      FirstTaken (heapManager symbols) (afterArena symbols m₁).heap.memory 65 := by
  have the := (boot_inv page below m).the
  have head : (bootArena symbols).head = (heapManager symbols).allocStart + 4096 := rfl
  have all : 1 + ALLOCATION_SIZE ≤ (heapManager symbols).numberOfPages := fits
  obtain ⟨m₁, run, taken, -⟩ :=
    (boot_firstTaken below page m).zalloc (heapManager_layout page) (by decide) le_rfl all
  change MemoryManager.zalloc _ _ _ =
    ((bootArena symbols).head, (afterArena symbols m₁).heap.memory) at run
  refine ⟨m₁, ⟨⟨⟨by decide, ?_⟩, fun ptr is => ?_, fun x v is => ?_⟩, ?_⟩, taken⟩
  · rw [the]
    exact boot_room page below m fits
  · cases is
  · cases is
  · rw [ProcessSpaces.run, the, PageAction.run, run, PageHeap.returned, if_neg (by omega),
      Option.map_some]
    rfl

omit below page in
/-- The first header is written into the arena. -/
theorem afterArena_writes_header (m : Memory) (fuel : Nat) :
    ProcessSpaces.Step symbols managerPointer fuel (afterArena symbols m)
      (.page (.write ((bootArena symbols).head + 2) 4))
      ((afterArena symbols m).withMemory
        (store8 (afterArena symbols m).heap.memory ((bootArena symbols).head + 2) 4)) := by
  refine ⟨⟨⟨_, List.mem_singleton_self _, Nat.le_add_right _ 2, ?_⟩, fun ptr is => ?_,
    fun x v _ p none => absurd none List.not_mem_nil⟩, rfl⟩
  · unfold PAGE_SIZE ALLOCATION_SIZE
    omega
  · cases is

omit below in
/-- What the constructor leaves is one free chunk, the arena. -/
theorem afterArena_hasKernelHeap {bytes : Nat} (le : bytes ≤ 262144) (m : Memory) :
    ((afterArena symbols m).withMemory
      (store8 (afterArena symbols m).heap.memory ((bootArena symbols).head + 2) 4)).HasKernelHeap
      (bootArena symbols) bytes := by
  have layout := heapManager_layout page
  have aligned := layout.aligned
  have head : (bootArena symbols).head = (heapManager symbols).allocStart + 4096 := rfl
  have size : (bootArena symbols).totalSize = 262144 := rfl
  have bound := (heapManager_bounds symbols).2.2
  have first := @load_firstHeader (afterArena symbols m).heap.memory (bootArena symbols).head
    fun x low high => clear_apply_inside _ low (by unfold PAGE_SIZE ALLOCATION_SIZE; omega)
  refine ⟨⟨?_, ?_, ?_⟩, rfl, List.mem_singleton_self _, fun p none => absurd none List.not_mem_nil,
    [{ size := 262144, taken := 0 }], ⟨⟨first, trivial⟩, rfl, ?_⟩,
    fun _ => ⟨_, List.mem_singleton_self _, by decide, le.trans (by decide)⟩⟩
  · unfold PAGE_SIZE at aligned
    omega
  · omega
  · omega
  · simp only [List.mem_singleton, forall_eq]
    decide

/-- The constructor leaves the arena as one free chunk, and the pages behind it free. -/
theorem bootArena_run {fuel pages : Nat} (enough : 65 + pages ≤ symbols.heapSize.toNat / 4096)
    (enough' : symbols.heapSize.toNat / 4096 < fuel) {bytes : Nat} (le : bytes ≤ 262144) (m : Memory) :
    ∃ s, Transition.Run (ProcessSpaces.Step symbols managerPointer fuel)
        (ProcessSpaces.boot symbols managerPointer m) (bootArenaEvents symbols) s ∧
      HasRoom s.heap (s.the managerPointer) pages ∧ s.HasKernelHeap (bootArena symbols) bytes := by
  obtain ⟨m₁, step₁, taken⟩ := boot_takes_arena below page (by omega) m fuel
  have step₂ := @afterArena_writes_header symbols managerPointer m₁ fuel
  have inv₁ := ((boot_inv page below m).step page below enough' step₁).inv
  have inv₂ := (inv₁.step page below enough' step₂).inv
  refine ⟨_, .cons step₁ (.cons step₂ (.nil _)), ?_, afterArena_hasKernelHeap page le m₁⟩
  have descriptors := (heapManager_layout page).descriptors
  have first := (heapManager_layout page).first
  have head : (bootArena symbols).head = (heapManager symbols).allocStart + 4096 := rfl
  have number : (heapManager symbols).numberOfPages = symbols.heapSize.toNat / 4096 := rfl
  have taken₂ : FirstTaken (heapManager symbols)
      ((afterArena symbols m₁).withMemory (store8 (afterArena symbols m₁).heap.memory
        ((bootArena symbols).head + 2) 4)).heap.memory 65 := by
    refine taken.congr (fun a inside => store8_apply_of_ne _ _ ?_)
      fun a inside => store8_apply_of_ne _ _ ?_
    all_goals
      unfold bytesAt at inside
      omega
  rw [inv₂.the, HasRoom, taken₂.manager]
  exact ⟨65, by omega, fun j low high => (taken₂.free j (by omega)).2 low⟩

end

end ProcessSpaces

/-! ## Room for processes -/

/-- **Processes can be created while there is room for them.** In every state of a run from boot, if
`2 * imagePages + 10` consecutive pages for each of some processes are free, and the arena of the
kernel heap is a block of its own with a free chunk for all their objects, then all of them can be
created, one after the other, and they are apart. -/
theorem processes_can_be_created {symbols : LinkerSymbols} (page : 4096 ≤ symbols.heapSize.toNat)
    {managerPointer : Nat} (place : symbols.bssStart.toNat ≤ managerPointer ∧
      managerPointer + 8 ≤ symbols.bssEnd.toNat) {fuel : Nat}
    (enough : symbols.heapSize.toNat / 4096 < fuel)
    (enough' : PAGE_SIZE * ALLOCATION_SIZE < fuel) (m : Memory)
    {es : List SpaceEvent} {s : ProcessSpaces}
    (run : Transition.Run (ProcessSpaces.Step symbols managerPointer fuel)
      (ProcessSpaces.boot symbols managerPointer m) es s)
    {creations : List (BitVec 64 × List (BitVec 64))} (sized : Sized (creations.flatMap Prod.snd))
    (room : HasRoom s.heap (s.the managerPointer)
      (creations.length * (2 * imagePages symbols + 10)))
    {k : KernelMemoryAllocator} (kernel : s.HasKernelHeap k (neededAll (creations.flatMap Prod.snd))) :
    ∃ s', creations.foldlM (ProcessSpaces.createWithObjects symbols managerPointer k fuel) s = some s' ∧
      s'.spaces.length = s.spaces.length + creations.length ∧ s'.Isolated symbols := by
  have inv := ProcessSpaces.run_inv page place enough m run
  have start := symbols.heapStart_toNat
  have below : managerPointer + 8 ≤ symbols.heapStart.toNat := by omega
  rw [inv.the] at room
  obtain ⟨s', created, inv', count⟩ := inv.create_all_objects page below enough' sized room kernel
  exact ⟨s', created, count, inv'.isolated⟩

/-- Two processes with a thread, a process with its table, a list of threads, a longer
`m_process_list` and an entry of `m_run_queue` each. -/
def twoCreations : List (BitVec 64 × List (BitVec 64)) :=
  [(0x86000000, [32, 2160, 64, 128, 16]), (0x86000010, [32, 2160, 64, 128, 16])]

theorem processes_can_be_created_two : ∃ s s',
    Transition.Run (ProcessSpaces.Step smallImage 0x86005000 300000)
      (ProcessSpaces.boot smallImage 0x86005000 fun _ => 0) (bootArenaEvents smallImage) s ∧
    twoCreations.foldlM
      (ProcessSpaces.createWithObjects smallImage 0x86005000 (bootArena smallImage) 300000) s =
        some s' ∧
    s'.spaces.length = s.spaces.length + 2 ∧ s'.Isolated smallImage := by
  have sized : Sized (twoCreations.flatMap Prod.snd) := by simp [Sized, twoCreations]
  obtain ⟨s, run, room, kernel⟩ := @ProcessSpaces.bootArena_run smallImage 0x86005000 (by decide)
    (by decide) 300000 (twoCreations.length * (2 * imagePages smallImage + 10)) (by decide) (by decide)
    (neededAll (twoCreations.flatMap Prod.snd)) (by decide) fun _ => 0
  obtain ⟨s', created⟩ := @processes_can_be_created smallImage (by decide) 0x86005000 (by decide) 300000
    (by decide) (by decide) (fun _ => 0) _ s run twoCreations sized room _ kernel
  exact ⟨s, s', run, created⟩

end MatteOS.Processes
