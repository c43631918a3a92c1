import MatteOS.Memory.Verify.Permissions
import MatteOS.Processes.AddressSpace

/-!
# What a process may touch

The pages of an address space made by `create_dummy_process` are those of the kernel image, mapped
to themselves, the trap frame, which user code may not touch, and the stack, which it may
(`SpaceMap`). Nothing that user code may touch lies right beside something else it may touch, so a
run of bytes is permitted exactly where its addresses are (`SpaceMap.grants_iff_permits`).
-/

namespace MatteOS.Processes

open ByteMemory Memory EntryBits Traps

/-- What `zalloc` returns in `create_dummy_process`: pages of the heap, none of them twice. -/
structure ProcessPages (symbols : LinkerSymbols) (root : Nat) extends PageSource root where
  trapFrame : Nat
  stackBottom : Nat
  trapFrame_aligned : 4096 ∣ trapFrame
  stackBottom_aligned : 4096 ∣ stackBottom
  trapFrame_heap : symbols.heapStart.toNat ≤ trapFrame ∧ trapFrame < 2 ^ 56
  stackBottom_heap : symbols.heapStart.toNat ≤ stackBottom ∧ stackBottom + 4096 < 2 ^ 56
  trapFrame_apart : trapFrame ≠ root ∧ trapFrame ≠ stackBottom ∧ trapFrame ≠ stackBottom + 4096 ∧
    ∀ n < limit, trapFrame ≠ page n
  stackBottom_apart : stackBottom ≠ root ∧ stackBottom + 4096 ≠ root ∧
    ∀ n < limit, stackBottom ≠ page n ∧ stackBottom + 4096 ≠ page n

/-- The memory in which `create_dummy_process` has made the page table at `root`. User code may
have changed what is not in the tables. -/
def HasAddressSpace {symbols : LinkerSymbols} {root : Nat} (pages : ProcessPages symbols root)
    (m : Memory) : Prop :=
  ∃ (m₀ : Memory) (programCounter : BitVec 64),
    let made := createDummyProcess pages.page symbols root pages.trapFrame pages.stackBottom
      programCounter m₀
    made.zallocs ≤ pages.limit ∧
      AgreeOn (tableMemory pages.toPageSource made.zallocs) made.memory m

/-! ## The pages of an address space -/

def imageFirst : Nat := MEMORY_START.toNat / 4096

def imageEnd (symbols : LinkerSymbols) : Nat := (symbols.bssEnd.toNat + 4095) / 4096

/-- The first of the two pages of the stack. -/
def stackFirst : Nat := 0xeffff - 1

section

variable {symbols : LinkerSymbols} {root : Nat} (pages : ProcessPages symbols root)

/-- The entries of an address space. -/
structure SpaceMap (g : Nat → Option PageTableEntry) : Prop where
  cases : ∀ q e, g q = some e →
    (imageFirst ≤ q ∧ q < imageEnd symbols ∧ e.ppn.toNat = q) ∨
    (q = 1 ∧ e.ppn.toNat = pages.trapFrame / 4096 ∧ e.user = 0) ∨
    ∃ i < 2, q = stackFirst + i ∧ e.ppn.toNat = pages.stackBottom / 4096 + i ∧
      e.UserReadable ∧ e.UserWritable
  frame : (g 1).isSome
  stack : ∀ i < 2, (g (stackFirst + i)).isSome

/-- The map holds pages of the image only, each mapped to itself. -/
def ImageOnly (symbols : LinkerSymbols) (g : Nat → Option PageTableEntry) : Prop :=
  ∀ q e, g q = some e →
    imageFirst ≤ q ∧ q < imageEnd symbols ∧ e.ppn.toNat = q

theorem ImageOnly.identity {g : Nat → Option PageTableEntry} (image : ImageOnly symbols g)
    {start stop bits : BitVec 64} (ok : (Call.identityMapRange start stop bits).WithinBounds)
    (low : MEMORY_START ≤ start) (high : stop ≤ symbols.bssEnd) :
    ImageOnly symbols fun q => (Call.identityMapRange start stop bits).entry q (g q) := by
  intro q e entry
  simp only [Call.entry] at entry
  cases covered : (Call.identityMapRange start stop bits).target q with
  | none =>
    rw [covered] at entry
    exact image q e entry
  | some target =>
    rw [covered] at entry
    obtain rfl := Option.some.inj entry
    have bound := ok.target_lt covered
    rw [mapEntry_ppn _ _ ok.low, BitVec.toNat_ofNat, Nat.mod_eq_of_lt bound]
    simp only [Call.target] at covered
    split at covered
    case isFalse => cases covered
    obtain rfl := Option.some.inj covered
    rw [BitVec.le_def] at low high
    unfold imageFirst imageEnd
    omega

/-- Calls for the image leave the image. -/
theorem implements_image {src : PageSource root} {s : Vm} {g : Nat → Option PageTableEntry}
    (impl : Implements src s g) (image : ImageOnly symbols g) {calls : List Call}
    (identity : ∀ c ∈ calls, ∃ start stop bits, c = .identityMapRange start stop bits ∧
      c.WithinBounds ∧ MEMORY_START ≤ start ∧ stop ≤ symbols.bssEnd)
    (within : (runCalls src.page root calls s).zallocs ≤ src.limit) :
    ∃ g', Implements src (runCalls src.page root calls s) g' ∧ ImageOnly symbols g' := by
  induction calls generalizing s g with
  | nil => exact ⟨g, impl, image⟩
  | cons c calls ih =>
    obtain ⟨start, stop, bits, rfl, ok, low, high⟩ := identity c List.mem_cons_self
    have first := impl.run ok (Nat.le_trans (runCalls_zallocs_le src.page root calls _) within)
    exact ih first (image.identity ok low high)
      (fun d hd => identity d (List.mem_cons_of_mem _ hd)) within

/-- The calls for the image map each page to itself. -/
theorem imageCalls_identity (symbols : LinkerSymbols) :
    ∀ c ∈ imageCalls symbols, ∃ start stop bits, c = .identityMapRange start stop bits ∧
      c.WithinBounds ∧ MEMORY_START ≤ start ∧ stop ≤ symbols.bssEnd := by
  intro c mem
  have order := symbols.order
  have low := MEMORY_START_toNat
  rw [MEMORY_START_toNat, MEMORY_END_toNat] at order
  simp only [imageCalls, List.mem_cons, List.not_mem_nil, or_false] at mem
  rcases mem with rfl | rfl | rfl | rfl | rfl | rfl
  all_goals
    refine ⟨_, _, _, rfl, ⟨?_, ?_, by decide⟩, ?_, ?_⟩
    · omega
    · omega
    · refine BitVec.le_def.2 ?_
      omega
    · refine BitVec.le_def.2 ?_
      omega

theorem frameCall_target {trapFrame : Nat} (low : trapFrame < 2 ^ 56) (q : Nat) :
    (frameCall trapFrame).target q = if q = 1 then some (trapFrame / 4096) else none := by
  have toNat : (BitVec.ofNat 64 trapFrame).toNat = trapFrame := by
    rw [BitVec.toNat_ofNat]
    omega
  simp only [frameCall, Call.target, toNat, show THREAD_FRAME_ADDRESS.toNat / 4096 = 1 from rfl]

theorem stackCall_target {stackBottom : Nat} (low : stackBottom < 2 ^ 56) (q : Nat) :
    (stackCall stackBottom).target q = if stackFirst ≤ q ∧ q < stackFirst + 2 then
      some (stackBottom / 4096 + (q - stackFirst)) else none := by
  have toNat : (BitVec.ofNat 64 stackBottom).toNat = stackBottom := by
    rw [BitVec.toNat_ofNat]
    omega
  have first : (STACK_ADDRESS - .ofNat 64 (PAGE_SIZE * STACK_PAGES)).toNat / 4096 = stackFirst := rfl
  have last : (STACK_ADDRESS.toNat + 4095) / 4096 = stackFirst + 2 := rfl
  simp only [stackCall, Call.target, toNat, first, last]

theorem frameCall_within {trapFrame : Nat} (low : trapFrame < 2 ^ 56) :
    (frameCall trapFrame).WithinBounds := by
  refine ⟨by decide, ?_, by decide⟩
  rw [BitVec.toNat_ofNat]
  omega

theorem stackCall_within {stackBottom : Nat} (aligned : 4096 ∣ stackBottom)
    (low : stackBottom + 4096 < 2 ^ 56) : (stackCall stackBottom).WithinBounds := by
  refine ⟨by decide, by decide, by decide, ?_⟩
  intro page first last
  have toNat : (BitVec.ofNat 64 stackBottom).toNat = stackBottom := by
    rw [BitVec.toNat_ofNat]
    omega
  have low : stackFirst ≤ page := first
  have high : page < stackFirst + 2 := last
  change 4096 * ((BitVec.ofNat 64 stackBottom).toNat / 4096 + (page - stackFirst)) < 2 ^ 56
  rw [toNat]
  omega

theorem stackCall_bits (stackBottom : Nat) : (stackCall stackBottom).bits.extractLsb' 4 1 = 1 ∧
    (stackCall stackBottom).bits.extractLsb' 1 1 = 1 ∧
    (stackCall stackBottom).bits.extractLsb' 2 1 = 1 := by
  change USER_READ_WRITE.extractLsb' 4 1 = 1 ∧ USER_READ_WRITE.extractLsb' 1 1 = 1 ∧
    USER_READ_WRITE.extractLsb' 2 1 = 1
  decide

theorem frameCall_bits (trapFrame : Nat) : (frameCall trapFrame).bits.extractLsb' 4 1 = 0 := by
  change (READ_WRITE ||| ACCESS ||| DIRTY).extractLsb' 4 1 = 0
  decide

/-- Bits that a call adds are there. -/
theorem or_one (x : BitVec 1) {y : BitVec 1} (one : y = 1) : x ||| y = 1 := by
  subst one
  revert x
  decide

/-- The three kinds of pages. -/
theorem ImageOnly.spaceMap {g : Nat → Option PageTableEntry} (image : ImageOnly symbols g) :
    SpaceMap pages fun q =>
      (stackCall pages.stackBottom).entry q ((frameCall pages.trapFrame).entry q (g q)) := by
  have frameTarget := frameCall_target pages.trapFrame_heap.2
  have stackTarget := @stackCall_target pages.stackBottom (by have := pages.stackBottom_heap; omega)
  have frameLow := (frameCall_within pages.trapFrame_heap.2).low
  have stackOk := stackCall_within pages.stackBottom_aligned pages.stackBottom_heap.2
  obtain ⟨user, read, write⟩ := stackCall_bits pages.stackBottom
  refine ⟨?_, ?_, ?_⟩
  · intro q e entry
    by_cases stack : stackFirst ≤ q ∧ q < stackFirst + 2
    · have covered := stackTarget q
      rw [if_pos stack] at covered
      have bound := stackOk.target_lt covered
      simp only [Call.entry, covered] at entry
      obtain rfl := Option.some.inj entry
      refine .inr (.inr ⟨q - stackFirst, by omega, by omega, ?_, ?_, ?_⟩)
      · rw [mapEntry_ppn _ _ stackOk.low, BitVec.toNat_ofNat, Nat.mod_eq_of_lt bound]
      · exact ⟨mapEntry_isValid .., (mapEntry_user ..).trans (or_one _ user),
          (mapEntry_read ..).trans (or_one _ read)⟩
      · exact ⟨mapEntry_isValid .., (mapEntry_user ..).trans (or_one _ user),
          (mapEntry_write ..).trans (or_one _ write)⟩
    · have uncovered := stackTarget q
      rw [if_neg stack] at uncovered
      simp only [Call.entry, uncovered] at entry
      by_cases frame : q = 1
      · have covered := frameTarget q
        rw [if_pos frame] at covered
        have bound := (frameCall_within pages.trapFrame_heap.2).target_lt covered
        have blank : g q = none := by
          cases found : g q with
          | none => rfl
          | some e =>
            have := (image q e found).1
            rw [frame] at this
            exact absurd this (by decide)
        simp only [covered, blank, Option.getD_none] at entry
        obtain rfl := Option.some.inj entry
        refine .inr (.inl ⟨frame, ?_, ?_⟩)
        · rw [mapEntry_ppn _ _ frameLow, BitVec.toNat_ofNat, Nat.mod_eq_of_lt bound]
        · rw [mapEntry_user, frameCall_bits]
          decide
      · rw [frameTarget q, if_neg frame] at entry
        exact .inl (image q e entry)
  · have covered := frameTarget 1
    have uncovered := stackTarget 1
    rw [if_pos rfl] at covered
    rw [if_neg (by decide)] at uncovered
    simp [Call.entry, covered, uncovered]
  · intro i small
    have covered := stackTarget (stackFirst + i)
    rw [if_pos (by omega)] at covered
    simp [Call.entry, covered]

/-- A page that holds no table lies beside the tables. -/
theorem tableMemory_outside {src : PageSource root} {page zallocs x : Nat} (aligned : 4096 ∣ page)
    (noRoot : page ≠ root) (noTable : ∀ n < src.limit, page ≠ src.page n)
    (within : zallocs ≤ src.limit) (inside : tableMemory src zallocs x) :
    x < page ∨ page + PAGE_SIZE ≤ x := by
  have beside : ∀ table, 4096 ∣ table → page ≠ table → bytesAt table PAGE_SIZE x →
      x < page ∨ page + PAGE_SIZE ≤ x := by
    intro table tableAligned ne inside
    unfold bytesAt PAGE_SIZE at *
    omega
  rcases inside with inside | ⟨k, small, inside⟩
  · exact beside root src.root_aligned noRoot inside
  · have below : k < src.limit := Nat.lt_of_lt_of_le small within
    exact beside _ (src.aligned k below) (noTable k below) inside

/-- An address space of a process has these entries. -/
theorem HasAddressSpace.spaceMap {pages : ProcessPages symbols root} {m : Memory}
    (has : HasAddressSpace pages m) : ∃ s : Vm, s.memory = m ∧
      ∃ g, Implements pages.toPageSource s g ∧ SpaceMap pages g := by
  obtain ⟨m₀, programCounter, within, same⟩ := has
  unfold createDummyProcess at within same
  dsimp only at within same
  -- the state before each change of the memory
  generalize satpEq : buildSatp SATP_SV39 1 (.ofNat 64 root) = satp at within same
  generalize first : runCalls pages.page root (imageCalls symbols)
    { memory := clear m₀ root PAGE_SIZE, zallocs := 0 } = s₁ at within same
  generalize second : (frameCall pages.trapFrame).run pages.page root { s₁ with
    memory := initializeThread (clear s₁.memory pages.trapFrame PAGE_SIZE) pages.trapFrame
      programCounter satp } = s₂ at within same
  generalize third : (stackCall pages.stackBottom).run pages.page root { s₂ with
    memory := clear s₂.memory pages.stackBottom (PAGE_SIZE * STACK_PAGES) } = s₃ at within same
  have le₂ : s₂.zallocs ≤ pages.limit := by
    have grows := Call.run_zallocs_le pages.page root { s₂ with
      memory := clear s₂.memory pages.stackBottom (PAGE_SIZE * STACK_PAGES) }
      (stackCall pages.stackBottom)
    rw [third] at grows
    exact Nat.le_trans grows within
  have le₁ : s₁.zallocs ≤ pages.limit := by
    have grows := Call.run_zallocs_le pages.page root { s₁ with
      memory := initializeThread (clear s₁.memory pages.trapFrame PAGE_SIZE) pages.trapFrame
        programCounter satp } (frameCall pages.trapFrame)
    rw [second] at grows
    exact Nat.le_trans grows le₂
  have start : Implements pages.toPageSource ⟨clear m₀ root PAGE_SIZE, 0⟩ fun _ => none :=
    implements_init _ fun x low high => clear_apply_inside _ low high
  obtain ⟨g, impl, image⟩ := @implements_image symbols root _ _ _ start
    (fun q e found => by cases found) _ (imageCalls_identity symbols) (by rw [first]; exact le₁)
  rw [first] at impl
  -- the trap frame and the stack are filled beside the tables
  have frameBeside : AgreeOn (tableMemory pages.toPageSource s₁.zallocs) s₁.memory
      (initializeThread (clear s₁.memory pages.trapFrame PAGE_SIZE) pages.trapFrame programCounter
        satp) := by
    intro x inside
    have outside := tableMemory_outside pages.trapFrame_aligned pages.trapFrame_apart.1
      pages.trapFrame_apart.2.2.2 le₁ inside
    rw [initializeThread_apply_of_outside _ _ _ (by unfold PAGE_SIZE at outside; unfold TrapFrame.SIZE; omega),
      clear_apply_outside _ outside]
  have impl := (impl.congr frameBeside).run (frameCall_within pages.trapFrame_heap.2)
    (by rw [second]; exact le₂)
  rw [second] at impl
  have stackBeside : AgreeOn (tableMemory pages.toPageSource s₂.zallocs) s₂.memory
      (clear s₂.memory pages.stackBottom (PAGE_SIZE * STACK_PAGES)) := by
    intro x inside
    obtain ⟨apart, apart', fresh⟩ := pages.stackBottom_apart
    have outside := tableMemory_outside pages.stackBottom_aligned apart
      (fun n small => (fresh n small).1) le₂ inside
    have outside' := tableMemory_outside (Nat.dvd_add_right pages.stackBottom_aligned |>.2 ⟨1, rfl⟩)
      apart' (fun n small => (fresh n small).2) le₂ inside
    rw [clear_apply_outside]
    unfold PAGE_SIZE STACK_PAGES at *
    omega
  have impl := (impl.congr stackBeside).run
    (stackCall_within pages.stackBottom_aligned pages.stackBottom_heap.2)
    (by rw [third]; exact within)
  rw [third] at impl
  exact ⟨{ s₃ with memory := m }, rfl, _, impl.congr same, image.spaceMap pages⟩

/-! ## Runs of bytes -/

namespace SpaceMap

variable {pages} {g : Nat → Option PageTableEntry}

/-- The image, the trap frame and the stack lie apart, also in physical memory. -/
theorem apart (pages : ProcessPages symbols root) :
    imageEnd symbols + 1 < pages.stackBottom / 4096 ∧
      imageEnd symbols < pages.trapFrame / 4096 ∧
      pages.trapFrame / 4096 ≠ pages.stackBottom / 4096 ∧
      pages.trapFrame / 4096 ≠ pages.stackBottom / 4096 + 1 ∧
      imageEnd symbols < 0x8e000 := by
  have order := symbols.order
  have heap := symbols.heapStart_toNat
  have frame := pages.trapFrame_heap
  have stack := pages.stackBottom_heap
  have frameAligned := pages.trapFrame_aligned
  have stackAligned := pages.stackBottom_aligned
  obtain ⟨-, ne, ne', -⟩ := pages.trapFrame_apart
  rw [MEMORY_START_toNat, MEMORY_END_toNat] at order
  unfold imageEnd
  omega

/-- Neighbouring pages that user code may touch lie in neighbouring physical pages. -/
theorem next_ppn (map : SpaceMap pages g) {q : Nat} {e e' : PageTableEntry} (entry : g q = some e)
    (user : e.user = 1) (entry' : g ((q + 1) % 2 ^ 27) = some e') (user' : e'.user = 1) :
    e'.ppn.toNat = e.ppn.toNat + 1 := by
  have apart := apart pages
  have first : imageFirst = 0x86000 := rfl
  have stack : stackFirst = 0xefffe := rfl
  rcases map.cases q e entry with ⟨low, high, same⟩ | ⟨-, -, kernel⟩ | ⟨i, hi, place, ppn, -⟩
  · rcases map.cases _ e' entry' with ⟨low', high', same'⟩ | ⟨-, -, kernel⟩ | ⟨j, hj, place', -⟩
    · omega
    · rw [kernel] at user'
      cases user'
    · omega
  · rw [kernel] at user
    cases user
  · rcases map.cases _ e' entry' with ⟨low', high', same'⟩ | ⟨-, -, kernel⟩ | ⟨j, hj, place', ppn', -⟩
    · omega
    · rw [kernel] at user'
      cases user'
    · omega

variable {permits : PageTableEntry → Prop} (user : ∀ e, permits e → e.user = 1)
  (stackPermits : ∀ e : PageTableEntry, e.UserReadable → e.UserWritable → permits e)

include user in
/-- A page in which user code may touch some byte is mapped for it wherever it is mapped. -/
theorem permits_of_ppn (map : SpaceMap pages g) {q r : Nat} {e e' : PageTableEntry}
    (entry : g q = some e) (entry' : g r = some e') (permitted : permits e')
    (same : e.ppn.toNat = e'.ppn.toNat) (stackPermits : ∀ e : PageTableEntry,
      e.UserReadable → e.UserWritable → permits e) : permits e := by
  have apart := apart pages
  have mayTouch := user e' permitted
  rcases map.cases q e entry with ⟨low, high, ppn⟩ | ⟨place, ppn, -⟩ | ⟨i, hi, -, -, read, write⟩
  · rcases map.cases r e' entry' with ⟨low', high', ppn'⟩ | ⟨-, -, kernel⟩ | ⟨j, hj, -, ppn', -⟩
    · obtain rfl : q = r := by omega
      rw [entry] at entry'
      exact Option.some.inj entry' ▸ permitted
    · rw [kernel] at mayTouch
      cases mayTouch
    · omega
  · rcases map.cases r e' entry' with ⟨low', high', ppn'⟩ | ⟨-, -, kernel⟩ | ⟨j, hj, -, ppn', -⟩
    · omega
    · rw [kernel] at mayTouch
      cases mayTouch
    · omega
  · exact stackPermits e read write

include user stackPermits in
/-- The page after one that user code may touch is mapped there if its physical page is granted. -/
theorem next_permits (map : SpaceMap pages g) {q r : Nat} {e e' : PageTableEntry}
    (entry : g q = some e) (mayTouch : permits e) (entry' : g r = some e') (permitted : permits e')
    (next : e'.ppn.toNat = e.ppn.toNat + 1) :
    ∃ e'', g ((q + 1) % 2 ^ 27) = some e'' ∧ permits e'' := by
  have apart := apart pages
  have first : imageFirst = 0x86000 := rfl
  have stack : stackFirst = 0xefffe := rfl
  have mayTouch := user e mayTouch
  have mayTouch' := user e' permitted
  rcases map.cases q e entry with ⟨low, high, ppn⟩ | ⟨-, -, kernel⟩ | ⟨i, hi, place, ppn, -⟩
  · rcases map.cases r e' entry' with ⟨low', high', ppn'⟩ | ⟨-, -, kernel⟩ | ⟨j, hj, -, ppn', -⟩
    · refine ⟨e', ?_, permitted⟩
      rw [← entry']
      congr 1
      omega
    · rw [kernel] at mayTouch'
      cases mayTouch'
    · omega
  · rw [kernel] at mayTouch
    cases mayTouch
  · rcases map.cases r e' entry' with ⟨low', high', ppn'⟩ | ⟨-, -, kernel⟩ | ⟨j, hj, place', ppn', read, write⟩
    · omega
    · rw [kernel] at mayTouch'
      cases mayTouch'
    · refine ⟨e', ?_, stackPermits e' read write⟩
      rw [← entry']
      congr 1
      omega

end SpaceMap

/-- The page of a byte after an address. -/
theorem vpn_add (p : BitVec 64) (i : Nat) :
    vpn (p + .ofNat 64 i) = (p.toNat + i) / 4096 % 2 ^ 27 := by
  unfold vpn
  rw [BitVec.toNat_add, BitVec.toNat_ofNat]
  omega

section Touched

variable {pages} {g : Nat → Option PageTableEntry} {permits : PageTableEntry → Prop}
  {touched : Nat → Prop}

/-- **A run of bytes from a mapped address on is granted exactly where its addresses are
permitted**, since what user code may touch is mapped page after page. -/
theorem SpaceMap.grants_iff_permits (map : SpaceMap pages g)
    (user : ∀ e, permits e → e.user = 1)
    (stackPermits : ∀ e : PageTableEntry, e.UserReadable → e.UserWritable → permits e)
    {p : BitVec 64} {e₀ : PageTableEntry} (mapped : g (vpn p) = some e₀)
    (fromStart : ∀ i, touched (i + 1) → touched i) :
    (∀ i, touched i → ∃ page < 2 ^ 27, ∃ e, g page = some e ∧ permits e ∧
      (4096 * e₀.ppn.toNat + p.toNat % 4096 + i) / 4096 = e.ppn.toNat) ↔
    ∀ i, touched i → ∃ e, g (vpn (p + .ofNat 64 i)) = some e ∧ permits e := by
  have start : vpn (p + .ofNat 64 0) = vpn p := by rw [vpn_add, Nat.add_zero, vpn]
  -- either side puts byte `i` in the page of its own address
  suffices placed : ((∀ i, touched i → ∃ page < 2 ^ 27, ∃ e, g page = some e ∧ permits e ∧
        (4096 * e₀.ppn.toNat + p.toNat % 4096 + i) / 4096 = e.ppn.toNat) ∨
      (∀ i, touched i → ∃ e, g (vpn (p + .ofNat 64 i)) = some e ∧ permits e)) →
      ∀ i, touched i → ∃ e, g (vpn (p + .ofNat 64 i)) = some e ∧ permits e ∧
        (4096 * e₀.ppn.toNat + p.toNat % 4096 + i) / 4096 = e.ppn.toNat by
    constructor
    · intro granted i hi
      obtain ⟨e, entry, permitted, -⟩ := placed (.inl granted) i hi
      exact ⟨e, entry, permitted⟩
    · intro permitted i hi
      obtain ⟨e, entry, permitted, place⟩ := placed (.inr permitted) i hi
      exact ⟨_, vpn_lt _, e, entry, permitted, place⟩
  intro either i
  induction i with
  | zero =>
    intro hi
    rw [start]
    refine ⟨e₀, mapped, ?_, by omega⟩
    rcases either with granted | permitted
    · obtain ⟨page, -, e, entry, permitted, place⟩ := granted 0 hi
      exact map.permits_of_ppn user mapped entry permitted (by omega) stackPermits
    · obtain ⟨e, entry, permitted⟩ := permitted 0 hi
      rw [start, mapped] at entry
      exact Option.some.inj entry ▸ permitted
  | succ i ih =>
    intro hi
    obtain ⟨e, entry, permitted, place⟩ := ih (fromStart i hi)
    rw [vpn_add] at entry ⊢
    by_cases inPage : (p.toNat + i) % 4096 < 4095
    · refine ⟨e, ?_, permitted, by omega⟩
      rw [← entry]
      congr 1
      omega
    · have next : (p.toNat + (i + 1)) / 4096 % 2 ^ 27 =
          ((p.toNat + i) / 4096 % 2 ^ 27 + 1) % 2 ^ 27 := by omega
      rw [next]
      obtain ⟨e', entry', permitted'⟩ : ∃ e',
          g (((p.toNat + i) / 4096 % 2 ^ 27 + 1) % 2 ^ 27) = some e' ∧ permits e' := by
        rcases either with granted | permitted'
        · obtain ⟨page, -, e', entry', permitted', place'⟩ := granted (i + 1) hi
          exact map.next_permits user stackPermits entry permitted entry' permitted' (by omega)
        · have later := permitted' (i + 1) hi
          rwa [vpn_add, next] at later
      have ppn := map.next_ppn entry (user e permitted) entry' (user e' permitted')
      exact ⟨e', entry', permitted', by omega⟩

end Touched

end

end MatteOS.Processes
