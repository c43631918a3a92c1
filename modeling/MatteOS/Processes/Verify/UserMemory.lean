import MatteOS.Memory.Verify.InitMemory
import MatteOS.Processes.Verify.AddressSpace
import MatteOS.Processes.Verify.Syscalls

/-!
# User memory in system calls

A handler translates the pointer it is given and follows the bytes from there on in physical
memory. `Userspace::get` asks neither whether user code may touch the page, nor where the pages
after the first one are.
-/

namespace MatteOS.Processes

open ByteMemory Memory EntryBits Traps

variable {k : Kernel} {process : Nat}

/-! ## What the handlers touch -/

/-- The bytes that `handle_read` stores to. -/
def Process.Stores (process : Nat) (k : Kernel) (fd : BitVec 32) (buffer size : BitVec 64)
    (answer : Answer) (x : Nat) : Prop :=
  ∃ a bytes, readStore process k fd buffer size answer = some (a, bytes) ∧
    ∃ i < bytes.length, x = a + i

/-- `String::calculate_size` and the copy after it read the byte at `a + i`. -/
def StringReads (m : Memory) (a i : Nat) : Prop := ∀ j < i, m (a + j) ≠ 0

theorem StringReads.fromStart (m : Memory) (a i : Nat) (reads : StringReads m a (i + 1)) :
    StringReads m a i := fun j less => reads j (by omega)

/-- The bytes that `handle_open` and `handle_dbgln` read through their pointer, of which they make a
`String`. -/
def Process.Loads (process : Nat) (k : Kernel) (ptr : BitVec 64) (x : Nat) : Prop :=
  ∃ a, k.userspaceGet process ptr = some a ∧ ∃ i, StringReads k.memory a i ∧ x = a + i

/-- The bytes that the read of a file stores, also when it fails in the end. -/
def Process.delivered (file : File) (console : Devices.ConsoleDevice) (size : BitVec 64)
    (answer : Answer) : Option (List (BitVec 8)) :=
  match (fileRead file console size answer).1 with
  | .finalized bytes => some bytes
  | .failed bytes => some bytes
  | .blocked _ => none

/-- A read stores what the file delivers where its buffer is translated to. -/
theorem readStore_iff {fd : BitVec 32} {buffer size : BitVec 64} {answer : Answer} {a : Nat}
    {bytes : List (BitVec 8)} :
    Process.readStore process k fd buffer size answer = some (a, bytes) ↔
      k.userspaceGet process buffer = some a ∧ ∃ file,
        (k.processManager.processes process).fdTable.descriptor (fd.signExtend 64).toNat =
          some (some file) ∧ Process.delivered file k.console size answer = some bytes := by
  unfold Process.readStore Process.readInto Process.delivered
  cases descriptor :
      (k.processManager.processes process).fdTable.descriptor (fd.signExtend 64).toNat with
  | none => simp
  | some file =>
    cases k.userspaceGet process buffer with
    | none => simp
    | some address =>
      cases file with
      | none => simp
      | some file =>
        simp only [Option.bind_eq_bind, Option.bind_some, Option.pure_def, Option.some.injEq,
          exists_eq_left']
        generalize Process.fileRead file k.console size answer = read
        obtain ⟨result, console⟩ := read
        cases result <;> simp

/-! ## Only permitted memory -/

/-- A call touches only what is permitted, or it fails and touches nothing. -/
def OnlyPermitted (touched permitted : Nat → Prop) (fails : Prop) : Prop :=
  (∀ x, touched x → permitted x) ∨ fails ∧ ∀ x, ¬ touched x

theorem onlyPermitted_iff {touched permitted : Nat → Prop} {fails : Prop} :
    OnlyPermitted touched permitted fails ↔ ∀ x, touched x → permitted x :=
  ⟨fun only x mem => only.elim (fun all => all x mem) fun none => absurd mem (none.2 x), .inl⟩

section Process

variable {symbols : LinkerSymbols} {root : Nat} {pages : ProcessPages symbols root}

/-- The address space of a process that a call has translated a pointer in. -/
theorem userspaceGet_iff {s : Vm} {src : PageSource root} {g : Nat → Option PageTableEntry}
    (impl : Implements src s g) (memory : s.memory = k.memory)
    (table : (k.processManager.processes process).pageTable = root) {ptr : BitVec 64} {a : Nat} :
    k.userspaceGet process ptr = some a ↔
      ∃ e, g (vpn ptr) = some e ∧ a = 4096 * e.ppn.toNat + ptr.toNat % 4096 := by
  have translated := impl.translate_eq ptr
  rw [memory] at translated
  unfold Kernel.userspaceGet
  rw [table]
  cases answer : translate k.memory root (.ofU64 ptr) with
  | error msg =>
    rw [answer] at translated
    cases entry : g (vpn ptr) with
    | none => simp
    | some e =>
      rw [entry] at translated
      cases translated
  | ok p =>
    rw [answer] at translated
    cases entry : g (vpn ptr) with
    | none =>
      rw [entry] at translated
      cases translated
    | some e =>
      rw [entry] at translated
      have place : p.getValue.toNat = 4096 * e.ppn.toNat + ptr.toNat % 4096 :=
        Option.some.inj translated
      simp [place, eq_comm]

/-- A run of bytes from the translation of a pointer on. -/
theorem run_granted_iff (has : HasAddressSpace pages k.memory)
    (table : (k.processManager.processes process).pageTable = root)
    {permits : PageTableEntry → Prop} (user : ∀ e, permits e → e.user = 1)
    (stackPermits : ∀ e : PageTableEntry, e.UserReadable → e.UserWritable → permits e)
    {touched : Nat → Prop} (fromStart : ∀ i, touched (i + 1) → touched i) {ptr : BitVec 64}
    {a : Nat}
    (translated : k.userspaceGet process ptr = some a) :
    (∀ i, touched i → Grants k.memory root permits (a + i)) ↔
      ∀ i, touched i → Permits k.memory root permits (ptr + .ofNat 64 i) := by
  obtain ⟨s, memory, g, impl, map⟩ := has.spaceMap
  obtain ⟨e₀, mapped, rfl⟩ := (userspaceGet_iff impl memory table).1 translated
  rw [← memory]
  simp only [impl.grants_iff, impl.permits_iff]
  exact map.grants_iff_permits user stackPermits mapped fromStart

/-- User code may not touch its trap frame. -/
theorem HasAddressSpace.not_grants_trapFrame {m : Memory} (has : HasAddressSpace pages m)
    {permits : PageTableEntry → Prop} (user : ∀ e, permits e → e.user = 1) {x : Nat}
    (inside : x / 4096 = pages.trapFrame / 4096) : ¬ Grants m root permits x := by
  obtain ⟨s, rfl, g, impl, map⟩ := has.spaceMap
  intro granted
  obtain ⟨page, -, e, entry, permitted, place⟩ := impl.grants_iff.1 granted
  have apart := SpaceMap.apart pages
  rcases map.cases page e entry with ⟨low, high, ppn⟩ | ⟨-, -, kernel⟩ | ⟨i, hi, -, ppn, -⟩
  · omega
  · have mayTouch := user e permitted
    rw [kernel] at mayTouch
    cases mayTouch
  · omega

/-- It may touch its stack. -/
theorem HasAddressSpace.permits_stack {m : Memory} (has : HasAddressSpace pages m)
    {permits : PageTableEntry → Prop}
    (stackPermits : ∀ e : PageTableEntry, e.UserReadable → e.UserWritable → permits e)
    {a : BitVec 64} {i : Nat} (small : i < 2) (inside : vpn a = stackFirst + i) :
    Permits m root permits a := by
  obtain ⟨s, rfl, g, impl, map⟩ := has.spaceMap
  obtain ⟨e, entry⟩ := Option.isSome_iff_exists.1 (map.stack i small)
  have apart := SpaceMap.apart pages
  have first : imageFirst = 0x86000 := rfl
  have stack : stackFirst = 0xefffe := rfl
  rcases map.cases _ e entry with ⟨low, high, ppn⟩ | ⟨place, -⟩ | ⟨j, hj, place, ppn, read, write⟩
  · omega
  · omega
  · exact impl.permits_iff.2 ⟨e, inside ▸ entry, stackPermits e read write⟩

/-- **System calls touch only permitted memory** exactly where the addresses from the pointer on
are permitted: a read where user code may write the addresses its bytes go to, `open` and `dbgln`
where it may read those of the string. -/
theorem syscalls_onlyPermitted_iff (has : HasAddressSpace pages k.memory)
    (table : (k.processManager.processes process).pageTable = root) :
    (∀ (kernelTf : Nat) (fd : BitVec 32) (buffer size : BitVec 64) (answer : Answer),
      OnlyPermitted (Process.Stores process k fd buffer size answer)
          (Grants k.memory root PageTableEntry.UserWritable)
          (Process.handleRead kernelTf process k fd buffer size answer = some (.error .error, k)) ↔
        ∀ a bytes, Process.readStore process k fd buffer size answer = some (a, bytes) →
          ∀ i < bytes.length,
            Permits k.memory root PageTableEntry.UserWritable (buffer + .ofNat 64 i)) ∧
    (∀ (path : BitVec 64) (answer : Answer),
      OnlyPermitted (Process.Loads process k path)
          (Grants k.memory root PageTableEntry.UserReadable)
          (Process.handleOpen process k path answer = some (.error .error, k)) ↔
        ∀ a, k.userspaceGet process path = some a → ∀ i, StringReads k.memory a i →
          Permits k.memory root PageTableEntry.UserReadable (path + .ofNat 64 i)) ∧
    ∀ message : BitVec 64,
      OnlyPermitted (Process.Loads process k message)
          (Grants k.memory root PageTableEntry.UserReadable)
          (Process.handleDbgln process k message = some (.error .error, k)) ↔
        ∀ a, k.userspaceGet process message = some a → ∀ i, StringReads k.memory a i →
          Permits k.memory root PageTableEntry.UserReadable (message + .ofNat 64 i) := by
  have loads : ∀ ptr, (∀ x, Process.Loads process k ptr x →
      Grants k.memory root PageTableEntry.UserReadable x) ↔
      ∀ a, k.userspaceGet process ptr = some a → ∀ i, StringReads k.memory a i →
        Permits k.memory root PageTableEntry.UserReadable (ptr + .ofNat 64 i) := by
    intro ptr
    have run (a : Nat) (translated : k.userspaceGet process ptr = some a) :=
      run_granted_iff has table (fun e may => may.2.1) (fun e read _ => read)
        (StringReads.fromStart k.memory a) translated
    constructor
    · intro granted a translated
      refine (run a translated).1 fun i reads => ?_
      exact granted _ ⟨a, translated, i, reads, rfl⟩
    · rintro permitted x ⟨a, translated, i, reads, rfl⟩
      exact (run a translated).2 (permitted a translated) i reads
  simp only [onlyPermitted_iff]
  refine ⟨fun kernelTf fd buffer size answer => ?_, fun path _ => loads path, loads⟩
  have run (a : Nat) (bytes : List (BitVec 8))
      (translated : k.userspaceGet process buffer = some a) :
      (∀ i, i < bytes.length → Grants k.memory root PageTableEntry.UserWritable (a + i)) ↔
        ∀ i, i < bytes.length →
          Permits k.memory root PageTableEntry.UserWritable (buffer + .ofNat 64 i) := by
    apply run_granted_iff has table (fun e may => may.2.1) (fun e _ write => write) _ translated
    intro i small
    omega
  constructor
  · intro granted a bytes store
    refine (run a bytes (readStore_iff.1 store).1).1 fun i small => ?_
    exact granted _ ⟨a, bytes, store, i, small, rfl⟩
  · rintro permitted x ⟨a, bytes, store, i, small, rfl⟩
    exact (run a bytes (readStore_iff.1 store).1).2 (permitted a bytes store) i small

end Process

/-! ## Page by page -/

/-- The `i`-th byte stored lies where `buffer + i` is translated to, and a buffer with an unmapped
page is an error, with bytes stored to mapped pages only. -/
structure Process.FollowsPages (kernelTf process : Nat) (k : Kernel) (fd : BitVec 32)
    (buffer size : BitVec 64) (answer : Answer) : Prop where
  stored : ∀ a bytes, Process.readStore process k fd buffer size answer = some (a, bytes) →
    ∀ i < bytes.length, k.userspaceGet process (buffer + .ofNat 64 i) = some (a + i)
  unmapped : (∃ i < size.toNat, k.userspaceGet process (buffer + .ofNat 64 i) = none) →
    (∃ k', Process.handleRead kernelTf process k fd buffer size answer = some (.error .error, k')) ∧
      ∀ x, Process.Stores process k fd buffer size answer x →
        ∃ p y, k.userspaceGet process p = some y ∧ x / 4096 = y / 4096

/-- The `n` bytes of the buffer are consecutive bytes of physical memory. -/
def Process.Consecutive (process : Nat) (k : Kernel) (buffer : BitVec 64) (n : Nat) : Prop :=
  ∃ a, ∀ i < n, k.userspaceGet process (buffer + .ofNat 64 i) = some (a + i)

/-- The first byte of the buffer is not mapped, or the read of an open regular file fails. -/
def Process.ReadFails (process : Nat) (k : Kernel) (fd : BitVec 32) (buffer : BitVec 64)
    (answer : Answer) : Prop :=
  ∃ file, (k.processManager.processes process).fdTable.descriptor (fd.signExtend 64).toNat =
      some file ∧
    (k.userspaceGet process buffer = none ∨
      file = some .regular ∧ ∃ stored, answer.content = .error stored)

/-- Only these reads report an error. -/
theorem handleRead_error_iff {kernelTf : Nat} {fd : BitVec 32} {buffer size : BitVec 64}
    {answer : Answer} :
    (∃ k', Process.handleRead kernelTf process k fd buffer size answer = some (.error .error, k')) ↔
      Process.ReadFails process k fd buffer answer := by
  unfold Process.handleRead Process.readInto Process.ReadFails
  cases descriptor :
      (k.processManager.processes process).fdTable.descriptor (fd.signExtend 64).toNat with
  | none => simp
  | some file =>
    cases translated : k.userspaceGet process buffer with
    | none => simp
    | some address =>
      cases file with
      | none => simp
      | some file =>
        simp only [Option.bind_eq_bind, Option.bind_some, Option.pure_def, Option.some.injEq,
          exists_eq_left', reduceCtorEq, false_or]
        cases file with
        | regular =>
          cases content : answer.content with
          | error stored => simp [Process.fileRead, content]
          | ok bytes => simp [Process.fileRead, content, Option.bind_eq_some_iff]
        | console =>
          simp only [Process.fileRead]
          cases k.console.readAsync with
          | mk request console => cases request <;> simp [Option.bind_eq_some_iff]

/-- **A read follows its buffer page by page** exactly if the bytes it delivers go to consecutive
bytes of physical memory, and if it fails whenever a page of its buffer is not mapped. -/
theorem followsPages_iff (kernelTf process : Nat) (k : Kernel) (fd : BitVec 32)
    (buffer size : BitVec 64) (answer : Answer) :
    Process.FollowsPages kernelTf process k fd buffer size answer ↔
      (∀ file bytes, (k.processManager.processes process).fdTable.descriptor
          (fd.signExtend 64).toNat = some (some file) →
        (k.userspaceGet process buffer).isSome →
        Process.delivered file k.console size answer = some bytes →
        Process.Consecutive process k buffer bytes.length) ∧
      ((∃ i < size.toNat, k.userspaceGet process (buffer + .ofNat 64 i) = none) →
        Process.ReadFails process k fd buffer answer) := by
  constructor
  · intro follows
    refine ⟨fun file bytes opened mapped deliver => ?_, fun unmapped => ?_⟩
    · obtain ⟨a, translated⟩ := Option.isSome_iff_exists.1 mapped
      have store := readStore_iff.2 ⟨translated, file, opened, deliver⟩
      exact ⟨a, follows.stored a bytes store⟩
    · exact handleRead_error_iff.1 (follows.unmapped unmapped).1
  · rintro ⟨consecutive, fails⟩
    have stored : ∀ a bytes, Process.readStore process k fd buffer size answer = some (a, bytes) →
        ∀ i < bytes.length, k.userspaceGet process (buffer + .ofNat 64 i) = some (a + i) := by
      intro a bytes store i less
      obtain ⟨translated, file, opened, deliver⟩ := readStore_iff.1 store
      obtain ⟨b, run⟩ := consecutive file bytes opened (by rw [translated]; rfl) deliver
      have first := run 0 (by omega)
      rw [BitVec.add_zero, translated] at first
      have start : a = b + 0 := Option.some.inj first
      rw [run i less]
      congr 1
      omega
    refine ⟨stored, fun unmapped => ⟨handleRead_error_iff.2 (fails unmapped), ?_⟩⟩
    rintro x ⟨a, bytes, store, i, less, rfl⟩
    exact ⟨_, _, stored a bytes store i less, rfl⟩

/-! ## One address space -/

/-- The first pages of the heap: the root, sixteen pages for tables, the trap frame, the stack. -/
def firstPages : ProcessPages smallImage 0x86206000 where
  page n := 0x86207000 + 4096 * n
  limit := 16
  root_aligned := by decide
  aligned n _ := by omega
  ne_null n _ := by omega
  addressable n _ := by omega
  injective m _ n _ _ := by omega
  ne_root n _ := by omega
  trapFrame := 0x86217000
  stackBottom := 0x86218000
  trapFrame_aligned := by decide
  stackBottom_aligned := by decide
  trapFrame_heap := by decide
  stackBottom_heap := by decide
  trapFrame_apart := ⟨by decide, by decide, by decide, fun n _ => by omega⟩
  stackBottom_apart := ⟨by decide, by decide, fun n _ => by omega⟩

/-- The memory in which the first process has been made. Its only thread is the current one of the
hart whose kernel trap frame is at `0x86230000`. -/
def firstMemory : Memory :=
  (createDummyProcess firstPages.page smallImage 0x86206000 firstPages.trapFrame
    firstPages.stackBottom 0x86000000
    (store64 (store64 (fun _ => 0) (KernelTrapFrame.currentProcessId 0x86230000) 1)
      (KernelTrapFrame.currentThreadId 0x86230000) 0)).memory

theorem firstMemory_has : HasAddressSpace firstPages firstMemory :=
  ⟨_, _, by decide +kernel, .refl _ _⟩

/-- The first process with the file `file` open as file 0. -/
def firstKernel (file : File) : Kernel where
  memory := firstMemory
  processManager := {
    runQueue := { head := some 0x300, tail := some 0x300 }
    processList := [0x100]
    processListLock := 0
    pidCounter := 2
    queueElements := fun a => if a = 0x300 then some ⟨0x200, none⟩ else none
    threads := fun _ => { trapFrame := firstPages.trapFrame, tid := 0, pid := 1, state := .running }
    processes := fun _ =>
      { pid := 1, pageTable := 0x86206000, state := .running
        fdTable := (FileSystem.FileDescriptorTable.empty.openDescriptor file).2
        threads := [0x200] } }
  console := { driver := none, requests := [] }

theorem firstKernel_opened (file : File) : ((firstKernel file).processManager.processes
    0x100).fdTable.descriptor ((0 : BitVec 32).signExtend 64).toNat = some (some file) := by
  cases file <;> decide +kernel

/-- Where the first process's read of a regular file stores its bytes. -/
theorem firstKernel_readStore (buffer size : BitVec 64) (answer : Answer) {a : Nat}
    (translated : (firstKernel .regular).userspaceGet 0x100 buffer = some a)
    {bytes : List (BitVec 8)} (content : answer.content = .ok bytes) :
    Process.readStore 0x100 (firstKernel .regular) 0 buffer size answer = some (a, bytes) := by
  refine readStore_iff.2 ⟨translated, .regular, firstKernel_opened _, ?_⟩
  simp only [Process.delivered, Process.fileRead, content]

theorem firstKernel_has (file : File) : HasAddressSpace firstPages (firstKernel file).memory := by
  dsimp only [firstKernel]
  exact firstMemory_has

theorem firstKernel_pageTable (file : File) :
    ((firstKernel file).processManager.processes 0x100).pageTable = 0x86206000 := rfl

/-- The first bytes of the stack are permitted. -/
theorem syscalls_onlyPermitted_stack :
    OnlyPermitted
      (Process.Stores 0x100 (firstKernel .regular) 0 0xefffe000 2 ⟨none, .ok [1, 2], false⟩)
      (Grants (firstKernel .regular).memory 0x86206000 PageTableEntry.UserWritable)
      (Process.handleRead 0x86230000 0x100 (firstKernel .regular) 0 0xefffe000 2
        ⟨none, .ok [1, 2], false⟩ = some (.error .error, firstKernel .regular)) := by
  have has := firstKernel_has .regular
  refine ((syscalls_onlyPermitted_iff has (firstKernel_pageTable .regular)).1 _ _ _ _ _).2 ?_
  intro a stored store i less
  obtain ⟨-, file, opened, deliver⟩ := readStore_iff.1 store
  obtain rfl : file = .regular := by
    rw [firstKernel_opened] at opened
    cases opened
    rfl
  obtain rfl : [1, 2] = stored := Option.some.inj deliver
  have small : i < 2 := less
  apply has.permits_stack (fun e _ write => write) (i := 0) (by decide)
  rw [vpn_add]
  change (0xefffe000 + i) / 4096 % 2 ^ 27 = 0xefffe + 0
  omega

theorem syscalls_not_onlyPermitted :
    HasAddressSpace firstPages (firstKernel .regular).memory ∧
    ¬ OnlyPermitted (Process.Stores 0x100 (firstKernel .regular) 0 0x1008 1 ⟨none, .ok [1], false⟩)
      (Grants (firstKernel .regular).memory 0x86206000 PageTableEntry.UserWritable)
      (Process.handleRead 0x86230000 0x100 (firstKernel .regular) 0 0x1008 1
        ⟨none, .ok [1], false⟩ = some (.error .error, firstKernel .regular)) := by
  refine ⟨firstKernel_has _, fun only => ?_⟩
  have stores : Process.Stores 0x100 (firstKernel .regular) 0 0x1008 1 ⟨none, .ok [1], false⟩
      0x86217008 :=
    ⟨0x86217008, [1], firstKernel_readStore _ _ _ (by decide +kernel) rfl, 0, by decide, rfl⟩
  exact (firstKernel_has _).not_grants_trapFrame (fun e may => may.2.1) (x := 0x86217008) (by decide)
    (onlyPermitted_iff.1 only _ stores)

/-- The byte after the trap frame's page goes to the next physical page. -/
theorem not_followsPages : ¬ Process.FollowsPages 0x86230000 0x100 (firstKernel .regular) 0 0x1fff 2
    ⟨none, .ok [1, 2], false⟩ := by
  intro follows
  have translated : (firstKernel .regular).userspaceGet 0x100 0x1fff = some 0x86217fff := by
    decide +kernel
  have unmapped : (firstKernel .regular).userspaceGet 0x100 (0x1fff + .ofNat 64 1) = none := by
    decide +kernel
  have store := firstKernel_readStore 0x1fff 2 ⟨none, .ok [1, 2], false⟩ translated rfl
  have second := follows.stored _ _ store 1 (by decide)
  rw [unmapped] at second
  cases second

end MatteOS.Processes
