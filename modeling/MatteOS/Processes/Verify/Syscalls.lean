import MatteOS.Processes.Syscalls
import MatteOS.Processes.Verify.Scheduler

/-!
# What a system call can do

A handler either blocks the calling thread, which only a read of the console without a
line does, or it completes. A completed one changes at most file-descriptor tables, the
console, the state of an exiting process, and the buffer of a read (`syscallHandler_cases`).
-/

namespace MatteOS.Processes

open ByteMemory Traps

/-- At most the file descriptors and the states of processes differ. -/
structure ProcessManager.SameThreads (pm pm' : ProcessManager) : Prop where
  eq : ∃ processes, pm' = { pm with processes }
  pid : ∀ p, (pm'.processes p).pid = (pm.processes p).pid
  pageTable : ∀ p, (pm'.processes p).pageTable = (pm.processes p).pageTable
  threads : ∀ p, (pm'.processes p).threads = (pm.processes p).threads

namespace ProcessManager.SameThreads

variable {pm pm' : ProcessManager}

theorem refl (pm : ProcessManager) : pm.SameThreads pm :=
  ⟨⟨pm.processes, rfl⟩, fun _ => rfl, fun _ => rfl, fun _ => rfl⟩

/-- Changing what is not the identity of one process. -/
theorem modifyProcess (k : Kernel) (process : Nat) (f : Process → Process)
    (pid : ∀ p, (f p).pid = p.pid) (pageTable : ∀ p, (f p).pageTable = p.pageTable)
    (threads : ∀ p, (f p).threads = p.threads) :
    k.processManager.SameThreads (k.modifyProcess process f).processManager := by
  refine ⟨⟨_, rfl⟩, ?_, ?_, ?_⟩ <;> intro p <;> by_cases eq : p = process <;>
    simp [Kernel.modifyProcess, ProcessManager.modifyProcess, eq, pid, pageTable, threads]

theorem thread_eq (same : pm.SameThreads pm') : pm'.threads = pm.threads := by
  obtain ⟨⟨_, rfl⟩, _⟩ := same
  rfl

end ProcessManager.SameThreads

/-- The state of every process is what it was. -/
def ProcessManager.SameStates (pm pm' : ProcessManager) : Prop :=
  ∀ p, (pm'.processes p).state = (pm.processes p).state

/-- The bytes that a read stores, and where. -/
def Process.readStore (process : Nat) (k : Kernel) (fd : BitVec 32) (buffer size : BitVec 64)
    (answer : Answer) : Option (Nat × List (BitVec 8)) :=
  match readInto process k fd buffer size answer with
  | some (some (address, .finalized bytes, _)) => some (address, bytes)
  | some (some (address, .failed stored, _)) => some (address, stored)
  | _ => none

/-- The memory after the read of a system call, if it is one that completes. -/
def readMemory (process syscallId : Nat) (arg : Nat → BitVec 64) (answer : Answer) (k : Kernel) :
    Memory :=
  if syscallId = 3 then
    match Process.readStore process k ((arg 0).setWidth 32) (arg 1) (arg 2) answer with
    | some (address, bytes) => storeBytes k.memory address bytes
    | none => k.memory
  else k.memory

/-- The read finds no line on the console. -/
def Process.Blocks (process : Nat) (k : Kernel) (fd : BitVec 32) (buffer : BitVec 64) :
    Prop :=
  (k.processManager.processes process).fdTable.descriptor (fd.signExtend 64).toNat =
      some (some .console) ∧
    (k.userspaceGet process buffer).isSome ∧ ∀ driver ∈ k.console.driver, driver.lines = []

/-- The call has come back with a value or an error. -/
structure Completed (process syscallId : Nat) (arg : Nat → BitVec 64) (answer : Answer)
    (k k' : Kernel) : Prop where
  threads : k.processManager.SameThreads k'.processManager
  states : syscallId ≠ 5 → k.processManager.SameStates k'.processManager
  dead : syscallId = 5 → (k'.processManager.processes process).state = .dead
  memory : k'.memory = readMemory process syscallId arg answer k

/-- The call has put the calling thread to sleep. -/
structure Blocked (kernelTf process syscallId : Nat) (arg : Nat → BitVec 64) (k k' : Kernel) :
    Prop where
  read : syscallId = 3
  blocks : Process.Blocks process k ((arg 0).setWidth 32) (arg 1)
  thread : ∃ thread, k.getCurrentThread kernelTf = some thread ∧
    k'.processManager = k.processManager.block (k.processManager.processes process).pid
      (k.processManager.threads thread).tid
  memory : k'.memory = k.memory

section

variable {kernelTf process : Nat} {k k' : Kernel} {arg : Nat → BitVec 64} {answer : Answer}

/-- A read of a file blocks only on the console, and only without a line. -/
theorem fileRead_blocked_iff {file : File} {console : Devices.ConsoleDevice} {size : BitVec 64} :
    (∃ context console', Process.fileRead file console size answer = (.blocked context, console')) ↔
      file = .console ∧ ∀ driver ∈ console.driver, driver.lines = [] := by
  cases file with
  | regular => cases content : answer.content <;> simp [Process.fileRead, content]
  | console =>
    obtain ⟨driver, requests⟩ := console
    cases driver with
    | none => simp [Process.fileRead, Devices.ConsoleDevice.readAsync, Devices.ConsoleDevice.read]
    | some driver =>
      cases lines : driver.lines <;>
        simp [Process.fileRead, Devices.ConsoleDevice.readAsync, Devices.ConsoleDevice.read,
          Devices.NS16550ADriver.readLine, lines]

/-! ## The handlers -/

theorem readMemory_of_ne {syscallId : Nat} (ne : syscallId ≠ 3) :
    readMemory process syscallId arg answer k = k.memory := if_neg ne

/-- A call that leaves the kernel as it is. -/
theorem Completed.refl {syscallId : Nat} (noRead : syscallId ≠ 3) (noExit : syscallId ≠ 5) :
    Completed process syscallId arg answer k k :=
  { threads := .refl _, states := fun _ _ => rfl, dead := fun eq => absurd eq noExit
    memory := (readMemory_of_ne noRead).symm }

/-- A call that changes the file descriptors of the process. -/
theorem Completed.fdTable {syscallId : Nat} (noRead : syscallId ≠ 3) (noExit : syscallId ≠ 5)
    (table : FileSystem.FileDescriptorTable File) :
    Completed process syscallId arg answer k
      (k.modifyProcess process ({ · with fdTable := table })) where
  threads := .modifyProcess k process _ (fun _ => rfl) (fun _ => rfl) (fun _ => rfl)
  states := by
    intro _ p
    by_cases eq : p = process <;> simp [Kernel.modifyProcess, ProcessManager.modifyProcess, eq]
  dead := fun eq => absurd eq noExit
  memory := by rw [readMemory_of_ne noRead]; rfl

theorem handleOpen_completed {path : BitVec 64} {result : Except SysError (BitVec 64)}
    (handled : Process.handleOpen process k path answer = some (result, k')) :
    result ≠ .error .blocked ∧ Completed process 0 arg answer k k' := by
  unfold Process.handleOpen at handled
  split at handled
  · cases handled
    exact ⟨by simp, .refl (by decide) (by decide)⟩
  split at handled
  · cases handled
    exact ⟨by simp, .refl (by decide) (by decide)⟩
  split at handled
  · cases handled
    exact ⟨by simp, .refl (by decide) (by decide)⟩
  · cases handled
    exact ⟨by simp, .fdTable (by decide) (by decide) _⟩

theorem handleClose_completed {fd : BitVec 64} {result : Except SysError (BitVec 64)}
    (handled : Process.handleClose process k fd = some (result, k')) :
    result ≠ .error .blocked ∧ Completed process 1 arg answer k k' := by
  simp only [Process.handleClose, Option.bind_eq_bind, Option.bind_eq_some_iff] at handled
  obtain ⟨descriptor, -, handled⟩ := handled
  split at handled
  · cases handled
    exact ⟨by simp, .refl (by decide) (by decide)⟩
  · cases handled
    exact ⟨by simp, .fdTable (by decide) (by decide) _⟩

theorem handleDbgln_completed {message : BitVec 64} {result : Except SysError (BitVec 64)}
    (handled : Process.handleDbgln process k message = some (result, k')) :
    result ≠ .error .blocked ∧ Completed process 2 arg answer k k' := by
  unfold Process.handleDbgln at handled
  split at handled <;> cases handled <;>
    exact ⟨by simp, .refl (by decide) (by decide)⟩

theorem handleExit_completed {exitCode : BitVec 32} {result : Except SysError (BitVec 64)}
    (handled : Process.handleExit process k exitCode = some (result, k')) :
    result ≠ .error .blocked ∧ Completed process 5 arg answer k k' := by
  cases handled
  refine ⟨by simp, ?_, fun ne => absurd rfl ne, fun _ => ?_, ?_⟩
  · exact .modifyProcess k process _ (fun _ => rfl) (fun _ => rfl) (fun _ => rfl)
  · simp [Kernel.modifyProcess, ProcessManager.modifyProcess]
  · rw [readMemory_of_ne (by decide)]
    rfl

theorem readInto_blocked_iff {fd : BitVec 32} {buffer size : BitVec 64}
    {read : Option (Nat × Process.ReadResult × Devices.ConsoleDevice)}
    (found : Process.readInto process k fd buffer size answer = some read) :
    (∃ address context console, read = some (address, .blocked context, console)) ↔
      Process.Blocks process k fd buffer := by
  simp only [Process.readInto, Option.bind_eq_bind, Option.bind_eq_some_iff] at found
  obtain ⟨file, descriptor, found⟩ := found
  cases translated : k.userspaceGet process buffer with
  | none =>
    simp only [translated] at found
    cases found
    simp [Process.Blocks, translated]
  | some address =>
    simp only [translated, Option.bind_eq_some_iff] at found
    obtain ⟨file, rfl, found⟩ := found
    cases found
    simpa [Process.Blocks, descriptor, translated] using
      @fileRead_blocked_iff answer file k.console size

/-- A read completes or blocks. -/
theorem handleRead_cases {result : Except SysError (BitVec 64)}
    (handled : Process.handleRead kernelTf process k ((arg 0).setWidth 32) (arg 1) (arg 2) answer =
      some (result, k')) :
    (result ≠ .error .blocked ∧ ¬ Process.Blocks process k ((arg 0).setWidth 32) (arg 1) ∧
        Completed process 3 arg answer k k') ∨
      result = .error .blocked ∧ Blocked kernelTf process 3 arg k k' := by
  simp only [Process.handleRead, Option.bind_eq_bind, Option.bind_eq_some_iff] at handled
  obtain ⟨read, found, handled⟩ := handled
  have blocked := readInto_blocked_iff found
  match read with
  | none =>
    cases handled
    have store : Process.readStore process k ((arg 0).setWidth 32) (arg 1) (arg 2) answer = none := by
      simp [Process.readStore, found]
    exact .inl ⟨by simp, by simp [← blocked], .refl _, fun _ _ => rfl,
      fun eq => absurd eq (by decide), by simp [readMemory, store]⟩
  | some (address, .failed stored, console) =>
    cases handled
    have store : Process.readStore process k ((arg 0).setWidth 32) (arg 1) (arg 2) answer =
        some (address, stored) := by simp [Process.readStore, found]
    exact .inl ⟨by simp, by simp [← blocked], .refl _, fun _ _ => rfl,
      fun eq => absurd eq (by decide), by simp [readMemory, store]⟩
  | some (address, .finalized bytes, console) =>
    simp only [Option.bind_eq_some_iff] at handled
    obtain ⟨_, -, handled⟩ := handled
    cases handled
    have store : Process.readStore process k ((arg 0).setWidth 32) (arg 1) (arg 2) answer =
        some (address, bytes) := by simp [Process.readStore, found]
    exact .inl ⟨by simp, by simp [← blocked], .refl _, fun _ _ => rfl,
      fun eq => absurd eq (by decide), by simp [readMemory, store]⟩
  | some (address, .blocked context, console) =>
    simp only [Option.bind_eq_some_iff] at handled
    obtain ⟨thread, current, handled⟩ := handled
    cases handled
    exact .inr ⟨rfl, rfl, blocked.1 ⟨_, _, _, rfl⟩, ⟨thread, current, rfl⟩, rfl⟩

theorem readInto_of_blocks (answer : Answer)
    (blocks : Process.Blocks process k ((arg 0).setWidth 32) (arg 1)) :
    ∃ address context console,
      Process.readInto process k ((arg 0).setWidth 32) (arg 1) (arg 2) answer =
        some (some (address, .blocked context, console)) := by
  obtain ⟨descriptor, translated, noLine⟩ := blocks
  obtain ⟨address, translated⟩ := Option.isSome_iff_exists.1 translated
  obtain ⟨context, console, read⟩ :=
    (@fileRead_blocked_iff answer .console k.console (arg 2)).2 ⟨rfl, noLine⟩
  exact ⟨address, context, console, by simp [Process.readInto, descriptor, translated, read]⟩

/-- A read that finds no line does block. -/
theorem handleRead_of_blocks (answer : Answer)
    (blocks : Process.Blocks process k ((arg 0).setWidth 32) (arg 1))
    {thread : Nat} (current : k.getCurrentThread kernelTf = some thread) :
    ∃ k', Process.handleRead kernelTf process k ((arg 0).setWidth 32) (arg 1) (arg 2) answer =
      some (.error .blocked, k') := by
  obtain ⟨address, context, console, into⟩ := readInto_of_blocks answer blocks
  simp [Process.handleRead, into, current]

/-- And it stores nothing. -/
theorem readStore_of_blocks (answer : Answer)
    (blocks : Process.Blocks process k ((arg 0).setWidth 32) (arg 1)) :
    Process.readStore process k ((arg 0).setWidth 32) (arg 1) (arg 2) answer = none := by
  obtain ⟨address, context, console, into⟩ := readInto_of_blocks answer blocks
  rw [Process.readStore, into]

/-! ## The call -/

/-- A handler completes or blocks. -/
theorem syscallHandler_cases {syscallId : Nat} {result : Except SysError (BitVec 64)}
    (handled : syscallHandler kernelTf process syscallId arg answer k = some (result, k')) :
    (result ≠ .error .blocked ∧
        ¬ (syscallId = 3 ∧ Process.Blocks process k ((arg 0).setWidth 32) (arg 1)) ∧
        Completed process syscallId arg answer k k') ∨
      result = .error .blocked ∧ Blocked kernelTf process syscallId arg k k' := by
  unfold syscallHandler at handled
  split at handled
  · obtain ⟨value, completed⟩ := handleOpen_completed handled
    exact .inl ⟨value, by simp, completed⟩
  · obtain ⟨value, completed⟩ := handleClose_completed handled
    exact .inl ⟨value, by simp, completed⟩
  · obtain ⟨value, completed⟩ := handleDbgln_completed handled
    exact .inl ⟨value, by simp, completed⟩
  · simpa using handleRead_cases handled
  · cases handled
    exact .inl ⟨by simp, by simp, .refl (by decide) (by decide)⟩
  · obtain ⟨value, completed⟩ := handleExit_completed handled
    exact .inl ⟨value, by simp, completed⟩
  · cases handled
    exact .inl ⟨by cases answer.listed <;> simp, by simp, .refl (by decide) (by decide)⟩
  · cases handled
    exact .inl ⟨by simp, fun eq => absurd eq.1 ‹_›, .refl ‹_› ‹_›⟩

/-- The arguments of a system call, in the registers of the frame at `tf`. -/
def syscallArg (k : Kernel) (tf i : Nat) : BitVec 64 := load64 k.memory (TrapFrame.regs tf (10 + i))

/-- The calling thread is put to sleep, or its call completes with a value in `a0`; an unknown call
does nothing. -/
theorem handleSyscall_cases {thread : Nat} (current : k.getCurrentThread kernelTf = some thread)
    {syscallId : BitVec 64} {result : Except SysError Unit}
    (handled : handleSyscall kernelTf (some process) syscallId answer k = some (result, k')) :
    let tf := (k.processManager.threads thread).trapFrame
    let blocks := syscallId.toNat = 3 ∧ Process.Blocks process k ((syscallArg k tf 0).setWidth 32)
      (syscallArg k tf 1)
    (result = .error .blocked ∧ Blocked kernelTf process syscallId.toNat (syscallArg k tf) k k') ∨
      result = .ok () ∧ ¬ blocks ∧ (10 ≤ syscallId.toNat ∧ k' = k ∨
        syscallId.toNat < 10 ∧ ∃ k₁ value,
          Completed process syscallId.toNat (syscallArg k tf) answer k k₁ ∧
          k' = { k₁ with memory := store64 k₁.memory (TrapFrame.regs tf 10) value }) := by
  intro tf blocks
  unfold handleSyscall at handled
  split at handled
  · rename_i unknown
    cases handled
    exact .inr ⟨rfl, fun h => by omega, .inl ⟨unknown, rfl⟩⟩
  rename_i known
  simp only [current, Option.bind_eq_bind, Option.bind_some, Option.bind_eq_some_iff] at handled
  obtain ⟨⟨handlerResult, k₁⟩, handler, handled⟩ := handled
  rcases syscallHandler_cases handler with ⟨value, noBlock, completed⟩ | ⟨eq, blocked⟩
  · match handlerResult with
    | .error .blocked => exact absurd rfl value
    | .error .error =>
      cases handled
      exact .inr ⟨rfl, noBlock, .inr ⟨by omega, k₁, _, completed, rfl⟩⟩
    | .ok v =>
      cases handled
      exact .inr ⟨rfl, noBlock, .inr ⟨by omega, k₁, _, completed, rfl⟩⟩
  · subst eq
    cases handled
    exact .inl ⟨rfl, blocked⟩

theorem handleSyscall_of_blocks (answer : Answer) {thread : Nat}
    (current : k.getCurrentThread kernelTf = some thread)
    {syscallId : BitVec 64} (read : syscallId.toNat = 3)
    (blocks : Process.Blocks process k
      ((syscallArg k (k.processManager.threads thread).trapFrame 0).setWidth 32)
      (syscallArg k (k.processManager.threads thread).trapFrame 1)) :
    ∃ k', handleSyscall kernelTf (some process) syscallId answer k = some (.error .blocked, k') := by
  obtain ⟨k', handled⟩ := handleRead_of_blocks answer blocks current
  refine ⟨k', ?_⟩
  rw [handleSyscall, if_neg (by omega)]
  simp only [current, Option.bind_eq_bind, Option.bind_some, read, syscallHandler]
  exact handled ▸ rfl

end

end MatteOS.Processes
