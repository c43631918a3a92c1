import MatteOS.Processes.Scheduler

/-!
# System calls

The handlers of `Process` and `SyscallManager::handle_syscall`, on the hart whose kernel
trap frame is `kernelTf`. `none` stands for a call that never comes back: the code follows
a null pointer or stops at an assertion.
-/

namespace MatteOS.Processes

open ByteMemory Traps

inductive SysError where
  | error
  | blocked
deriving DecidableEq

/-- What the file systems answer during one system call. -/
structure Answer where
  /-- `VirtualFileSystem::open` -/
  opened : Option File
  /-- The bytes that a read of a regular file delivers, or those it stores before it fails. -/
  content : Except (List (BitVec 8)) (List (BitVec 8))
  /-- `VirtualFileSystem::list_directory("/")` succeeds. -/
  listed : Bool

namespace Kernel

variable (kernelTf : Nat) (k : Kernel)

/-- `ProcessManager::get_current_process` -/
def getCurrentProcess : Option Nat :=
  (k.processManager.getProcess (load64 k.memory (KernelTrapFrame.currentProcessId kernelTf))).toOption

/-- `ProcessManager::get_current_thread` -/
def getCurrentThread : Option Nat :=
  (k.processManager.getThread (load64 k.memory (KernelTrapFrame.currentProcessId kernelTf))
    (load64 k.memory (KernelTrapFrame.currentThreadId kernelTf))).toOption

def modifyProcess (process : Nat) (f : Process → Process) : Kernel :=
  { k with processManager := k.processManager.modifyProcess process f }

/-- `Userspace::get` for the process at `process`. -/
def userspaceGet (process : Nat) (ptr : BitVec 64) : Option Nat :=
  match Memory.translate k.memory (k.processManager.processes process).pageTable (.ofU64 ptr) with
  | .error _ => none
  | .ok address => some address.getValue.toNat

end Kernel

/-- What a handler gives: its value or error, and the kernel afterwards. -/
abbrev Handled := Option (Except SysError (BitVec 64) × Kernel)

namespace Process

variable (kernelTf process : Nat) (k : Kernel)

/-- `Process::handle_open` -/
def handleOpen (path : BitVec 64) (answer : Answer) : Handled :=
  match k.userspaceGet process path with
  | none => some (.error .error, k)
  | some _ =>
    match answer.opened with
    | none => some (.error .error, k)
    | some file =>
      match (k.processManager.processes process).fdTable.openDescriptor file with
      | (.error _, _) => some (.error .error, k)
      | (.ok fd, table) => some (.ok (.ofNat 64 fd), k.modifyProcess process ({ · with fdTable := table }))

/-- `Process::handle_close` -/
def handleClose (fd : BitVec 64) : Handled := do
  let table := (k.processManager.processes process).fdTable
  let descriptor ← table.descriptor fd.toNat
  if descriptor.isNone then return (.error .error, k)
  return (.ok 0, k.modifyProcess process ({ · with fdTable := (table.close fd.toNat).2 }))

/-- `Process::handle_dbgln` -/
def handleDbgln (message : BitVec 64) : Handled :=
  match k.userspaceGet process message with
  | none => some (.error .error, k)
  | some _ => some (.ok 0, k)

/-- The result of `File::read`. -/
inductive ReadResult where
  | failed (stored : List (BitVec 8))
  | blocked (context : Nat)
  | finalized (bytes : List (BitVec 8))

/-- What `File::read` gives for an open file, and the console afterwards. -/
def fileRead (file : File) (console : Devices.ConsoleDevice) (size : BitVec 64) (answer : Answer) :
    ReadResult × Devices.ConsoleDevice :=
  match file with
  | .regular =>
    match answer.content with
    | .error stored => (.failed stored, console)
    | .ok bytes => (.finalized bytes, console)
  | .console =>
    match console.readAsync with
    | (.blocked context, console) => (.blocked context, console)
    -- the line with its terminating NUL, as far as it fits
    | (.finalized line, console) => (.finalized ((line ++ [0]).take size.toNat), console)

/-- The buffer of a read, and the result of the read. -/
def readInto (fd : BitVec 32) (buffer size : BitVec 64) (answer : Answer) :
    Option (Option (Nat × ReadResult × Devices.ConsoleDevice)) := do
  -- a negative descriptor becomes a large index
  let file ← (k.processManager.processes process).fdTable.descriptor (fd.signExtend 64).toNat
  match k.userspaceGet process buffer with
  | none => return none
  | some address =>
    let file ← file
    return some (address, fileRead file k.console size answer)

/-- `Process::handle_read` -/
def handleRead (fd : BitVec 32) (buffer size : BitVec 64) (answer : Answer) : Handled := do
  match ← readInto process k fd buffer size answer with
  | none => return (.error .error, k)
  | some (address, .failed stored, console) =>
    return (.error .error, { k with console, memory := storeBytes k.memory address stored })
  | some (address, .finalized bytes, console) =>
    let k := { k with console, memory := storeBytes k.memory address bytes }
    let _ ← k.getCurrentThread kernelTf
    return (.ok (.ofNat 64 bytes.length), k)
  | some (_, .blocked context, console) =>
    let thread ← k.getCurrentThread kernelTf
    let pid := (k.processManager.processes process).pid
    let tid := (k.processManager.threads thread).tid
    return (.error .blocked, { k with
      console := console.assign context pid tid
      processManager := k.processManager.block pid tid })

/-- `Process::handle_write` -/
def handleWrite : Handled := some (.error .error, k)

/-- `Process::handle_exit` -/
def handleExit (exitCode : BitVec 32) : Handled :=
  some (.ok (exitCode.signExtend 64), k.modifyProcess process ({ · with state := .dead }))

/-- `Process::handle_ls` -/
def handleLs (answer : Answer) : Handled :=
  some (if answer.listed then .ok 0 else .error .error, k)

end Process

/-- `syscall_handlers[syscall_id]`, of which `dmesg`, `stats` and `mem` only print. -/
def syscallHandler (kernelTf process : Nat) (syscallId : Nat) (arg : Nat → BitVec 64)
    (answer : Answer) (k : Kernel) : Handled :=
  match syscallId with
  | 0 => Process.handleOpen process k (arg 0) answer
  | 1 => Process.handleClose process k (arg 0)
  | 2 => Process.handleDbgln process k (arg 0)
  | 3 => Process.handleRead kernelTf process k ((arg 0).setWidth 32) (arg 1) (arg 2) answer
  | 4 => Process.handleWrite k
  | 5 => Process.handleExit process k ((arg 0).setWidth 32)
  | 9 => Process.handleLs k answer
  | _ => some (.ok 0, k)

/-- `SyscallManager::handle_syscall` -/
def handleSyscall (kernelTf : Nat) (process : Option Nat) (syscallId : BitVec 64) (answer : Answer)
    (k : Kernel) : Option (Except SysError Unit × Kernel) :=
  -- `Syscalls::__Count`
  if 10 ≤ syscallId.toNat then some (.ok (), k)
  else do
    let process ← process
    let currentThread ← k.getCurrentThread kernelTf
    let trapFrame := (k.processManager.threads currentThread).trapFrame
    let arg := fun i => load64 k.memory (TrapFrame.regs trapFrame (10 + i))
    let (result, k) ← syscallHandler kernelTf process syscallId.toNat arg answer k
    match result with
    | .error .blocked => return (.error .blocked, k)
    | .error .error =>
      return (.ok (), { k with memory := store64 k.memory (TrapFrame.regs trapFrame 10) (-1) })
    | .ok value =>
      return (.ok (), { k with memory := store64 k.memory (TrapFrame.regs trapFrame 10) value })

end MatteOS.Processes
