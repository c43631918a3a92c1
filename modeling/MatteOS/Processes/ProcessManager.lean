import MatteOS.FileSystem.FileDescriptorTable
import MatteOS.Memory.PageTable
import MatteOS.Utils.LinkedQueue

/-!
# Processes and threads

`Process`, `Thread` and the `ProcessManager` that lists them. Threads and processes are
never deleted: a pointer to one is an address with an object.
-/

namespace MatteOS.Processes

open Utils

inductive ThreadState where
  | running
  | sleeping
  | blocked
  | dead
deriving DecidableEq

structure Thread where
  trapFrame : Nat
  tid : BitVec 64
  pid : BitVec 64
  state : ThreadState
deriving DecidableEq

inductive ProcessState where
  | running
  | sleeping
  | blocked
  | dead
deriving DecidableEq

/-- An open file: that of the console device, or one of a file system. -/
inductive File where
  | console
  | regular
deriving DecidableEq

structure Process where
  pid : BitVec 64
  pageTable : Nat
  state : ProcessState
  fdTable : FileSystem.FileDescriptorTable File
  threads : List Nat
deriving DecidableEq

/-- The process manager and the objects it owns. -/
structure ProcessManager where
  runQueue : LinkedQueue
  processList : List Nat
  processListLock : BitVec 64
  pidCounter : BitVec 64
  queueElements : QueueElements Nat
  threads : Nat → Thread
  processes : Nat → Process

namespace ProcessManager

variable (pm : ProcessManager)

/-- `SpinLock::try_lock` on the lock of the process list. -/
def tryLock : Bool × ProcessManager :=
  (pm.processListLock == 0, { pm with processListLock := 1 })

/-- `SpinLock::unlock` -/
def unlock : ProcessManager := { pm with processListLock := 0 }

/-- `ProcessManager::get_process` -/
def getProcess (pid : BitVec 64) : Except String Nat :=
  match pm.processList.find? fun process => (pm.processes process).pid == pid with
  | some process => .ok process
  | none => .error "No match found!"

/-- `ProcessManager::get_thread` -/
def getThread (pid tid : BitVec 64) : Except String Nat := do
  let process ← pm.getProcess pid
  match (pm.processes process).threads.find? fun thread => (pm.threads thread).tid == tid with
  | some thread => .ok thread
  | none => .error "No match found!"

/-- Set `m_state` of the thread at `thread`. -/
def setThreadState (thread : Nat) (state : ThreadState) : ProcessManager :=
  { pm with threads := Function.update pm.threads thread { pm.threads thread with state } }

/-- `ProcessManager::unblock` -/
def unblock (pid tid : BitVec 64) : ProcessManager :=
  match pm.getThread pid tid with
  | .error _ => pm
  | .ok thread => pm.setThreadState thread .running

/-- `ProcessManager::block` -/
def block (pid tid : BitVec 64) : ProcessManager :=
  match pm.getThread pid tid with
  | .error _ => pm
  | .ok thread => pm.setThreadState thread .blocked

/-- Change the object of the process at `process`. -/
def modifyProcess (process : Nat) (f : Process → Process) : ProcessManager :=
  { pm with processes := Function.update pm.processes process (f (pm.processes process)) }

/-- The thread at `thread` is `Running`. -/
def Running (thread : Nat) : Prop := (pm.threads thread).state = .running

instance : DecidablePred pm.Running := fun thread =>
  inferInstanceAs (Decidable ((pm.threads thread).state = .running))

/-! ## Only `m_state` changes -/

section

variable (thread : Nat) (state : ThreadState)

@[simp] theorem setThreadState_runQueue :
    (pm.setThreadState thread state).runQueue = pm.runQueue := rfl

@[simp] theorem setThreadState_queueElements :
    (pm.setThreadState thread state).queueElements = pm.queueElements := rfl

@[simp] theorem setThreadState_processListLock :
    (pm.setThreadState thread state).processListLock = pm.processListLock := rfl

@[simp] theorem setThreadState_processList :
    (pm.setThreadState thread state).processList = pm.processList := rfl

@[simp] theorem setThreadState_processes :
    (pm.setThreadState thread state).processes = pm.processes := rfl

theorem setThreadState_threads (t : Nat) : (pm.setThreadState thread state).threads t =
    if t = thread then { pm.threads thread with state } else pm.threads t := by
  simp [setThreadState, Function.update_apply]

end

/-- `block` and `unblock` write one thread's state, if that of any. -/
theorem unblock_eq (pid tid : BitVec 64) :
    pm.unblock pid tid = pm ∨
      ∃ thread, pm.getThread pid tid = .ok thread ∧
        pm.unblock pid tid = pm.setThreadState thread .running := by
  unfold unblock
  cases pm.getThread pid tid with
  | error => exact .inl rfl
  | ok thread => exact .inr ⟨thread, rfl, rfl⟩

theorem block_eq (pid tid : BitVec 64) :
    pm.block pid tid = pm ∨
      ∃ thread, pm.getThread pid tid = .ok thread ∧
        pm.block pid tid = pm.setThreadState thread .blocked := by
  unfold block
  cases pm.getThread pid tid with
  | error => exact .inl rfl
  | ok thread => exact .inr ⟨thread, rfl, rfl⟩

end ProcessManager

end MatteOS.Processes
