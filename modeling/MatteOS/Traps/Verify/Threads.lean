import MatteOS.Processes.Verify.Syscalls
import MatteOS.Traps.Verify.TrapFrames

/-!
# Threads and their frames

What `create_dummy_process` has made: a layout of processes of one thread each, whose
frames lie apart (`Layout`), and the objects that describe it (`Layout.Objects`). Every
handler keeps the objects, and touches kernel memory in the frames only.
-/

namespace MatteOS.Traps

open ByteMemory Processes

/-- A process of one thread. -/
structure Task where
  process : Nat
  thread : Nat
  trapFrame : Nat
  pageTable : Nat
  pid : BitVec 64
  satp : BitVec 64
deriving DecidableEq

/-- The processes, the kernel trap frame of the hart, and the bytes that no user page maps for
writing. -/
structure Layout where
  kernelTf : Nat
  tasks : List Task
  kernelMemory : Nat → Prop
  framesOwned : ∀ t ∈ tasks, ∀ x, bytesAt t.trapFrame TrapFrame.SIZE x → kernelMemory x
  kernelFrameOwned : ∀ x, bytesAt kernelTf KernelTrapFrame.SIZE x → kernelMemory x
  framesApart : ∀ t ∈ tasks, ∀ u ∈ tasks, t ≠ u →
    t.trapFrame + TrapFrame.SIZE ≤ u.trapFrame ∨ u.trapFrame + TrapFrame.SIZE ≤ t.trapFrame
  kernelFrameApart : ∀ t ∈ tasks,
    t.trapFrame + TrapFrame.SIZE ≤ kernelTf ∨ kernelTf + KernelTrapFrame.SIZE ≤ t.trapFrame
  processesDistinct : (tasks.map Task.process).Nodup
  threadsDistinct : (tasks.map Task.thread).Nodup
  pidsDistinct : (tasks.map Task.pid).Nodup

/-- The only element with a property is found. -/
theorem find?_eq_some_of_unique {α : Type} {l : List α} {p : α → Bool} {a : α} (mem : a ∈ l)
    (sat : p a) (unique : ∀ b ∈ l, p b → b = a) : l.find? p = some a := by
  induction l with
  | nil => cases mem
  | cons b l ih =>
    by_cases here : p b
    · rw [List.find?_cons_of_pos here, unique b (by simp) here]
    · rw [List.find?_cons_of_neg here]
      refine ih ?_ fun c mem => unique c (by simp [mem])
      rcases List.mem_cons.1 mem with rfl | mem
      · exact absurd sat here
      · exact mem

namespace Layout

variable (l : Layout)

/-- The objects of the layout. -/
structure Objects (pm : ProcessManager) : Prop where
  unlocked : pm.processListLock = 0
  queued : ∃ n, pm.Queued ((l.tasks.map Task.thread).rotate n)
  listed : pm.processList = l.tasks.map Task.process
  process : ∀ t ∈ l.tasks, (pm.processes t.process).pid = t.pid ∧
    (pm.processes t.process).pageTable = t.pageTable ∧
    (pm.processes t.process).threads = [t.thread]
  thread : ∀ t ∈ l.tasks, (pm.threads t.thread).trapFrame = t.trapFrame ∧
    (pm.threads t.thread).tid = 0 ∧ (pm.threads t.thread).pid = t.pid

/-- The kernel trap frame names the thread of `t`. -/
structure Current (m : Memory) (t : Task) : Prop where
  pid : load64 m (KernelTrapFrame.currentProcessId l.kernelTf) = t.pid
  tid : load64 m (KernelTrapFrame.currentThreadId l.kernelTf) = 0

variable {l} {t u : Task} {pm pm' : ProcessManager} {k k' : Kernel} {m m' : Memory}

/-! ## Looking threads up -/

theorem task_eq_of_pid (ht : t ∈ l.tasks) (hu : u ∈ l.tasks) (eq : t.pid = u.pid) : t = u :=
  List.inj_on_of_nodup_map l.pidsDistinct ht hu eq

theorem task_eq_of_thread (ht : t ∈ l.tasks) (hu : u ∈ l.tasks) (eq : t.thread = u.thread) :
    t = u :=
  List.inj_on_of_nodup_map l.threadsDistinct ht hu eq

theorem task_eq_of_trapFrame (ht : t ∈ l.tasks) (hu : u ∈ l.tasks)
    (eq : t.trapFrame = u.trapFrame) : t = u := by
  by_contra ne
  have := l.framesApart t ht u hu ne
  simp only [TrapFrame.SIZE] at this
  omega

namespace Objects

theorem getProcess_eq (objects : l.Objects pm) (ht : t ∈ l.tasks) :
    pm.getProcess t.pid = .ok t.process := by
  have found : pm.processList.find? (fun p => (pm.processes p).pid == t.pid) = some t.process := by
    rw [objects.listed]
    refine find?_eq_some_of_unique (List.mem_map_of_mem ht) (by simp [(objects.process t ht).1]) ?_
    intro p mem sat
    obtain ⟨u, hu, rfl⟩ := List.mem_map.1 mem
    rw [beq_iff_eq, (objects.process u hu).1] at sat
    rw [task_eq_of_pid hu ht sat]
  simp [ProcessManager.getProcess, found]

theorem getThread_eq (objects : l.Objects pm) (ht : t ∈ l.tasks) :
    pm.getThread t.pid 0 = .ok t.thread := by
  have tid := (objects.thread t ht).2.1
  simp [ProcessManager.getThread, objects.getProcess_eq ht, (objects.process t ht).2.2,
    Except.bind, bind, tid]

theorem getCurrentProcess_eq (objects : l.Objects k.processManager) (ht : t ∈ l.tasks)
    (current : l.Current k.memory t) : k.getCurrentProcess l.kernelTf = some t.process := by
  rw [Kernel.getCurrentProcess, current.pid, objects.getProcess_eq ht]
  rfl

theorem getCurrentThread_eq (objects : l.Objects k.processManager) (ht : t ∈ l.tasks)
    (current : l.Current k.memory t) : k.getCurrentThread l.kernelTf = some t.thread := by
  rw [Kernel.getCurrentThread, current.pid, current.tid, objects.getThread_eq ht]
  rfl

/-! ## What keeps the objects -/

theorem setThreadState (objects : l.Objects pm) (thread : Nat) (state : ThreadState) :
    l.Objects (pm.setThreadState thread state) where
  unlocked := objects.unlocked
  queued := objects.queued
  listed := objects.listed
  process := objects.process
  thread u hu := by
    rw [ProcessManager.setThreadState_threads]
    by_cases eq : u.thread = thread
    · simpa [eq] using eq ▸ objects.thread u hu
    · simpa [eq] using objects.thread u hu

theorem unblock (objects : l.Objects pm) (pid tid : BitVec 64) :
    l.Objects (pm.unblock pid tid) := by
  rcases pm.unblock_eq pid tid with eq | ⟨thread, _, eq⟩ <;> rw [eq]
  · exact objects
  · exact objects.setThreadState thread .running

theorem block (objects : l.Objects pm) (pid tid : BitVec 64) : l.Objects (pm.block pid tid) := by
  rcases pm.block_eq pid tid with eq | ⟨thread, _, eq⟩ <;> rw [eq]
  · exact objects
  · exact objects.setThreadState thread .blocked

theorem sameThreads (objects : l.Objects pm) (same : pm.SameThreads pm') : l.Objects pm' := by
  have pid := same.pid
  have pageTable := same.pageTable
  have threads := same.threads
  obtain ⟨processes, rfl⟩ := same.eq
  refine ⟨objects.unlocked, objects.queued, objects.listed, fun t ht => ?_, objects.thread⟩
  rw [pid, pageTable, threads]
  exact objects.process t ht

theorem rotated (objects : l.Objects pm) (rotated : pm.Rotated pm') {n : Nat}
    (queued : pm'.Queued ((l.tasks.map Task.thread).rotate n)) : l.Objects pm' := by
  obtain ⟨queueElements, runQueue, rfl⟩ := rotated
  exact ⟨objects.unlocked, ⟨n, queued⟩, objects.listed, objects.process, objects.thread⟩

/-- Waking the threads of the console's requests. -/
theorem foldl_unblock (objects : l.Objects pm) (requests : List Devices.RequestContext) :
    l.Objects (requests.foldl (fun pm r => pm.unblock r.pid r.tid) pm) := by
  induction requests generalizing pm with
  | nil => exact objects
  | cons r requests ih => exact ih (objects.unblock r.pid r.tid)

end Objects

/-! ## Frames do not interfere -/

theorem kernelFrame_miss (ht : t ∈ l.tasks) {x : Nat}
    (h : bytesAt l.kernelTf KernelTrapFrame.SIZE x) :
    x < t.trapFrame ∨ t.trapFrame + TrapFrame.SIZE ≤ x := by
  have := l.kernelFrameApart t ht
  simp only [bytesAt] at h
  omega

theorem frame_miss (ht : t ∈ l.tasks) (hu : u ∈ l.tasks) (ne : t ≠ u) {x : Nat}
    (h : bytesAt u.trapFrame TrapFrame.SIZE x) :
    x < t.trapFrame ∨ t.trapFrame + TrapFrame.SIZE ≤ x := by
  have := l.framesApart t ht u hu ne
  simp only [bytesAt] at h
  omega

/-- The ids in the kernel trap frame depend on it only. -/
theorem Current.congr (current : l.Current m t)
    (agree : AgreeOn (bytesAt l.kernelTf KernelTrapFrame.SIZE) m m') : l.Current m' t where
  pid := by
    rw [agree.load64 (by simp [KernelTrapFrame.currentProcessId])
      (by simp [KernelTrapFrame.currentProcessId, KernelTrapFrame.SIZE]), current.pid]
  tid := by
    rw [agree.load64 (by simp [KernelTrapFrame.currentThreadId])
      (by simp [KernelTrapFrame.currentThreadId, KernelTrapFrame.SIZE]), current.tid]

/-- Stores within the frame of a thread leave the kernel trap frame. -/
theorem agreeOn_store (ht : t ∈ l.tasks) {a : Nat} (lower : t.trapFrame ≤ a)
    (upper : a + 8 ≤ t.trapFrame + TrapFrame.SIZE) (v : BitVec 64) :
    AgreeOn (bytesAt l.kernelTf KernelTrapFrame.SIZE) m (store64 m a v) :=
  (AgreeOn.refl _ m).store64 v fun x h => by
    have := kernelFrame_miss ht h
    omega

theorem agreeOn_saveContext (ht : t ∈ l.tasks) (c : Context) (scause stval satp : BitVec 64) :
    AgreeOn (bytesAt l.kernelTf KernelTrapFrame.SIZE) m
      (saveContext t.trapFrame c scause stval satp m) := fun x h =>
  saveContext_apply_of_outside _ _ _ _ _ _ (by
    have := kernelFrame_miss ht h
    simp only [TrapFrame.SIZE] at this
    omega)

/-- `prepare_for_switch` makes the kernel trap frame name the thread. -/
theorem current_prepareForSwitch (objects : l.Objects pm) (ht : t ∈ l.tasks) (m : Memory) :
    l.Current (Scheduler.prepareForSwitch l.kernelTf (pm.threads t.thread) m) t := by
  obtain ⟨-, tid, pid⟩ := objects.thread t ht
  constructor
  · rw [Scheduler.prepareForSwitch, load64_store64_of_disjoint _ _ (by
      simp only [KernelTrapFrame.currentProcessId, KernelTrapFrame.currentThreadId]; omega),
      load64_store64, pid]
  · rw [Scheduler.prepareForSwitch, load64_store64, tid]

end Layout

end MatteOS.Traps
