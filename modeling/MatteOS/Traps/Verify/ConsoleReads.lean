import MatteOS.Traps.Verify.Scheduling

/-!
# Reading from the console

Threads read from `/dev/tty0` while its interrupts arrive, one of these at a time
(`ConsoleStep`). No wake-up is lost: a thread that waits has its context in `m_requests` and there
is no line it could have had, so the interrupt that completes a line wakes all that wait
(`noLostWakeup`).
-/

namespace MatteOS.Traps

open ByteMemory Processes

/-- A system call `read` of a thread on the console, an interrupt of the console, or whatever else
leads to the kernel `k`. The memory `m` is what the code run before has left. -/
inductive ConsoleEvent where
  | read (t : Task) (m : Memory) (fd : BitVec 32) (buffer size : BitVec 64) (answer : Answer)
  | interrupt (m : Memory) (received : Option (BitVec 8))
  | other (k : Kernel)

/-- The event is possible: the caller is the current thread and its file is the console, and
nothing but the reads and the interrupts changes the states of threads or the console. -/
def ConsoleEvent.Occurs (l : Layout) (k : Kernel) : ConsoleEvent → Prop
  | .read t m fd _ _ _ => t ∈ l.tasks ∧ l.Current m t ∧
    (k.processManager.processes t.process).fdTable.descriptor (fd.signExtend 64).toNat =
      some (some .console)
  | .interrupt _ _ => True
  | .other k' => l.Objects k'.processManager ∧
    k'.processManager.threads = k.processManager.threads ∧ k'.console = k.console

/-- The kernel after the event, if the code comes back from it. -/
def ConsoleEvent.next (l : Layout) (k : Kernel) : ConsoleEvent → Option Kernel
  | .read t m fd buffer size answer =>
    (Process.handleRead l.kernelTf t.process { k with memory := m } fd buffer size answer).map
      Prod.snd
  | .interrupt m received => some (handleConsoleInterrupt { k with memory := m } received)
  | .other k' => some k'

def ConsoleStep (l : Layout) (k : Kernel) (e : ConsoleEvent) (k' : Kernel) : Prop :=
  e.Occurs l k ∧ e.next l k = some k'

/-- The interrupt receives a carriage return, which completes a line of the driver. -/
def ConsoleEvent.CompletesLine (k : Kernel) : ConsoleEvent → Prop
  | .interrupt _ received => received = some 13 ∧ k.console.driver ≠ none
  | _ => False

namespace Layout

variable (l : Layout)

/-- The thread of `t` waits for a line. -/
def Waits (k : Kernel) (t : Task) : Prop := (k.processManager.threads t.thread).state = .blocked

/-- No thread waits, and no request is open. -/
structure ConsoleInitial (k : Kernel) : Prop where
  objects : l.Objects k.processManager
  running : ∀ t ∈ l.tasks, k.processManager.Running t.thread
  requests : k.console.requests = []

/-- Every thread that waits has its own context in `m_requests`, and while there are requests there
is no line. -/
structure ConsoleInv (k : Kernel) : Prop where
  objects : l.Objects k.processManager
  waiting : ∀ t ∈ l.tasks, Waits k t → ⟨t.pid, 0⟩ ∈ k.console.requests
  noLine : k.console.requests ≠ [] → ∀ driver ∈ k.console.driver, driver.lines = []

end Layout

section

variable {l : Layout} {t : Task} {k k' : Kernel} {e : ConsoleEvent}

/-! ## The ways a read goes -/

/-- What `handle_read` does on the console. -/
inductive ConsoleRead (t : Task) (k : Kernel) (fd : BitVec 32) (buffer size : BitVec 64)
    (answer : Answer) : Kernel → Prop where
  | unmapped (unmapped : k.userspaceGet t.process buffer = none)
      (store : Process.readStore t.process k fd buffer size answer = none) :
      ConsoleRead t k fd buffer size answer k
  | finalized {driver : Devices.NS16550ADriver} {line : List (BitVec 8)}
      {lines : List (List (BitVec 8))} {address : Nat} (loaded : k.console.driver = some driver)
      (first : driver.lines = line :: lines)
      (mapped : k.userspaceGet t.process buffer = some address)
      (store : Process.readStore t.process k fd buffer size answer =
        some (address, (line ++ [0]).take size.toNat)) :
      ConsoleRead t k fd buffer size answer { k with
        console := { k.console with driver := some { driver with lines } }
        memory := storeBytes k.memory address ((line ++ [0]).take size.toNat) }
  | blocked (noLine : ∀ driver ∈ k.console.driver, driver.lines = [])
      (store : Process.readStore t.process k fd buffer size answer = none) :
      ConsoleRead t k fd buffer size answer { k with
        console := { k.console with requests := k.console.requests ++ [⟨t.pid, 0⟩] }
        processManager := k.processManager.setThreadState t.thread .blocked }

/-- A read finds a line, or leaves a new context. -/
theorem readAsync_cases (console : Devices.ConsoleDevice) :
    (∃ driver line lines, console.driver = some driver ∧ driver.lines = line :: lines ∧
      console.readAsync = (.finalized line, { console with driver := some { driver with lines } })) ∨
    (∀ driver ∈ console.driver, driver.lines = []) ∧
      console.readAsync = (.blocked console.requests.length,
        { console with requests := console.requests ++ [.create] }) := by
  rcases console with ⟨_ | ⟨buffer, lines⟩, requests⟩
  · exact .inr ⟨nofun, rfl⟩
  · cases lines with
    | nil =>
      refine .inr ⟨fun driver mem => ?_, rfl⟩
      cases mem
      rfl
    | cons line lines => exact .inl ⟨_, _, _, rfl, rfl, rfl⟩

theorem modify_concat {α : Type} (xs : List α) (a : α) (f : α → α) :
    (xs ++ [a]).modify xs.length f = xs ++ [f a] := by
  induction xs with
  | nil => rfl
  | cons x xs ih =>
    rw [List.cons_append, List.length_cons, List.modify_succ_cons, ih]
    rfl

/-- The caller enters its ids into the new context. -/
theorem assign_new (driver : Option Devices.NS16550ADriver)
    (requests : List Devices.RequestContext) (pid tid : BitVec 64) :
    Devices.ConsoleDevice.assign requests.length pid tid
      { driver, requests := requests ++ [.create] } =
      { driver, requests := requests ++ [⟨pid, tid⟩] } := by
  rw [Devices.ConsoleDevice.assign, modify_concat]
  rfl

theorem readInto_of_line {fd : BitVec 32} {buffer size : BitVec 64} {answer : Answer}
    (file : (k.processManager.processes t.process).fdTable.descriptor (fd.signExtend 64).toNat =
      some (some .console)) {address : Nat} (mapped : k.userspaceGet t.process buffer = some address)
    {driver : Devices.NS16550ADriver} {line : List (BitVec 8)} {lines : List (List (BitVec 8))}
    (loaded : k.console.driver = some driver) (first : driver.lines = line :: lines) :
    Process.readInto t.process k fd buffer size answer =
      some (some (address, .finalized ((line ++ [0]).take size.toNat),
        { k.console with driver := some { driver with lines } })) := by
  rcases readAsync_cases k.console with ⟨driver', line', lines', loaded', first', read⟩ | ⟨noLine, -⟩
  · rw [loaded] at loaded'
    cases loaded'
    rw [first] at first'
    cases first'
    simp [Process.readInto, file, mapped, Process.fileRead, read]
  · rw [noLine driver loaded] at first
    cases first

theorem readInto_of_noLine {fd : BitVec 32} {buffer size : BitVec 64} {answer : Answer}
    (file : (k.processManager.processes t.process).fdTable.descriptor (fd.signExtend 64).toNat =
      some (some .console)) {address : Nat} (mapped : k.userspaceGet t.process buffer = some address)
    (noLine : ∀ driver ∈ k.console.driver, driver.lines = []) :
    Process.readInto t.process k fd buffer size answer =
      some (some (address, .blocked k.console.requests.length,
        { k.console with requests := k.console.requests ++ [.create] })) := by
  rcases readAsync_cases k.console with ⟨driver, line, lines, loaded, first, -⟩ | ⟨-, read⟩
  · rw [noLine driver loaded] at first
    cases first
  · simp [Process.readInto, file, mapped, Process.fileRead, read]

/-- Without a line the caller waits. -/
theorem handleRead_of_noLine (objects : l.Objects k.processManager) (ht : t ∈ l.tasks)
    (current : l.Current k.memory t) {fd : BitVec 32} {buffer size : BitVec 64} {answer : Answer}
    (file : (k.processManager.processes t.process).fdTable.descriptor (fd.signExtend 64).toNat =
      some (some .console)) {address : Nat} (mapped : k.userspaceGet t.process buffer = some address)
    (noLine : ∀ driver ∈ k.console.driver, driver.lines = []) :
    Process.handleRead l.kernelTf t.process k fd buffer size answer =
      some (.error .blocked, { k with
        console := { k.console with requests := k.console.requests ++ [⟨t.pid, 0⟩] }
        processManager := k.processManager.setThreadState t.thread .blocked }) := by
  simp only [Process.handleRead, readInto_of_noLine file mapped noLine, Option.bind_eq_bind,
    Option.bind_some, objects.getCurrentThread_eq ht current, (objects.process t ht).1,
    (objects.thread t ht).2.1, assign_new, ProcessManager.block, objects.getThread_eq ht]
  rfl

/-- With a line the caller gets what of it fits. -/
theorem handleRead_of_line (objects : l.Objects k.processManager) (ht : t ∈ l.tasks)
    {fd : BitVec 32} {buffer size : BitVec 64} {answer : Answer}
    (file : (k.processManager.processes t.process).fdTable.descriptor (fd.signExtend 64).toNat =
      some (some .console)) {address : Nat} (mapped : k.userspaceGet t.process buffer = some address)
    {driver : Devices.NS16550ADriver} {line : List (BitVec 8)} {lines : List (List (BitVec 8))}
    (loaded : k.console.driver = some driver) (first : driver.lines = line :: lines)
    (kept : l.Current (storeBytes k.memory address ((line ++ [0]).take size.toNat)) t) :
    Process.handleRead l.kernelTf t.process k fd buffer size answer =
      some (.ok (.ofNat 64 ((line ++ [0]).take size.toNat).length), { k with
        console := { k.console with driver := some { driver with lines } }
        memory := storeBytes k.memory address ((line ++ [0]).take size.toNat) }) := by
  have caller := objects.getCurrentThread_eq (k := { k with
    console := { k.console with driver := some { driver with lines } }
    memory := storeBytes k.memory address ((line ++ [0]).take size.toNat) }) ht kept
  simp only [Process.handleRead, readInto_of_line file mapped loaded first, Option.bind_eq_bind,
    Option.bind_some, caller]
  rfl

theorem handleRead_console (objects : l.Objects k.processManager) (ht : t ∈ l.tasks)
    (current : l.Current k.memory t) {fd : BitVec 32} {buffer size : BitVec 64} {answer : Answer}
    (file : (k.processManager.processes t.process).fdTable.descriptor (fd.signExtend 64).toNat =
      some (some .console)) {result : Except SysError (BitVec 64)}
    (handled : Process.handleRead l.kernelTf t.process k fd buffer size answer =
      some (result, k')) : ConsoleRead t k fd buffer size answer k' := by
  cases mapped : k.userspaceGet t.process buffer with
  | none =>
    have into : Process.readInto t.process k fd buffer size answer = some none := by
      simp [Process.readInto, file, mapped]
    simp only [Process.handleRead, into, Option.bind_eq_bind, Option.bind_some] at handled
    cases handled
    exact .unmapped mapped (by simp [Process.readStore, into])
  | some address =>
    rcases readAsync_cases k.console with
      ⟨driver, line, lines, loaded, first, -⟩ | ⟨noLine, -⟩
    · have store : Process.readStore t.process k fd buffer size answer =
          some (address, (line ++ [0]).take size.toNat) := by
        rw [Process.readStore, readInto_of_line file mapped loaded first]
      simp only [Process.handleRead, readInto_of_line file mapped loaded first,
        Option.bind_eq_bind, Option.bind_some, Option.bind_eq_some_iff] at handled
      obtain ⟨_, -, handled⟩ := handled
      cases handled
      exact .finalized loaded first mapped store
    · have store : Process.readStore t.process k fd buffer size answer = none := by
        rw [Process.readStore, readInto_of_noLine file mapped noLine]
      rw [handleRead_of_noLine objects ht current file mapped noLine] at handled
      cases handled
      exact .blocked noLine store

/-- A thread that reads without a line waits. -/
theorem exists_waiting (objects : l.Objects k.processManager) (ht : t ∈ l.tasks) {m : Memory}
    (current : l.Current m t) {fd : BitVec 32} {buffer : BitVec 64}
    (file : (k.processManager.processes t.process).fdTable.descriptor (fd.signExtend 64).toNat =
      some (some .console)) {address : Nat}
    (mapped : ({ k with memory := m } : Kernel).userspaceGet t.process buffer = some address)
    (noLine : ∀ driver ∈ k.console.driver, driver.lines = []) (size : BitVec 64)
    (answer : Answer) :
    ∃ k', ConsoleStep l k (.read t m fd buffer size answer) k' ∧ Layout.Waits k' t ∧
      k'.processManager = k.processManager.setThreadState t.thread .blocked ∧
      k'.console.driver = k.console.driver := by
  have handled := @handleRead_of_noLine l t { k with memory := m } objects ht current fd buffer size
    answer file address mapped noLine
  refine ⟨_, ⟨⟨ht, current, file⟩, congrArg (Option.map Prod.snd) handled⟩, ?_, rfl, rfl⟩
  rw [Layout.Waits, ProcessManager.setThreadState_threads, if_pos rfl]

/-! ## Interrupts -/

theorem handleInterrupt_lines (driver : Devices.NS16550ADriver) (received : Option (BitVec 8)) :
    (driver.handleInterrupt received).lines =
      if received = some 13 then driver.lines ++ [driver.buffer] else driver.lines := by
  unfold Devices.NS16550ADriver.handleInterrupt
  cases received with
  | none => rfl
  | some value =>
    by_cases completes : value = 13
    · simp only [completes, if_true]
    · simp only [Option.some.injEq, completes, if_false]

/-- The requests are all answered if there is a line, else none is. -/
theorem handleConsoleInterrupt_cases (k : Kernel) (received : Option (BitVec 8)) :
    (∃ driver, k.console.driver = some driver ∧ (driver.handleInterrupt received).lines ≠ [] ∧
      handleConsoleInterrupt k received = { k with
        console := { driver := some (driver.handleInterrupt received), requests := [] }
        processManager := k.console.requests.foldl (fun pm r => pm.unblock r.pid r.tid)
          k.processManager }) ∨
    (∀ driver ∈ k.console.driver, (driver.handleInterrupt received).lines = []) ∧
      handleConsoleInterrupt k received = { k with
        console := { k.console with
          driver := k.console.driver.map (·.handleInterrupt received) } } := by
  unfold handleConsoleInterrupt Devices.ConsoleDevice.handleInterrupt
  rcases k with ⟨memory, pm, ⟨_ | driver, requests⟩⟩
  · exact .inr ⟨nofun, rfl⟩
  · cases available : (driver.handleInterrupt received).lines with
    | nil =>
      refine .inr ⟨fun driver mem => ?_, ?_⟩
      · cases mem
        exact available
      · simp [Devices.NS16550ADriver.lineAvailable, available]
    | cons line lines =>
      refine .inl ⟨driver, rfl, by rw [available]; exact nofun, ?_⟩
      simp [Devices.NS16550ADriver.lineAvailable, available]

/-- The thread of each request is woken. -/
theorem running_of_mem_requests {pm : ProcessManager} (objects : l.Objects pm) (ht : t ∈ l.tasks)
    {requests : List Devices.RequestContext} (mem : ⟨t.pid, 0⟩ ∈ requests) :
    (requests.foldl (fun pm r => pm.unblock r.pid r.tid) pm).Running t.thread := by
  induction requests generalizing pm with
  | nil => cases mem
  | cons r requests ih =>
    rcases List.mem_cons.1 mem with rfl | later
    · refine running_foldl_unblock ?_ requests
      have found := objects.getThread_eq ht
      simp only [ProcessManager.unblock, found, ProcessManager.Running,
        ProcessManager.setThreadState_threads, if_true]
    · exact ih (objects.unblock r.pid r.tid) later

/-- Waking threads puts none to sleep. -/
theorem blocked_of_foldl_unblock {pm : ProcessManager} {thread : Nat}
    (requests : List Devices.RequestContext)
    (blocked : ((requests.foldl (fun pm r => pm.unblock r.pid r.tid) pm).threads thread).state =
      .blocked) : (pm.threads thread).state = .blocked := by
  induction requests generalizing pm with
  | nil => exact blocked
  | cons r requests ih =>
    have later : ((pm.unblock r.pid r.tid).threads thread).state = .blocked := ih blocked
    rcases pm.unblock_eq r.pid r.tid with eq | ⟨other, -, eq⟩
    · rwa [eq] at later
    · rw [eq, ProcessManager.setThreadState_threads] at later
      by_cases same : thread = other
      · rw [if_pos same] at later
        cases later
      · rwa [if_neg same] at later

/-! ## Steps -/

theorem Layout.ConsoleInitial.inv (initial : l.ConsoleInitial k) : l.ConsoleInv k where
  objects := initial.objects
  waiting t ht waits := by
    have running := initial.running t ht
    rw [ProcessManager.Running, waits] at running
    cases running
  noLine := fun some => absurd initial.requests some

namespace Layout.ConsoleInv

variable (inv : l.ConsoleInv k)

include inv

/-- A new request is that of the caller, which waits from then on. -/
theorem read {m : Memory} {fd : BitVec 32} {buffer size : BitVec 64} {answer : Answer}
    (ht : t ∈ l.tasks) (read : ConsoleRead t { k with memory := m } fd buffer size answer k') :
    l.ConsoleInv k' := by
  cases read with
  | unmapped => exact ⟨inv.objects, inv.waiting, inv.noLine⟩
  | @finalized driver line lines _ loaded first =>
    refine ⟨inv.objects, inv.waiting, fun open' => ?_⟩
    have none := inv.noLine open' driver loaded
    rw [first] at none
    cases none
  | blocked noLine =>
    refine ⟨inv.objects.setThreadState t.thread .blocked, fun u hu waits => ?_, fun _ => noLine⟩
    rw [Waits, ProcessManager.setThreadState_threads] at waits
    by_cases same : u.thread = t.thread
    · rw [Layout.task_eq_of_thread hu ht same]
      exact List.mem_append_right _ (List.mem_singleton_self _)
    · rw [if_neg same] at waits
      exact List.mem_append_left _ (inv.waiting u hu waits)

theorem running_of_waits (ht : t ∈ l.tasks) (waits : Waits k t) :
    (k.console.requests.foldl (fun pm r => pm.unblock r.pid r.tid) k.processManager).Running
      t.thread :=
  running_of_mem_requests inv.objects ht (inv.waiting t ht waits)

/-- No thread waits after an interrupt that finds a line. -/
theorem interrupt (m : Memory) (received : Option (BitVec 8)) :
    l.ConsoleInv (handleConsoleInterrupt { k with memory := m } received) := by
  rcases handleConsoleInterrupt_cases { k with memory := m } received with
    ⟨driver, -, -, eq⟩ | ⟨noLine, eq⟩
  · rw [eq]
    have objects := inv.objects.foldl_unblock k.console.requests
    refine ⟨objects, fun u hu waits => ?_, fun some => absurd rfl some⟩
    have before : Waits k u := blocked_of_foldl_unblock k.console.requests waits
    have running := inv.running_of_waits hu before
    rw [ProcessManager.Running, show _ = _ from waits] at running
    cases running
  · rw [eq]
    refine ⟨inv.objects, inv.waiting, fun _ driver mem => ?_⟩
    obtain ⟨old, loaded, rfl⟩ := Option.map_eq_some_iff.1 mem
    exact noLine old loaded

theorem step (step : ConsoleStep l k e k') : l.ConsoleInv k' := by
  obtain ⟨occurs, next⟩ := step
  cases e with
  | read t m fd buffer size answer =>
    obtain ⟨ht, current, file⟩ := occurs
    obtain ⟨⟨result, k₁⟩, handled, rfl⟩ := Option.map_eq_some_iff.1 next
    exact inv.read ht (handleRead_console (k := { k with memory := m }) inv.objects ht current file
      handled)
  | interrupt m received =>
    cases next
    exact inv.interrupt m received
  | other k₁ =>
    cases next
    obtain ⟨objects, threads, console⟩ := occurs
    refine ⟨objects, fun u hu waits => ?_, ?_⟩
    · rw [Waits, threads] at waits
      rw [console]
      exact inv.waiting u hu waits
    · rw [console]
      exact inv.noLine

/-- An interrupt that completes a line wakes every thread that waits. -/
theorem woken (step : ConsoleStep l k e k') (completes : e.CompletesLine k) :
    (∀ t ∈ l.tasks, Waits k t → k'.processManager.Running t.thread) ∧
      k'.console.requests = [] := by
  obtain ⟨-, next⟩ := step
  cases e with
  | read | other => exact completes.elim
  | interrupt m received =>
    obtain ⟨rfl, loaded⟩ := completes
    cases next
    rcases handleConsoleInterrupt_cases { k with memory := m } (some 13) with
      ⟨driver, -, -, eq⟩ | ⟨noLine, -⟩
    · rw [eq]
      exact ⟨fun t ht waits => inv.running_of_waits ht waits, rfl⟩
    · obtain ⟨driver, loaded⟩ := Option.ne_none_iff_exists'.1 loaded
      have none := noLine driver loaded
      rw [handleInterrupt_lines, if_pos rfl] at none
      exact absurd none (List.append_ne_nil_of_right_ne_nil _ nofun)

/-- Nothing else wakes a thread. -/
theorem completesLine_of_woken (ht : t ∈ l.tasks) (step : ConsoleStep l k e k')
    (waits : Waits k t) (running : k'.processManager.Running t.thread) : e.CompletesLine k := by
  obtain ⟨occurs, next⟩ := step
  have asleep (same : (k'.processManager.threads t.thread).state = .blocked) : False := by
    rw [ProcessManager.Running, same] at running
    cases running
  cases e with
  | read u m fd buffer size answer =>
    obtain ⟨hu, current, file⟩ := occurs
    obtain ⟨⟨result, k₁⟩, handled, rfl⟩ := Option.map_eq_some_iff.1 next
    have read := handleRead_console (k := { k with memory := m }) inv.objects hu current file handled
    refine (asleep ?_).elim
    cases read with
    | unmapped | finalized => exact waits
    | blocked =>
      rw [ProcessManager.setThreadState_threads]
      split
      · rfl
      · exact waits
  | interrupt m received =>
    cases next
    have request := inv.waiting t ht waits
    have noLine := inv.noLine (List.ne_nil_of_mem request)
    rcases handleConsoleInterrupt_cases { k with memory := m } received with
      ⟨driver, loaded, available, -⟩ | ⟨-, eq⟩
    · have loaded' : k.console.driver = some driver := loaded
      refine ⟨by_contra fun other => available ?_, loaded' ▸ Option.some_ne_none _⟩
      rw [handleInterrupt_lines, if_neg other, noLine driver loaded']
    · rw [eq] at asleep
      exact (asleep waits).elim
  | other k₁ =>
    cases next
    rw [occurs.2.1] at asleep
    exact (asleep waits).elim

end Layout.ConsoleInv

theorem Layout.ConsoleInv.run {events : List ConsoleEvent} (inv : l.ConsoleInv k)
    (run : Transition.Run (ConsoleStep l) k events k') : l.ConsoleInv k' :=
  run.invariant (fun _ _ _ inv step => inv.step step) inv

/-- **No wake-up is lost on the console**: a thread waits only with its own context in `m_requests`
and without a line it could have, the interrupt that completes a line wakes all threads that
wait, and nothing else wakes one. User code is taken to leave the variables of the kernel alone, whose
`.data` and `.bss` every process has mapped `USER_READ_WRITE`. -/
theorem noLostWakeup (initial : l.ConsoleInitial k) {events : List ConsoleEvent}
    (run : Transition.Run (ConsoleStep l) k events k') :
    (∀ t ∈ l.tasks, Layout.Waits k' t →
      ⟨(k'.processManager.threads t.thread).pid, (k'.processManager.threads t.thread).tid⟩ ∈
        k'.console.requests ∧ ∀ driver ∈ k'.console.driver, driver.lines = []) ∧
    ∀ e k'', ConsoleStep l k' e k'' →
      (e.CompletesLine k' →
        (∀ t ∈ l.tasks, Layout.Waits k' t → k''.processManager.Running t.thread) ∧
          k''.console.requests = []) ∧
      ∀ t ∈ l.tasks, Layout.Waits k' t → k''.processManager.Running t.thread →
        e.CompletesLine k' := by
  have inv := initial.inv.run run
  refine ⟨fun t ht waits => ?_, fun e k'' step => ⟨inv.woken step, fun t ht waits running =>
    inv.completesLine_of_woken ht step waits running⟩⟩
  have request := inv.waiting t ht waits
  obtain ⟨-, tid, pid⟩ := inv.objects.thread t ht
  rw [pid, tid]
  exact ⟨request, inv.noLine (List.ne_nil_of_mem request)⟩

end

/-- The descriptors of a process that has opened the console. -/
def consoleTable : FileSystem.FileDescriptorTable File :=
  (FileSystem.FileDescriptorTable.empty.openDescriptor .console).2

/-- The process alone, which has opened the console and is the current one. -/
def loneMemory : Memory :=
  Scheduler.prepareForSwitch lone.kernelTf
    (loneHart.kernel.processManager.threads loneTask.thread) loneHart.kernel.memory

def loneProcessManager : ProcessManager :=
  (loneHart.kernel.modifyProcess 0x100 ({ · with fdTable := consoleTable })).processManager

def loneConsole : Kernel where
  memory := loneMemory
  processManager := loneProcessManager
  console := loneHart.kernel.console

theorem loneConsole_memory : loneConsole.memory = loneMemory := by rw [loneConsole]

theorem loneProcessManager_objects : lone.Objects loneProcessManager :=
  lone_initial.objects.sameThreads (.modifyProcess loneHart.kernel 0x100
    ({ · with fdTable := consoleTable }) (fun _ => rfl) (fun _ => rfl) fun _ => rfl)

theorem loneConsole_initial : lone.ConsoleInitial loneConsole where
  objects := loneProcessManager_objects
  running := lone_initial.running
  requests := rfl

theorem loneConsole_current : lone.Current loneConsole.memory loneTask := by
  rw [loneConsole_memory]
  exact Layout.current_prepareForSwitch lone_initial.objects loneTask_mem loneHart.kernel.memory

/-- The buffer at `0x5000` is mapped to itself. -/
theorem loneConsole_mapped : loneConsole.userspaceGet 0x100 0x5000 = some 0x5000 := by
  have kept : AgreeOn (bytesAt 0x2000 0x3000) loneHart.kernel.memory loneMemory :=
    agreeOn_prepareForSwitch (l := lone) (u := loneTask) rfl
      (fun x inside => by simp only [bytesAt, loneTask] at inside ⊢; omega)
      (fun x inside => by simp only [bytesAt, lone] at inside ⊢; omega) loneHart.kernel.memory
  have tables := loneHart_tables.congr kept
  have leaf : load64 loneMemory (Memory.entryAddress (loneTables.root + 0x2000)
      (Memory.VirtualAddress.ofU64 0x5000).vpn0) = 0x14d7 := tables.page
  have table : (loneConsole.processManager.processes 0x100).pageTable = loneTables.root :=
    (loneConsole_initial.objects.process _ loneTask_mem).2.1
  rw [Kernel.userspaceGet, loneConsole_memory, table,
    tables.translate (by decide) (by decide) leaf (by decide)]
  decide

/-- Two processes that have opened the console. -/
def pairConsole : Kernel where
  memory := pairHart.kernel.memory
  processManager := {
    pairHart.kernel.processManager with
    processes := fun a => { pairHart.kernel.processManager.processes a with fdTable := consoleTable } }
  console := pairHart.kernel.console

theorem pairConsole_initial : pair.ConsoleInitial pairConsole where
  objects := by
    obtain ⟨unlocked, queued, listed, process, thread⟩ := pair_initial.objects
    exact ⟨unlocked, queued, listed, process, thread⟩
  running := pair_initial.running
  requests := rfl

/-- A read of a line. -/
def lineRead (t : Task) (m : Memory) : ConsoleEvent :=
  .read t m 0 0x5000 8 { opened := none, content := .error [], listed := false }

/-- A process that has opened the console reads and waits. -/
theorem pair_waits {k : Kernel} (objects : pair.Objects k.processManager) {t : Task} (ht : t ∈ pair.tasks)
    (file : (k.processManager.processes t.process).fdTable = consoleTable)
    (driver : k.console.driver = some { buffer := [], lines := [] }) {m : Memory}
    (current : pair.Current m t) (loaded : (pairTables t).Loaded m) :
    ∃ k', ConsoleStep pair k (lineRead t m) k' ∧ Layout.Waits k' t ∧
      k'.processManager = k.processManager.setThreadState t.thread .blocked ∧
      k'.console.driver = k.console.driver := by
  have table := (objects.process t ht).2.1.trans (pair_small.root t ht).symm
  obtain ⟨address, mapped⟩ := @SmallTables.Loaded.userspaceGet _ { k with memory := m } loaded
    t.process table
  refine exists_waiting objects ht current (by rw [file]; rfl) mapped ?_ 8 _
  rw [driver]
  rintro _ ⟨⟩
  rfl

/-- The memory in which a process runs. -/
def pairMemory (t : Task) : Memory :=
  Scheduler.prepareForSwitch pair.kernelTf (pairHart.kernel.processManager.threads t.thread)
    pairHart.kernel.memory

theorem pairMemory_current {t : Task} (ht : t ∈ pair.tasks) : pair.Current (pairMemory t) t :=
  Layout.current_prepareForSwitch pair_initial.objects ht pairHart.kernel.memory

theorem pairMemory_loaded {t : Task} (ht : t ∈ pair.tasks) : (pairTables t).Loaded (pairMemory t) := by
  have frame := (pair_initial.objects.thread t ht).1
  refine (pairHart_loaded t ht).congr (agreeOn_prepareForSwitch frame (fun x inside => ?_)
    (pair_small.kernelFrame t ht) pairHart.kernel.memory)
  have outside := pair_small.frames t ht t ht x inside
  simp only [TrapFrame.SIZE] at outside
  omega

/-- Both wait before a line is typed, and the interrupt that completes it wakes both. -/
theorem noLostWakeup_pair : ∃ k k',
    Transition.Run (ConsoleStep pair) pairConsole [lineRead loneTask (pairMemory loneTask),
      lineRead otherTask (pairMemory otherTask)] k ∧
    (∀ t ∈ pair.tasks, Layout.Waits k t) ∧
    ConsoleStep pair k (.interrupt (pairMemory otherTask) (some 13)) k' ∧
    ∀ t ∈ pair.tasks, k'.processManager.Running t.thread := by
  have mem : loneTask ∈ pair.tasks ∧ otherTask ∈ pair.tasks := by simp [pair]
  obtain ⟨k₁, step₁, waits₁, pm₁, driver₁⟩ := pair_waits pairConsole_initial.objects mem.1
    rfl rfl (pairMemory_current mem.1) (pairMemory_loaded mem.1)
  have objects₁ : pair.Objects k₁.processManager :=
    pm₁ ▸ pairConsole_initial.objects.setThreadState loneTask.thread .blocked
  obtain ⟨k₂, step₂, waits₂, pm₂, driver₂⟩ := pair_waits objects₁ mem.2 (by rw [pm₁]; rfl)
    driver₁ (pairMemory_current mem.2) (pairMemory_loaded mem.2)
  have run : Transition.Run (ConsoleStep pair) pairConsole [lineRead loneTask (pairMemory loneTask),
      lineRead otherTask (pairMemory otherTask)] k₂ :=
    .cons step₁ (.cons step₂ (.nil _))
  have waits : ∀ t ∈ pair.tasks, Layout.Waits k₂ t := by
    simp only [pair, List.mem_cons, List.not_mem_nil, or_false]
    rintro t (rfl | rfl)
    · rw [Layout.Waits, pm₂, ProcessManager.setThreadState_threads, if_neg (by decide)]
      exact waits₁
    · exact waits₂
  have interrupt : ConsoleStep pair k₂ (.interrupt (pairMemory otherTask) (some 13)) _ :=
    ⟨trivial, rfl⟩
  have completes : ConsoleEvent.CompletesLine k₂ (.interrupt (pairMemory otherTask) (some 13)) :=
    ⟨rfl, by rw [driver₂, driver₁]; exact Option.some_ne_none _⟩
  obtain ⟨woken, -⟩ := ((noLostWakeup pairConsole_initial run).2 _ _ interrupt).1 completes
  exact ⟨k₂, _, run, waits, interrupt, fun t ht => woken t ht (waits t ht)⟩

end MatteOS.Traps
