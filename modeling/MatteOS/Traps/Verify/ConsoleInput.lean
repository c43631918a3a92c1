import MatteOS.Traps.Verify.ConsoleReads

/-!
# What is typed arrives

The bytes of the completed lines reach the reads of the console in typing order, as long as each
read that finds a line has room for it: `DevInode::read` takes the whole line out of the driver and
drops what does not fit (`lossless_iff`).
-/

namespace MatteOS.Traps

open ByteMemory Processes

/-- The lines that carriage returns have completed, and what was typed since. -/
def typedLines (typed : List (BitVec 8)) : List (List (BitVec 8)) × List (BitVec 8) :=
  typed.foldl (fun p c => if c = 13 then (p.1 ++ [p.2], []) else (p.1, p.2 ++ [c])) ([], [])

/-- The character that the event receives. -/
def ConsoleEvent.received : ConsoleEvent → List (BitVec 8)
  | .interrupt _ (some c) => [c]
  | _ => []

/-- The lines that wait in the driver. -/
def queuedLines (k : Kernel) : List (List (BitVec 8)) :=
  (k.console.driver.map (·.lines)).getD []

/-- The bytes that a read of the console returns, without the NUL that ends its line. -/
def ConsoleEvent.delivered (k : Kernel) : ConsoleEvent → List (BitVec 8)
  | .read t m fd buffer size answer =>
    match Process.readStore t.process { k with memory := m } fd buffer size answer with
    | some (_, bytes) => bytes.take ((queuedLines k).headD []).length
    | none => []
  | _ => []

/-- The kernel with the characters that were typed and the bytes that reads have returned. -/
structure ConsoleHistory where
  kernel : Kernel
  typed : List (BitVec 8)
  delivered : List (BitVec 8)

/-- An event, and what it adds to the history. -/
structure HistoryStep (l : Layout) (s : ConsoleHistory) (e : ConsoleEvent) (s' : ConsoleHistory) :
    Prop where
  step : ConsoleStep l s.kernel e s'.kernel
  typed : s'.typed = s.typed ++ e.received
  delivered : s'.delivered = s.delivered ++ e.delivered s.kernel

/-- What the reads have returned are the bytes of the completed lines, up to the lines that wait. -/
def ConsoleHistory.Lossless (s : ConsoleHistory) : Prop :=
  s.delivered ++ (queuedLines s.kernel).flatten = (typedLines s.typed).1.flatten

/-- A read that finds a line has room for it. -/
def ConsoleEvent.Fits (k : Kernel) : ConsoleEvent → Prop
  | .read t m _ buffer size _ => ∀ line ∈ (queuedLines k).head?,
    (Kernel.userspaceGet { k with memory := m } t.process buffer).isSome →
      line.length ≤ size.toNat
  | _ => True

/-- Nothing was typed yet. -/
structure Layout.HistoryInitial (l : Layout) (s : ConsoleHistory) : Prop where
  initial : l.ConsoleInitial s.kernel
  driver : s.kernel.console.driver = some { buffer := [], lines := [] }
  typed : s.typed = []
  delivered : s.delivered = []

/-- The driver holds what was typed since the last line. -/
structure Layout.HistoryInv (l : Layout) (s : ConsoleHistory) : Prop where
  inv : l.ConsoleInv s.kernel
  driver : ∃ driver, s.kernel.console.driver = some driver ∧
    driver.buffer = (typedLines s.typed).2
  lossless : s.Lossless

section

variable {l : Layout} {t : Task} {k k' : Kernel} {e : ConsoleEvent} {s s' : ConsoleHistory}

theorem typedLines_concat (typed : List (BitVec 8)) (c : BitVec 8) :
    typedLines (typed ++ [c]) =
      if c = 13 then ((typedLines typed).1 ++ [(typedLines typed).2], [])
      else ((typedLines typed).1, (typedLines typed).2 ++ [c]) :=
  List.foldl_append

theorem queuedLines_of_driver {driver : Devices.NS16550ADriver}
    (loaded : k.console.driver = some driver) : queuedLines k = driver.lines := by
  rw [queuedLines, loaded]
  rfl

theorem Layout.HistoryInitial.inv (initial : l.HistoryInitial s) : l.HistoryInv s where
  inv := initial.initial.inv
  driver := ⟨_, initial.driver, by rw [initial.typed]; rfl⟩
  lossless := by
    rw [ConsoleHistory.Lossless, queuedLines_of_driver initial.driver, initial.typed,
      initial.delivered]
    rfl

/-- An interrupt hands the character to the driver. -/
theorem handleConsoleInterrupt_driver (k : Kernel) (received : Option (BitVec 8)) :
    (handleConsoleInterrupt k received).console.driver =
      k.console.driver.map (·.handleInterrupt received) := by
  rcases handleConsoleInterrupt_cases k received with ⟨driver, loaded, -, eq⟩ | ⟨-, eq⟩
  · rw [eq, loaded]
    rfl
  · rw [eq]

/-- The bytes that a read of a line returns, without the NUL. -/
theorem take_line (line : List (BitVec 8)) (size : Nat) :
    ((line ++ [0]).take size).take line.length = line.take size := by
  rw [List.take_take, Nat.min_comm, ← List.take_take, List.take_left]

/-! ## Steps -/

namespace Layout.HistoryInv

variable (inv : l.HistoryInv s)

include inv

/-- An event that changes neither the lines nor the history. -/
theorem unchanged (kernel : l.ConsoleInv s'.kernel)
    (driver : s'.kernel.console.driver = s.kernel.console.driver) (typed : s'.typed = s.typed)
    (delivered : s'.delivered = s.delivered) : l.HistoryInv s' where
  inv := kernel
  driver := by
    rw [driver, typed]
    exact inv.driver
  lossless := by
    rw [ConsoleHistory.Lossless, queuedLines, driver, typed, delivered]
    exact inv.lossless

theorem interrupt {m : Memory} {received : Option (BitVec 8)}
    (step : HistoryStep l s (.interrupt m received) s') : l.HistoryInv s' := by
  have kernel := inv.inv.step step.step
  obtain ⟨⟨-, next⟩, typed, delivered⟩ := step
  obtain ⟨driver, loaded, buffer⟩ := inv.driver
  have loaded' : s'.kernel.console.driver = some (driver.handleInterrupt received) := by
    rw [← Option.some.inj next, handleConsoleInterrupt_driver, loaded]
    rfl
  have lossless := inv.lossless
  rw [ConsoleHistory.Lossless, queuedLines_of_driver loaded] at lossless
  rw [show ConsoleEvent.delivered s.kernel (.interrupt m received) = [] from rfl,
    List.append_nil] at delivered
  cases received with
  | none =>
    have same : s'.typed = s.typed := typed.trans (List.append_nil _)
    exact inv.unchanged kernel (loaded'.trans loaded.symm) same delivered
  | some c =>
    have typed' : s'.typed = s.typed ++ [c] := typed
    refine ⟨kernel, ⟨_, loaded', ?_⟩, ?_⟩
    · rw [typed', typedLines_concat, Devices.NS16550ADriver.handleInterrupt, ← buffer]
      split <;> rfl
    · rw [ConsoleHistory.Lossless, queuedLines_of_driver loaded', typed', delivered,
        typedLines_concat, handleInterrupt_lines]
      by_cases completes : c = 13
      · rw [if_pos (congrArg some completes), if_pos completes, List.flatten_append,
          ← List.append_assoc, lossless, buffer, List.flatten_append]
      · rw [if_neg (fun same => completes (Option.some.inj same)), if_neg completes]
        exact lossless

/-- A read takes the whole line, and returns what fits. -/
theorem read_iff {m : Memory} {fd : BitVec 32} {buffer size : BitVec 64} {answer : Answer}
    (step : HistoryStep l s (.read t m fd buffer size answer) s') :
    (s'.Lossless ↔ ConsoleEvent.Fits s.kernel (.read t m fd buffer size answer)) ∧
      (s'.Lossless → l.HistoryInv s') := by
  have kernel := inv.inv.step step.step
  obtain ⟨⟨⟨ht, current, file⟩, next⟩, typed, delivered⟩ := step
  obtain ⟨⟨result, k₁⟩, handled, same⟩ := Option.map_eq_some_iff.1 next
  have typed' : s'.typed = s.typed := typed.trans (List.append_nil _)
  have read := handleRead_console (k := { s.kernel with memory := m }) inv.inv.objects ht current
    file handled
  -- a read that returns nothing
  have idle (console : k₁.console.driver = s.kernel.console.driver)
      (store : Process.readStore t.process { s.kernel with memory := m } fd buffer size answer = none)
      (fits : ConsoleEvent.Fits s.kernel (.read t m fd buffer size answer)) :
      (s'.Lossless ↔ ConsoleEvent.Fits s.kernel (.read t m fd buffer size answer)) ∧
        (s'.Lossless → l.HistoryInv s') := by
    rw [ConsoleEvent.delivered, store, List.append_nil] at delivered
    have kept := inv.unchanged kernel (same ▸ console) typed' delivered
    exact ⟨⟨fun _ => fits, fun _ => kept.lossless⟩, fun _ => kept⟩
  cases read with
  | unmapped unmapped store =>
    refine idle rfl store fun line _ mapped => ?_
    rw [unmapped] at mapped
    cases mapped
  | blocked noLine store =>
    refine idle rfl store fun line first _ => ?_
    cases loaded : s.kernel.console.driver with
    | none =>
      rw [queuedLines, loaded] at first
      cases first
    | some driver =>
      rw [queuedLines_of_driver loaded, noLine driver loaded] at first
      cases first
  | @finalized driver line lines address loaded first mapped store =>
    have loaded₀ : s.kernel.console.driver = some driver := loaded
    have queued : queuedLines s.kernel = line :: lines :=
      (queuedLines_of_driver loaded₀).trans first
    have loaded' : s'.kernel.console.driver = some { driver with lines } := by
      rw [← same]
    have payload : s'.delivered = s.delivered ++ line.take size.toNat := by
      rw [delivered, ConsoleEvent.delivered, store, queued]
      exact congrArg _ (take_line line size.toNat)
    have before := inv.lossless
    rw [ConsoleHistory.Lossless, queued, List.flatten_cons] at before
    have lossless : s'.Lossless ↔ line.length ≤ size.toNat := by
      rw [ConsoleHistory.Lossless, queuedLines_of_driver loaded', payload, typed', ← before,
        List.append_assoc, List.append_cancel_left_eq, List.append_cancel_right_eq,
        List.take_eq_self_iff]
    refine ⟨?_, fun kept => ?_⟩
    · rw [lossless, ConsoleEvent.Fits, queued, mapped]
      constructor
      · rintro room line' ⟨⟩ -
        exact room
      · exact fun fits => fits line rfl rfl
    · obtain ⟨driver', loaded'', buffer'⟩ := inv.driver
      rw [loaded₀] at loaded''
      cases loaded''
      exact ⟨kernel, ⟨_, loaded', by rw [typed']; exact buffer'⟩, kept⟩

theorem step_iff (step : HistoryStep l s e s') :
    (s'.Lossless ↔ e.Fits s.kernel) ∧ (s'.Lossless → l.HistoryInv s') := by
  cases e with
  | read t m fd buffer size answer => exact inv.read_iff step
  | interrupt m received =>
    have kept := inv.interrupt step
    exact ⟨⟨fun _ => trivial, fun _ => kept.lossless⟩, fun _ => kept⟩
  | other k₁ =>
    have kernel := inv.inv.step step.step
    obtain ⟨⟨⟨-, -, console⟩, next⟩, typed, delivered⟩ := step
    have kept := inv.unchanged kernel (by rw [← Option.some.inj next, console])
      (typed.trans (List.append_nil _)) (delivered.trans (List.append_nil _))
    exact ⟨⟨fun _ => trivial, fun _ => kept.lossless⟩, fun _ => kept⟩

end Layout.HistoryInv

/-- **Console input is delivered without loss** in exactly the runs whose reads have room for the
lines they find. -/
theorem lossless_iff (initial : l.HistoryInitial s) {events : List ConsoleEvent} :
    Transition.Run (fun s e s' => HistoryStep l s e s' ∧ s'.Lossless) s events s' ↔
      Transition.Run (fun s e s' => HistoryStep l s e s' ∧ e.Fits s.kernel) s events s' :=
  Transition.Run.iff_of_invariant (fun _ _ _ inv step => (inv.step_iff step).1)
    (fun _ _ _ inv step kept => (inv.step_iff step).2 kept) initial.inv

/-- A character is typed while no thread waits. -/
theorem typed_step {driver : Devices.NS16550ADriver}
    (console : s.kernel.console = { driver := some driver, requests := [] }) (m : Memory)
    (c : BitVec 8) : HistoryStep l s (.interrupt m (some c))
      { kernel := { s.kernel with
          memory := m
          console := { driver := some (driver.handleInterrupt (some c)), requests := [] } }
        typed := s.typed ++ [c], delivered := s.delivered } where
  step := by
    refine ⟨trivial, congrArg some ?_⟩
    rcases handleConsoleInterrupt_cases { s.kernel with memory := m } (some c) with
      ⟨driver', loaded, -, eq⟩ | ⟨-, eq⟩
    · rw [eq]
      simp only [console, Option.some.injEq] at loaded ⊢
      rw [loaded]
      rfl
    · rw [eq]
      simp only [console]
      rfl
  typed := rfl
  delivered := (List.append_nil _).symm

/-- The line `ab` is typed. -/
theorem typed_run (console : k.console = { driver := some ⟨[], []⟩, requests := [] }) :
    Transition.Run (fun s e s' => HistoryStep l s e s' ∧ e.Fits s.kernel) ⟨k, [], []⟩
      [.interrupt k.memory (some 97), .interrupt k.memory (some 98), .interrupt k.memory (some 13)]
      ⟨{ k with console := { driver := some ⟨[], [[97, 98]]⟩, requests := [] } },
        [97, 98, 13], []⟩ :=
  .cons ⟨typed_step console k.memory 97, trivial⟩ (.cons ⟨typed_step rfl k.memory 98, trivial⟩
    (.cons ⟨typed_step rfl k.memory 13, trivial⟩ (.nil _)))

/-- And it is read into a buffer of this size. -/
theorem exists_lineRead (objects : l.Objects k.processManager) (ht : t ∈ l.tasks)
    (current : l.Current k.memory t) {fd : BitVec 32} {buffer : BitVec 64}
    (file : (k.processManager.processes t.process).fdTable.descriptor (fd.signExtend 64).toNat =
      some (some .console)) {address : Nat} (mapped : k.userspaceGet t.process buffer = some address)
    (size : BitVec 64)
    (kept : l.Current (storeBytes k.memory address ([97, 98, 0].take size.toNat)) t) (answer : Answer) :
    ∃ s', HistoryStep l
        ⟨{ k with console := { driver := some ⟨[], [[97, 98]]⟩, requests := [] } }, [97, 98, 13], []⟩
        (.read t k.memory fd buffer size answer) s' ∧
      queuedLines s'.kernel = [] ∧ s'.typed = [97, 98, 13] ∧
      s'.delivered = ([97, 98, 0].take size.toNat).take 2 := by
  let line : Kernel :=
    { k with console := { driver := some ⟨[], [[97, 98]]⟩, requests := [] } }
  have handled := @handleRead_of_line l t line objects ht fd buffer size answer file address mapped _ _
    _ rfl rfl kept
  refine ⟨⟨_, [97, 98, 13], ([97, 98, 0].take size.toNat).take 2⟩, ⟨⟨⟨ht, current, file⟩,
    congrArg (Option.map Prod.snd) handled⟩, rfl, ?_⟩, rfl, rfl, rfl⟩
  have store : Process.readStore t.process line fd buffer size answer =
      some (address, [97, 98, 0].take size.toNat) := by
    rw [Process.readStore, readInto_of_line (k := line) file mapped rfl rfl]
    rfl
  change _ = [] ++ ConsoleEvent.delivered line (.read t line.memory fd buffer size answer)
  rw [ConsoleEvent.delivered, store]
  rfl

end

/-- The memory of the process behind a buffer. -/
theorem loneConsole_kept {bytes : List (BitVec 8)} (short : bytes.length ≤ 8) :
    lone.Current (storeBytes loneConsole.memory 0x5000 bytes) loneTask := by
  refine loneConsole_current.congr fun x inside => storeBytes_apply_of_outside _ fun i less => ?_
  simp only [bytesAt, lone] at inside
  omega

theorem lone_lineRead (size : BitVec 64) : ∃ s', HistoryStep lone
      ⟨{ loneConsole with console := { driver := some ⟨[], [[97, 98]]⟩, requests := [] } },
        [97, 98, 13], []⟩
      (.read loneTask loneConsole.memory 0 0x5000 size
        { opened := none, content := .error [], listed := false }) s' ∧
    queuedLines s'.kernel = [] ∧ s'.typed = [97, 98, 13] ∧
    s'.delivered = ([97, 98, 0].take size.toNat).take 2 := by
  have short : (([97, 98, 0] : List (BitVec 8)).take size.toNat).length ≤ 8 := by
    rw [List.length_take]
    exact (min_le_right _ _).trans (by decide)
  exact @exists_lineRead lone loneTask loneConsole loneProcessManager_objects loneTask_mem
    loneConsole_current 0 0x5000 rfl 0x5000 loneConsole_mapped size (loneConsole_kept short)
    { opened := none, content := .error [], listed := false }

/-- A buffer of one byte for a line of two. -/
theorem lone_truncated : ∃ events s', Transition.Run (HistoryStep lone) ⟨loneConsole, [], []⟩
    events s' ∧ ¬ s'.Lossless := by
  obtain ⟨s', read, queued, typed, delivered⟩ := lone_lineRead 1
  refine ⟨_, s', ((typed_run rfl).mono fun _ _ _ step => step.1).append (.cons read (.nil _)), ?_⟩
  rw [ConsoleHistory.Lossless, queued, typed, delivered]
  decide

theorem lone_historyInitial : lone.HistoryInitial ⟨loneConsole, [], []⟩ where
  initial := loneConsole_initial
  driver := rfl
  typed := rfl
  delivered := rfl

/-- A line is typed and read into a buffer that has room for it. -/
theorem lossless_iff_read : ∃ s', Transition.Run
    (fun s e s' => HistoryStep lone s e s' ∧ s'.Lossless) ⟨loneConsole, [], []⟩
    [.interrupt loneConsole.memory (some 97), .interrupt loneConsole.memory (some 98),
      .interrupt loneConsole.memory (some 13), .read loneTask loneConsole.memory 0 0x5000 8
        { opened := none, content := .error [], listed := false }] s' ∧
    s'.delivered = [97, 98] := by
  obtain ⟨s', read, -, -, delivered⟩ := lone_lineRead 8
  refine ⟨s', (lossless_iff lone_historyInitial).2
    ((typed_run rfl).append (.cons ⟨read, ?_⟩ (.nil _))), delivered⟩
  rintro line ⟨⟩ -
  decide

end MatteOS.Traps
