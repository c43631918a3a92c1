import MatteOS.Traps.Verify.Refinement

/-!
# Context switches

What `kmain` has left when it starts to schedule (`Spaces.Initial`), and that every thread finds
its context again (`Spaces.Preserved`).
-/

namespace MatteOS.Traps

open ByteMemory Processes Riscv TrapVector

/-- The history of a machine that has not run a thread. -/
def History.initial (m : Machine) : History := ⟨loadContext m.cpu.memory, none⟩

namespace Spaces

variable {l : Layout} (sp : Spaces l)

/-- The machine at `start_scheduling`. -/
structure Initial (m : Machine) : Prop where
  mode : m.mode = .booting
  objects : l.Objects m.processManager
  running : ∀ t ∈ l.tasks, m.processManager.Running t.thread
  hart : ∃ c, m.cpu = hartInit l.kernelTf c
  satp : m.cpu.csr .satp = sp.kernelSatp
  mapped : sp.Mapped m.cpu.memory
  kernelFrame : ∃ cpuId hartStackTop, AgreeOn (bytesAt l.kernelTf KernelTrapFrame.SIZE)
    (initKernelTrapFrame (fun _ => 0) l.kernelTf cpuId hartStackTop sp.kernelSatp) m.cpu.memory
  frames : ∀ t ∈ l.tasks, ∃ programCounter, AgreeOn (bytesAt t.trapFrame TrapFrame.SIZE)
    (initializeThread (fun _ => 0) t.trapFrame programCounter t.satp) m.cpu.memory

/-- The thread of `t` has resumed in its own address space with the context that it left, and its
frame is the only one that keeps the kernel's address space. -/
structure Resumes (m : Machine) (h : History) (t : Task) : Prop where
  satp : m.cpu.csr .satp = t.satp
  x : ∀ i, 0 < i → i < 32 → m.cpu.x i = (h.contexts t.trapFrame).x i
  f : ∀ i < 32, m.cpu.f i = (h.contexts t.trapFrame).f i
  sepc : m.cpu.csr .sepc = (h.contexts t.trapFrame).sepc
  slots : ∀ u ∈ l.tasks,
    load64 m.cpu.memory (TrapFrame.kernelSatp u.trapFrame) = sp.kernelSatp ↔ u = t

/-- The dual-use slot of every frame keeps the address space of its thread. -/
def KeepsOwn (l : Layout) (m : Memory) : Prop :=
  ∀ t ∈ l.tasks, load64 m (TrapFrame.kernelSatp t.trapFrame) = t.satp

/-- Context switching preserves every thread. -/
structure Preserved (m : Machine) (h : History) : Prop where
  user : ∀ tf, m.mode = .user tf → ∃ t ∈ l.tasks, t.trapFrame = tf ∧ sp.Resumes m h t
  kernel : m.mode.thread = none → m.cpu.csr .satp = sp.kernelSatp ∧ KeepsOwn l m.cpu.memory
  trapped : m.mode = .handling →
    ∃ t ∈ l.tasks, h.running = some t.trapFrame ∧ l.Current m.cpu.memory t
  returned : ∀ s fuel next k, m.mode = .handling → l.CleanRead m.kernel m.argument s.answer →
    handleInterrupt fuel m.kernelTf m.argument m.kernel s = some (next, k) → KeepsOwn l k.memory

end Spaces

section

variable {l : Layout} {sp : Spaces l} {m : Machine} {h : History} {t : Task}

/-- A new frame. -/
theorem FrameHolds.initial {memory : Memory} {tf : Nat} {programCounter satp : BitVec 64}
    (frame : AgreeOn (bytesAt tf TrapFrame.SIZE)
      (initializeThread (fun _ => 0) tf programCounter satp) memory) :
    FrameHolds memory tf (loadContext memory tf) satp where
  x _ _ := rfl
  f _ _ := rfl
  sepc := rfl
  user := by
    rw [isKernelTrap, frame.load64 (by simp [TrapFrame.sstatus])
      (by simp [TrapFrame.sstatus, TrapFrame.SIZE]), initializeThread,
      load64_store64_of_disjoint _ _ (by simp only [TrapFrame.sstatus, TrapFrame.kernelAddr]; omega),
      load64_store64_of_disjoint _ _ (by simp only [TrapFrame.sstatus, TrapFrame.sepc]; omega),
      load64_store64]
    decide
  satp := by
    rw [frame.load64 (by simp [TrapFrame.kernelSatp])
      (by simp [TrapFrame.kernelSatp, TrapFrame.SIZE]), initializeThread,
      load64_store64_of_disjoint _ _ (by
        simp only [TrapFrame.kernelSatp, TrapFrame.kernelAddr]; omega),
      load64_store64_of_disjoint _ _ (by simp only [TrapFrame.kernelSatp, TrapFrame.sepc]; omega),
      load64_store64_of_disjoint _ _ (by simp only [TrapFrame.kernelSatp, TrapFrame.sstatus]; omega),
      load64_store64_of_disjoint _ _ (by simp only [TrapFrame.kernelSatp, TrapFrame.regs]; omega),
      load64_store64]
  addr := by
    rw [frame.load64 (by simp [TrapFrame.kernelAddr])
      (by simp [TrapFrame.kernelAddr, TrapFrame.SIZE]), initializeThread, load64_store64]

theorem Spaces.Initial.inv (initial : sp.Initial m) : sp.Inv m (.initial m) where
  objects := initial.objects
  mapped := initial.mapped
  frames t ht := by
    obtain ⟨programCounter, frame⟩ := initial.frames t ht
    rw [Spaces.slot, initial.mode, if_neg (by simp)]
    exact .initial frame
  booting _ := by
    obtain ⟨c, cpu⟩ := initial.hart
    exact ⟨initial.satp, by rw [cpu]; rfl, initial.running⟩
  user := by simp [initial.mode]
  handling := by simp [initial.mode]
  uninterrupted := by simp [initial.mode]

/-- The invariant is what context switches have to preserve. -/
theorem Spaces.Inv.preserved (inv : sp.Inv m h) : sp.Preserved m h where
  user tf mode := by
    obtain ⟨t, ht, rfl, running⟩ := inv.user tf mode
    refine ⟨t, ht, rfl, {
      satp := running.satp
      x := running.x
      f := running.f
      sepc := running.sepc
      slots := fun u hu => ?_ }⟩
    rw [(inv.frames u hu).satp, Spaces.slot, mode]
    by_cases eq : u = t
    · simp [eq]
    · rw [if_neg fun same => eq (Layout.task_eq_of_trapFrame hu ht (Mode.user.inj same).symm)]
      exact ⟨fun same => absurd same (sp.satp_ne_kernelSatp hu), fun same => absurd same eq⟩
  kernel kernel := by
    refine ⟨?_, fun t ht => (inv.held kernel ht).satp⟩
    cases mode : m.mode with
    | booting => exact (inv.booting mode).1
    | handling =>
      obtain ⟨t, -, running⟩ := inv.handling mode
      exact running.satp
    | user tf => rw [mode] at kernel; cases kernel
    | interrupted => exact absurd mode inv.uninterrupted
  trapped mode := by
    obtain ⟨t, ht, running⟩ := inv.handling mode
    exact ⟨t, ht, running.running, running.current⟩
  returned s fuel next k mode clean result := by
    obtain ⟨t, ht, running⟩ := inv.handling mode
    obtain ⟨made, -⟩ := running.handled inv ht mode clean result
    exact fun u hu => (made.frames ht hu (inv.held (by rw [mode]; rfl) hu)).satp

/-- In every run whose traps come from user mode and whose reads miss the kernel's memory, context
switching preserves every thread. -/
theorem preserved_of_cleanRun (initial : sp.Initial m) {es : List Machine.Event}
    {s : Machine × History} (run : Transition.Run sp.CleanStep (m, .initial m) es s) :
    sp.Preserved s.1 s.2 :=
  (inv_cleanRun (s := (m, .initial m)) initial.inv run).preserved

end

/-! ## Processes with small tables -/

/-- The tables of a process translate the lowest two megabytes of its address space; the kernel's
is the identity. -/
def smallMmu (tasks : List Task) (tables : Task → SmallTables) : Mmu := fun m satp va =>
  match tasks.find? (·.satp == satp) with
  | some t =>
    if (Memory.VirtualAddress.ofU64 va).vpn2 = 0 ∧ (Memory.VirtualAddress.ofU64 va).vpn1 = 0 then
      (Memory.translate m (tables t).root (.ofU64 va)).toOption.map (·.getValue.toNat)
    else none
  | none => some va.toNat

/-- The tables are the kernel's, and send the page at `0x1000` to the frame. -/
structure Layout.SmallSpaces (l : Layout) (tables : Task → SmallTables) : Prop
    extends l.Small tables where
  satps : ∀ t ∈ l.tasks, t.satp = buildSatp SATP_SV39 1 (.ofNat 64 t.pageTable)
  distinct : (l.tasks.map Task.satp).Nodup
  owned : ∀ t ∈ l.tasks, ∀ x, bytesAt (tables t).root 0x3000 x → l.kernelMemory x
  frame : ∀ t ∈ l.tasks, (tables t).frame = t.trapFrame
  pages : ∀ t ∈ l.tasks, 4096 ∣ t.trapFrame ∧ t.trapFrame < 2 ^ 56
  kernelFrameFits : l.kernelTf < 2 ^ 64

section Small

variable {l : Layout} {tables : Task → SmallTables} {w : SmallTables} {m m' : Memory} {t : Task}

def Layout.SmallSpaces.spaces (small : l.SmallSpaces tables) : Spaces l where
  mmu := smallMmu l.tasks tables
  vector := 0x80001000
  tables x := ∃ t ∈ l.tasks, bytesAt (tables t).root 0x3000 x
  kernelTable := 0x7000
  satps := small.satps
  tablesOwned x inside := by
    obtain ⟨t, ht, inside⟩ := inside
    exact small.owned t ht x inside
  tablesApart x inside := by
    obtain ⟨t, ht, inside⟩ := inside
    exact small.kernelFrame t ht x inside
  framesFit t ht := by
    have := (small.pages t ht).2
    omega
  kernelFrameFits := small.kernelFrameFits

/-- The page of the process at `0x1000` is that of its frame. -/
theorem SmallTables.Loaded.translate_frame (loaded : w.Loaded m) (page : 4096 ∣ w.frame)
    (fits : w.frame < 2 ^ 56) {offset : Nat} (inside : offset < 4096) :
    (Memory.VirtualAddress.ofU64 (TRAP_FRAME_ALIAS + .ofNat 64 offset)).vpn2 = 0 ∧
      (Memory.VirtualAddress.ofU64 (TRAP_FRAME_ALIAS + .ofNat 64 offset)).vpn1 = 0 ∧
      Memory.translate m w.root (.ofU64 (TRAP_FRAME_ALIAS + .ofNat 64 offset)) =
        .ok (.ofU64 (.ofNat 64 (w.frame + offset))) := by
  have base : TRAP_FRAME_ALIAS.toNat = 4096 := by decide
  have value : (TRAP_FRAME_ALIAS + .ofNat 64 offset).toNat = 4096 + offset := by
    rw [BitVec.toNat_add, BitVec.toNat_ofNat, base]
    omega
  have path := (Memory.path_eq_iff (a := TRAP_FRAME_ALIAS + .ofNat 64 offset)
    (b := TRAP_FRAME_ALIAS) (by omega) (by omega)).2 (by omega)
  simp only [Memory.VirtualAddress.path, List.cons.injEq, and_true] at path
  obtain ⟨vpn2, vpn1, vpn0⟩ := path
  have leaf : load64 m (Memory.entryAddress (w.root + 0x2000)
      (Memory.VirtualAddress.ofU64 (TRAP_FRAME_ALIAS + .ofNat 64 offset)).vpn0) = w.frameEntry := by
    rw [vpn0]
    exact loaded.frame
  obtain ⟨number, eq⟩ := page
  refine ⟨vpn2, vpn1, (loaded.translate vpn2 vpn1 leaf w.page.1).trans ?_⟩
  refine congrArg (fun v => Except.ok (Memory.PhysicalAddress.ofU64 v)) (BitVec.eq_of_toNat_eq ?_)
  rw [BitVec.toNat_or, BitVec.toNat_setWidth, Memory.offset_toNat, w.page.2, value,
    Nat.mod_eq_of_lt (by omega), eq, ← Nat.two_pow_add_eq_or_of_lt (i := 12) (by omega),
    BitVec.toNat_ofNat]
  omega

/-- A walk reads the tables only. -/
theorem smallMmu_congr (loaded : ∀ t ∈ l.tasks, (tables t).Loaded m)
    (agree : AgreeOn (fun x => ∃ t ∈ l.tasks, bytesAt (tables t).root 0x3000 x) m m')
    (satp : BitVec 64) : smallMmu l.tasks tables m' satp = smallMmu l.tasks tables m satp := by
  funext va
  unfold smallMmu
  cases found : l.tasks.find? (·.satp == satp) with
  | none => rfl
  | some t =>
    have ht := List.mem_of_find?_eq_some found
    have own : AgreeOn (bytesAt (tables t).root 0x3000) m m' := fun x inside =>
      agree x ⟨t, ht, inside⟩
    have bound := (Memory.VirtualAddress.ofU64 va).vpn0.isLt
    have leaf := own.load64 (b := Memory.entryAddress ((tables t).root + 0x2000)
      (Memory.VirtualAddress.ofU64 va).vpn0)
      (by simp only [Memory.entryAddress]; omega) (by simp only [Memory.entryAddress]; omega)
    refine ite_congr rfl (fun low => ?_) fun _ => rfl
    rw [(loaded t ht).translate_eq low.1 low.2, ((loaded t ht).congr own).translate_eq low.1 low.2,
      Memory.loadEntry, Memory.loadEntry, leaf]

/-- The kernel's own address space is the identity. -/
theorem Layout.SmallSpaces.identity (small : l.SmallSpaces tables) (m : Memory) (va : BitVec 64) :
    small.spaces.mmu m small.spaces.kernelSatp va = some va.toNat := by
  have none : l.tasks.find? (·.satp == small.spaces.kernelSatp) = none := by
    rw [List.find?_eq_none]
    intro t ht same
    rw [beq_iff_eq, small.satps t ht] at same
    exact buildSatp_ne (by decide) same
  change smallMmu l.tasks tables m small.spaces.kernelSatp va = _
  rw [smallMmu, none]

theorem Layout.SmallSpaces.mapped (small : l.SmallSpaces tables)
    (loaded : ∀ t ∈ l.tasks, (tables t).Loaded m) : small.spaces.Mapped m where
  own t ht := by
    have found : l.tasks.find? (·.satp == t.satp) = some t := by
      obtain ⟨u, found⟩ : ∃ u, l.tasks.find? (·.satp == t.satp) = some u := by
        rw [← Option.isSome_iff_exists, List.find?_isSome]
        exact ⟨t, ht, beq_self_eq_true t.satp⟩
      have same := List.find?_some found
      rw [beq_iff_eq] at same
      rwa [List.inj_on_of_nodup_map small.distinct (List.mem_of_find?_eq_some found) ht same] at found
    refine ⟨fun offset inside => ?_, fun m' agree => smallMmu_congr loaded agree t.satp, ?_, by decide⟩
    · simp only [TrapFrame.SIZE] at inside
      obtain ⟨page, fits⟩ := small.pages t ht
      rw [← small.frame t ht] at page fits
      obtain ⟨vpn2, vpn1, translated⟩ := (loaded t ht).translate_frame page fits (by omega : offset < 4096)
      change smallMmu l.tasks tables m t.satp _ = _
      simp only [smallMmu, found, vpn2, vpn1, and_self, if_true, translated, small.frame t ht]
      simp only [small.frame t ht] at fits
      simp [Except.toOption]
      omega
    · rintro x ⟨u, hu, inside⟩
      exact small.frames u hu t ht x inside
  identity t ht := by
    refine ⟨fun offset inside => ?_, fun m' agree => smallMmu_congr loaded agree _, ?_, ?_⟩
    · simp only [TrapFrame.SIZE] at inside
      have fits := (small.pages t ht).2
      rw [small.identity, Option.some_inj, BitVec.toNat_add, BitVec.toNat_ofNat, BitVec.toNat_ofNat]
      omega
    · rintro x ⟨u, hu, inside⟩
      exact small.frames u hu t ht x inside
    · have aligned := (small.pages t ht).1
      have fits := (small.pages t ht).2
      rw [BitVec.toNat_ofNat]
      omega

/-- The hart at boot, with the address space of the kernel. -/
def Layout.SmallSpaces.machine (small : l.SmallSpaces tables) (h : Hart) : Machine where
  cpu := hartInit l.kernelTf {
    x := fun _ => 0
    f := fun _ => 0
    csr := fun csr => if csr = .satp then small.spaces.kernelSatp else 0
    memory := h.kernel.memory }
  processManager := h.kernel.processManager
  console := h.kernel.console
  mode := .booting

end Small


/-! ## Two processes -/

theorem pair_smallSpaces : pair.SmallSpaces pairTables where
  toSmall := pair_small
  satps := by simp [pair, loneTask, otherTask]
  distinct := by decide
  owned t ht x inside := by
    simp only [pair, List.mem_cons, List.not_mem_nil, or_false] at ht
    rcases ht with rfl | rfl
    · exact .inr (.inr (.inr (.inl inside)))
    · exact .inr (.inr (.inr (.inr inside)))
  frame t ht := by
    simp only [pair, List.mem_cons, List.not_mem_nil, or_false] at ht
    rcases ht with rfl | rfl <;> rfl
  pages := by simp [pair, loneTask, otherTask]
  kernelFrameFits := by simp [pair]

/-- The memory behind the tables of both is clear. -/
theorem pairTables_clear {x : Nat} (behind : 0xb000 ≤ x) :
    otherTables.store (loneTables.store fun _ => 0) x = 0 :=
  (otherTables.store_apply_of_outside _ (.inr (by simp only [otherTables_root]; omega))).trans
    (loneTables.store_apply_of_outside _ (.inr (by simp only [loneTables_root]; omega)))

theorem pairMachine_initial : pair_smallSpaces.spaces.Initial (pair_smallSpaces.machine pairHart) where
  mode := rfl
  objects := pair_initial.objects
  running := pair_initial.running
  hart := ⟨_, rfl⟩
  satp := rfl
  mapped := pair_smallSpaces.mapped pairHart_loaded
  kernelFrame := by
    refine ⟨0, 0x9000, agreeOn_initKernelTrapFrame (a := 0x20000) (fun x inside => ?_) 0 0x9000 _⟩
    have low : 0x20000 ≤ x := inside.1
    rw [initializeThread_apply_of_outside _ _ _ (by simp only [TrapFrame.SIZE]; omega),
      initializeThread_apply_of_outside _ _ _ (by simp only [TrapFrame.SIZE]; omega)]
    exact pairTables_clear (by omega)
  frames t ht := by
    simp only [pair, List.mem_cons, List.not_mem_nil, or_false] at ht
    rcases ht with rfl | rfl
    · have clear : AgreeOn (bytesAt 0x10000 TrapFrame.SIZE) (fun _ => 0)
          (otherTables.store (loneTables.store fun _ => 0)) := fun x inside =>
        pairTables_clear (by simp only [bytesAt] at inside; omega)
      refine ⟨0x80000000, (agreeOn_initializeThread clear _ _).trans fun x inside => ?_⟩
      simp only [bytesAt, TrapFrame.SIZE] at inside
      exact (initKernelTrapFrame_apply_of_outside _ _ _ _ (by omega)).trans
        (initializeThread_apply_of_outside _ _ _ (by omega))
    · have clear : AgreeOn (bytesAt 0x11000 TrapFrame.SIZE) (fun _ => 0)
          (initializeThread (otherTables.store (loneTables.store fun _ => 0)) 0x10000 0x80000000
            (buildSatp SATP_SV39 1 0x2000)) := fun x inside => by
        simp only [bytesAt] at inside
        rw [initializeThread_apply_of_outside _ _ _ (by simp only [TrapFrame.SIZE]; omega)]
        exact pairTables_clear (by omega)
      refine ⟨0x80000010, (agreeOn_initializeThread clear _ _).trans fun x inside => ?_⟩
      simp only [bytesAt, TrapFrame.SIZE] at inside
      exact initKernelTrapFrame_apply_of_outside _ _ _ _ (by omega)

/-- One process blocks and the hart switches to the other, which has its own context. -/
theorem preserved_of_cleanRun_pair : ∃ es s, ∃ t ∈ pair.tasks, ∃ u ∈ pair.tasks, u ≠ t ∧
    Transition.Run pair_smallSpaces.spaces.CleanStep
      (pair_smallSpaces.machine pairHart, .initial (pair_smallSpaces.machine pairHart)) es s ∧
    s.1.mode = .user u.trapFrame ∧ pair_smallSpaces.spaces.Preserved s.1 s.2 := by
  obtain ⟨h₁, h₂, h₃, t, ht, u, hu, ne, run, -, user⟩ := pair_switch
  obtain ⟨es, s, machineRun, rfl, -⟩ := exists_machineRun_of_run
    (m := pair_smallSpaces.machine pairHart) pairMachine_initial.inv (fun handling => by cases handling) run
  refine ⟨es, s, t, ht, u, hu, fun same => ne (congrArg Task.thread same), machineRun, ?_,
    preserved_of_cleanRun pairMachine_initial machineRun⟩
  cases mode : s.1.mode with
  | user tf =>
    simp only [Machine.hart, mode, Mode.thread] at user
    rw [Option.some.inj user]
  | booting | handling | interrupted => simp [Machine.hart, mode, Mode.thread] at user

/-! ## A read into the own frame -/

theorem lone_smallSpaces : lone.SmallSpaces fun _ => loneTables where
  toSmall := lone_small
  satps := by simp [lone]
  distinct := by simp [lone]
  owned _ _ _ inside := .inr (.inr inside)
  frame := by simp [lone, loneTables]
  pages := by simp [lone]
  kernelFrameFits := by simp [lone]

def loneSpaces : Spaces lone := lone_smallSpaces.spaces

def loneMachine : Machine := lone_smallSpaces.machine loneHart

theorem loneMachine_initial : loneSpaces.Initial loneMachine where
  mode := rfl
  objects := lone_initial.objects
  running := lone_initial.running
  hart := ⟨_, rfl⟩
  satp := rfl
  mapped := lone_smallSpaces.mapped fun _ _ => loneHart_tables
  kernelFrame := by
    have clear : AgreeOn (bytesAt 0x20000 KernelTrapFrame.SIZE) (fun _ => 0)
        (initializeThread (loneTables.store fun _ => 0) 0x10000 0x80000000
          (buildSatp SATP_SV39 1 0x2000)) := fun x inside => by
      simp only [bytesAt] at inside
      rw [initializeThread_apply_of_outside _ _ _ (by simp only [TrapFrame.SIZE]; omega),
        loneTables.store_apply_of_outside _ (.inr (by simp only [loneTables_root]; omega))]
    have frame := agreeOn_initKernelTrapFrame (a := 0x20000) clear 0 0x9000 loneSpaces.kernelSatp
    exact ⟨0, 0x9000, frame⟩
  frames := by
    simp only [lone, List.mem_singleton, forall_eq]
    have clear : AgreeOn (bytesAt 0x10000 TrapFrame.SIZE) (fun _ => 0)
        (loneTables.store fun _ => 0) := fun x inside =>
      loneTables.store_apply_of_outside _ (.inr (by
        simp only [bytesAt, loneTables_root] at inside ⊢
        omega))
    refine ⟨0x80000000, (agreeOn_initializeThread clear _ _).trans fun x inside => ?_⟩
    exact initKernelTrapFrame_apply_of_outside _ _ _ _ (by
      simp only [bytesAt, TrapFrame.SIZE] at inside
      omega)

/-- The process runs, and has opened a regular file as its file 0. -/
theorem loneMachine_open : ∃ es s,
    Transition.Run loneSpaces.CleanStep (loneMachine, .initial loneMachine) es s ∧
      s.1.mode = .user 0x10000 ∧ loneTables.Loaded s.1.cpu.memory ∧
      (s.1.processManager.processes 0x100).fdTable.descriptor 0 = some (some .regular) := by
  obtain ⟨h₁, h₂, started, opened, -, user, tables, file, -⟩ := lone_open .regular
  obtain ⟨es, s, run, rfl, -⟩ := exists_machineRun_of_run (m := loneMachine)
    loneMachine_initial.inv (fun handling => by cases handling)
    (.cons started (.cons opened (.nil _)))
  refine ⟨es, s, run, ?_, tables, file⟩
  cases mode : s.1.mode with
  | user tf =>
    simp only [Machine.hart, mode, Mode.thread] at user
    rw [Option.some.inj user]
  | booting | handling | interrupted => simp [Machine.hart, mode, Mode.thread] at user

/-- The process reads one byte from file 0 to where its frame keeps `x1`. -/
def readFrame (h : Hart) : UserTrap :=
  systemCall h 3 0 0x1008 1 { opened := none, content := .ok [1], listed := false }

/-- `handle_read` writes the byte into the frame. -/
theorem handleInterrupt_readFrame {h : Hart} (inv : lone.Inv h) (user : h.current = some 0x10000)
    (tables : loneTables.Loaded h.kernel.memory)
    (file : (h.kernel.processManager.processes 0x100).fdTable.descriptor 0 = some (some .regular)) :
    handleInterrupt 0 0x20000 0x10000 ((readFrame h).saved h 0x10000) (readFrame h).surroundings =
      some (0x10000, { (readFrame h).saved h 0x10000 with
        memory := returnValue 0x10000 1
          (storeBytes ((readFrame h).saved h 0x10000).memory 0x10008 [1]) }) := by
  have occurs : (Event.trap (readFrame h)).Occurs lone.kernelMemory h :=
    systemCall_occurs (by simp [user])
  obtain ⟨t, ht, -, -, current, fromUser⟩ := saved_facts inv occurs user
  obtain rfl := List.mem_singleton.1 ht
  have objects : lone.Objects ((readFrame h).saved h 0x10000).processManager := inv.objects
  have tables' : loneTables.Loaded ((readFrame h).saved h 0x10000).memory :=
    tables.congr fun x inside => saveContext_apply_of_outside _ _ _ _ _ _ (by
      simp only [loneTables_root, bytesAt] at inside
      omega)
  have arg0 : syscallArg ((readFrame h).saved h 0x10000) 0x10000 0 = 0 := systemCall_arg0 _
  have arg1 : syscallArg ((readFrame h).saved h 0x10000) 0x10000 1 = 0x1008 := systemCall_arg1 _
  have mapped : ((readFrame h).saved h 0x10000).userspaceGet 0x100
      (syscallArg ((readFrame h).saved h 0x10000) 0x10000 1) = some 0x10008 := by
    rw [arg1, Kernel.userspaceGet, (objects.process _ ht).2.1]
    have found := (tables'.translate_frame (by decide) (by decide) (by decide : 8 < 4096)).2.2
    exact found ▸ rfl
  refine handleInterrupt_read objects ht current fromUser (systemCall_hasCause _)
    (systemCall_syscallId _) ?_ mapped rfl ?_ 0
  · rw [arg0]
    exact file
  · exact current.congr fun x inside => storeBytes_apply_of_outside _ fun i bound => by
      simp only [List.length_singleton, bytesAt] at bound inside
      simp only [lone] at inside
      omega

/-- A process that reads into the page at `0x1000` resumes with another `x1`. -/
theorem read_overwrites_frame : ∃ es s,
    Transition.Run loneSpaces.UserStep (loneMachine, .initial loneMachine) es s ∧
      ¬ loneSpaces.Preserved s.1 s.2 := by
  obtain ⟨es, s, run, mode, tables, file⟩ := loneMachine_open
  have inv := inv_cleanRun loneMachine_initial.inv run
  obtain ⟨t, ht, eq, running⟩ := inv.user _ mode
  obtain rfl := List.mem_singleton.1 ht
  have fromUser : s.1.mode.thread ≠ none := by rw [mode]; exact Option.some_ne_none _
  have user : s.1.hart.current = some 0x10000 := by rw [Machine.hart, mode]; rfl
  have occurs : s.1.Occurs lone.kernelMemory (readFrame s.1.hart).trap :=
    ⟨by rw [mode]; simp [readFrame, systemCall, UserTrap.trap, Mode.thread], rfl, .refl _ _⟩
  obtain ⟨m₁, entered, handling, kernel, kernelTf, tf, space⟩ :=
    exists_trap inv ht mode occurs (readFrame s.1.hart).surroundings
  have inv₁ := inv_trap inv entered fromUser
  have saved : m₁.kernel = (readFrame s.1.hart).saved s.1.hart 0x10000 := kernel
  have handled := handleInterrupt_readFrame (inv.hart (by rw [mode]; simp)) user tables file
  have handled' : handleInterrupt 0 m₁.kernelTf m₁.argument m₁.kernel
      (readFrame s.1.hart).surroundings = some (0x10000, { m₁.kernel with
        memory := returnValue 0x10000 1 (storeBytes m₁.cpu.memory 0x10008 [1]) }) := by
    rw [kernelTf, tf, saved]
    exact saved ▸ handled
  -- only the byte at `0x10008` and the fields of the return value have changed
  have stored : ∀ a, 0x10010 ≤ a → a + 8 ≤ TrapFrame.sepc 0x10000 ∨ TrapFrame.sepc 0x10000 + 8 ≤ a →
      TrapFrame.regs 0x10000 10 + 8 ≤ a →
      load64 (returnValue 0x10000 1 (storeBytes m₁.cpu.memory 0x10008 [1])) a =
        load64 m₁.cpu.memory a := fun a above sepc a0 => by
    rw [load64_returnValue_of_disjoint _ _ _ (.inr a0) sepc]
    exact load64_congr fun x lower upper => storeBytes_apply_of_outside _ fun i bound => by
      simp only [List.length_singleton] at bound
      omega
  have beside : AgreeOn loneSpaces.tables m₁.cpu.memory
      (returnValue 0x10000 1 (storeBytes m₁.cpu.memory 0x10008 [1])) := by
    rintro x ⟨t, -, inside⟩
    simp only [loneTables_root, bytesAt] at inside
    rw [returnValue_apply_of_outside _ _ _ (.inl (by omega))]
    exact storeBytes_apply_of_outside _ fun i bound => by omega
  have frame := inv₁.held (by rw [handling]; rfl) ht
  obtain ⟨c, left, resumed⟩ := exists_handled (u := ⟨0x100, 0x200, 0x10000, 0x2000, 1, _⟩) handling
    space handled' ht (inv₁.mapped.congr beside) (by
      rw [stored _ (by simp [TrapFrame.kernelSatp]) (by simp [TrapFrame.kernelSatp, TrapFrame.sepc])
        (by simp [TrapFrame.kernelSatp, TrapFrame.regs])]
      exact frame.satp)
  have user' := @sret_mode lone loneSpaces ⟨0x100, 0x200, 0x10000, 0x2000, 1, _⟩ _ _ (by
    rw [isKernelTrap, stored _ (by simp [TrapFrame.sstatus])
      (by simp [TrapFrame.sstatus, TrapFrame.sepc]) (by simp [TrapFrame.sstatus, TrapFrame.regs])]
    exact frame.user) resumed
  have tail := Transition.Run.cons (Spaces.userStep_next (h := s.2) entered fromUser)
    (.cons (Spaces.userStep_next left trivial) (.nil _))
  refine ⟨_, _, (run.mono fun _ _ _ step => step.1).append tail, fun preserved => ?_⟩
  obtain ⟨t, ht, -, resumes⟩ := preserved.user _ user'
  obtain rfl := List.mem_singleton.1 ht
  have same := resumes.x 1 (by omega) (by omega)
  rw [History.contexts_trap_handled mode running.running, resumedContext_x (by decide),
    show (Machine.sret _ _ c).cpu = c from rfl, resumed.x 1 (by omega) (by omega),
    load64_returnValue_of_disjoint _ _ _ (.inl (by simp [TrapFrame.regs]))
      (.inl (by simp [TrapFrame.regs, TrapFrame.sepc]))] at same
  have low := congrArg (BitVec.extractLsb' 0 8) same
  rw [extractLsb'_load64 _ _ (k := 0) (by omega)] at low
  exact absurd low (by simp [storeBytes, TrapFrame.regs, readFrame, systemCall, UserTrap.trap])

end MatteOS.Traps
