import MatteOS.Traps.Verify.Interrupts

/-!
# System calls of a thread

`systemCall` is the trap of a thread that makes a given call, and `handleInterrupt_open`
runs the one that opens a file.
-/

namespace MatteOS.Traps

open ByteMemory Processes

/-- A thread makes the system call `id` with three arguments. -/
def systemCall (h : Hart) (id arg0 arg1 arg2 : BitVec 64) (answer : Answer) : UserTrap where
  context := {
    x := fun i =>
      if i = 17 then id else if i = 10 then arg0 else if i = 11 then arg1
      else if i = 12 then arg2 else 0
    f := fun _ => 0
    sepc := 0
    sstatus := 0 }
  memory := h.kernel.memory
  scause := 8
  stval := 0
  surroundings := { answer, external := .none }

section

variable {l : Layout} {t : Task} {h : Hart} {id arg0 arg1 arg2 : BitVec 64} {answer : Answer}

theorem systemCall_occurs (user : h.current ≠ none) :
    (Event.trap (systemCall h id arg0 arg1 arg2 answer)).Occurs l.kernelMemory h :=
  ⟨user, by simp [systemCall], rfl, fun _ _ => rfl⟩

theorem systemCall_hasCause (tf : Nat) :
    HasCause ((systemCall h id arg0 arg1 arg2 answer).saved h tf) tf .systemCall := by
  rw [HasCause, UserTrap.saved, load64_saveContext_scause]
  rfl

theorem systemCall_syscallId (tf : Nat) :
    syscallId ((systemCall h id arg0 arg1 arg2 answer).saved h tf) tf = id := by
  rw [syscallId, UserTrap.saved, load64_saveContext_regs _ _ _ _ _ _ (by omega)]
  rfl

theorem systemCall_arg0 (tf : Nat) :
    syscallArg ((systemCall h id arg0 arg1 arg2 answer).saved h tf) tf 0 = arg0 := by
  rw [syscallArg, UserTrap.saved, load64_saveContext_regs _ _ _ _ _ _ (by omega)]
  rfl

theorem systemCall_arg1 (tf : Nat) :
    syscallArg ((systemCall h id arg0 arg1 arg2 answer).saved h tf) tf 1 = arg1 := by
  rw [syscallArg, UserTrap.saved, load64_saveContext_regs _ _ _ _ _ _ (by omega)]
  rfl

/-- The memory after a call that gives `value`. -/
def returnValue (tf : Nat) (value : BitVec 64) (m : Memory) : Memory :=
  let m := store64 m (TrapFrame.regs tf 10) value
  store64 m (TrapFrame.sepc tf) (load64 m (TrapFrame.sepc tf) + 4)

theorem returnValue_apply_of_outside (tf : Nat) (value : BitVec 64) (m : Memory) {x : Nat}
    (outside : x < tf ∨ tf + TrapFrame.SIZE ≤ x) : returnValue tf value m x = m x := by
  simp only [TrapFrame.SIZE] at outside
  rw [returnValue, store64_apply_of_outside _ _ (by simp only [TrapFrame.sepc]; omega),
    store64_apply_of_outside _ _ (by simp only [TrapFrame.regs]; omega)]

theorem load64_returnValue_of_disjoint (tf : Nat) (value : BitVec 64) (m : Memory) {b : Nat}
    (a0 : b + 8 ≤ TrapFrame.regs tf 10 ∨ TrapFrame.regs tf 10 + 8 ≤ b)
    (sepc : b + 8 ≤ TrapFrame.sepc tf ∨ TrapFrame.sepc tf + 8 ≤ b) :
    load64 (returnValue tf value m) b = load64 m b := by
  rw [returnValue, load64_store64_of_disjoint _ _ sepc, load64_store64_of_disjoint _ _ a0]

/-- A trap whose handler gives a value returns to the caller. -/
theorem handleInterrupt_of_handler {k k₁ : Kernel} (objects : l.Objects k.processManager)
    (ht : t ∈ l.tasks) (current : l.Current k.memory t)
    (user : isKernelTrap t.trapFrame k.memory = false) (cause : HasCause k t.trapFrame .systemCall)
    (known : (syscallId k t.trapFrame).toNat < 10) {s : Surroundings} {value : BitVec 64}
    (handled : syscallHandler l.kernelTf t.process (syscallId k t.trapFrame).toNat
      (syscallArg k t.trapFrame) s.answer k = some (.ok value, k₁)) (fuel : Nat) :
    handleInterrupt fuel l.kernelTf t.trapFrame k s =
      some (t.trapFrame, { k₁ with memory := returnValue t.trapFrame value k₁.memory }) := by
  have process := objects.getCurrentProcess_eq ht current
  have thread := objects.getCurrentThread_eq ht current
  have frame := (objects.thread t ht).1
  have handled' : syscallHandler l.kernelTf t.process
      (load64 k.memory (TrapFrame.regs t.trapFrame 17)).toNat
      (fun i => load64 k.memory (TrapFrame.regs t.trapFrame (10 + i))) s.answer k =
      some (.ok value, k₁) := handled
  rw [handleInterrupt, user, if_neg (by simp), show Interrupts.ofScause _ = _ from cause]
  simp only [handleSystemCall, thread, process, frame, handleSyscall, Option.bind_eq_bind,
    Option.bind_some]
  rw [if_neg (by simpa [syscallId] using known), handled']
  rfl

/-- Opening a file puts it into the first free slot. -/
theorem handleInterrupt_open {k : Kernel} (objects : l.Objects k.processManager) (ht : t ∈ l.tasks)
    (current : l.Current k.memory t) (user : isKernelTrap t.trapFrame k.memory = false)
    (cause : HasCause k t.trapFrame .systemCall) (id : syscallId k t.trapFrame = 0)
    (mapped : (k.userspaceGet t.process (syscallArg k t.trapFrame 0)).isSome)
    {s : Surroundings} {file : File} (opened : s.answer.opened = some file) {fd : Nat}
    {table : FileSystem.FileDescriptorTable File}
    (free : (k.processManager.processes t.process).fdTable.openDescriptor file = (.ok fd, table))
    (fuel : Nat) : handleInterrupt fuel l.kernelTf t.trapFrame k s = some (t.trapFrame,
      { k.modifyProcess t.process ({ · with fdTable := table }) with
        memory := returnValue t.trapFrame (.ofNat 64 fd) k.memory }) := by
  obtain ⟨address, mapped⟩ := Option.isSome_iff_exists.1 mapped
  have handled : syscallHandler l.kernelTf t.process (syscallId k t.trapFrame).toNat
      (syscallArg k t.trapFrame) s.answer k =
      some (.ok (.ofNat 64 fd), k.modifyProcess t.process ({ · with fdTable := table })) := by
    have zero : (syscallId k t.trapFrame).toNat = 0 := by rw [id]; rfl
    simp only [zero, syscallHandler, Process.handleOpen, mapped, opened, free]
  exact handleInterrupt_of_handler objects ht current user cause (by rw [id]; decide) handled fuel

/-- Reading a regular file stores its bytes where the page tables send the buffer. -/
theorem handleInterrupt_read {k : Kernel} (objects : l.Objects k.processManager) (ht : t ∈ l.tasks)
    (current : l.Current k.memory t) (user : isKernelTrap t.trapFrame k.memory = false)
    (cause : HasCause k t.trapFrame .systemCall) (id : syscallId k t.trapFrame = 3)
    (file : (k.processManager.processes t.process).fdTable.descriptor
      (((syscallArg k t.trapFrame 0).setWidth 32).signExtend 64).toNat = some (some .regular))
    {address : Nat} (mapped : k.userspaceGet t.process (syscallArg k t.trapFrame 1) = some address)
    {s : Surroundings} {bytes : List (BitVec 8)} (content : s.answer.content = .ok bytes)
    (kept : l.Current (storeBytes k.memory address bytes) t) (fuel : Nat) :
    handleInterrupt fuel l.kernelTf t.trapFrame k s = some (t.trapFrame,
      { k with
        memory := returnValue t.trapFrame (.ofNat 64 bytes.length)
          (storeBytes k.memory address bytes) }) := by
  have caller := objects.getCurrentThread_eq (k := { k with memory := storeBytes k.memory address bytes })
    ht kept
  have handled : syscallHandler l.kernelTf t.process (syscallId k t.trapFrame).toNat
      (syscallArg k t.trapFrame) s.answer k =
      some (.ok (.ofNat 64 bytes.length), { k with memory := storeBytes k.memory address bytes }) := by
    have three : (syscallId k t.trapFrame).toNat = 3 := by rw [id]; rfl
    simp only [three, syscallHandler, Process.handleRead, Process.readInto, Process.fileRead, file,
      mapped, content, Option.bind_eq_bind, Option.bind_some, Option.pure_def, caller]
  exact handleInterrupt_of_handler objects ht current user cause (by rw [id]; decide) handled fuel

/-- Exiting marks the process, and returns to it. -/
theorem handleInterrupt_exit {k : Kernel} (objects : l.Objects k.processManager) (ht : t ∈ l.tasks)
    (current : l.Current k.memory t) (user : isKernelTrap t.trapFrame k.memory = false)
    (cause : HasCause k t.trapFrame .systemCall) (id : syscallId k t.trapFrame = 5)
    (s : Surroundings) (fuel : Nat) :
    handleInterrupt fuel l.kernelTf t.trapFrame k s = some (t.trapFrame,
      { k.modifyProcess t.process ({ · with state := .dead }) with
        memory := returnValue t.trapFrame
          (((syscallArg k t.trapFrame 0).setWidth 32).signExtend 64) k.memory }) := by
  have handled : syscallHandler l.kernelTf t.process (syscallId k t.trapFrame).toNat
      (syscallArg k t.trapFrame) s.answer k =
      some (.ok (((syscallArg k t.trapFrame 0).setWidth 32).signExtend 64),
        k.modifyProcess t.process ({ · with state := .dead })) := by
    have five : (syscallId k t.trapFrame).toNat = 5 := by rw [id]; rfl
    simp only [five, syscallHandler, Process.handleExit]
  exact handleInterrupt_of_handler objects ht current user cause (by rw [id]; decide) handled fuel

end

end MatteOS.Traps
