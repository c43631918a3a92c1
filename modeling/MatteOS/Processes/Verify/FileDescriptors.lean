import MatteOS.FileSystem.Verify.FileDescriptorTable
import MatteOS.Processes.Verify.UserMemory

/-!
# File descriptors from user space

`handle_close` and `handle_read` look an argument up in the table of the process before anything
has checked it: a large index stops at the assertion of the array. `handle_read` then calls the
descriptor it got without looking whether there is one.
-/

namespace MatteOS.FileSystem.FileDescriptorTable

variable {D : Type} (table : FileDescriptorTable D)

theorem descriptor_of_empty {fd : Nat} (slot : table.fds[fd]? = some none) :
    table.descriptor fd = some none := by
  rw [descriptor, get, slot]
  rfl

end MatteOS.FileSystem.FileDescriptorTable

namespace MatteOS.Processes

open FileSystem Traps

/-- A system call with a file descriptor. -/
inductive DescriptorCall where
  | close (fd : BitVec 64)
  | read (fd : BitVec 32) (buffer size : BitVec 64)

namespace DescriptorCall

/-- The index that the argument becomes. -/
def index : DescriptorCall → Nat
  | .close fd => fd.toNat
  | .read fd _ _ => (fd.signExtend 64).toNat

def run (kernelTf process : Nat) (k : Kernel) (answer : Answer) : DescriptorCall → Handled
  | .close fd => Process.handleClose process k fd
  | .read fd buffer size => Process.handleRead kernelTf process k fd buffer size answer

/-- The argument names an open file. -/
def NamesFile (process : Nat) (k : Kernel) (c : DescriptorCall) : Prop :=
  ∃ file, (k.processManager.processes process).fdTable.fds[c.index]? = some (some file)

/-- `read` is called on what an empty slot gives. -/
def ReadsEmpty (process : Nat) (k : Kernel) : DescriptorCall → Prop
  | .close _ => False
  | .read fd buffer _ =>
    (k.processManager.processes process).fdTable.fds[(fd.signExtend 64).toNat]? = some none ∧
      (k.userspaceGet process buffer).isSome

/-- The call returns an error, without an access outside the table and without following an empty
descriptor. The table is accessed at the argument, so that the bound is one of the argument alone. -/
structure Validated (kernelTf process : Nat) (k : Kernel) (answer : Answer) (c : DescriptorCall) :
    Prop where
  error : ∃ k', c.run kernelTf process k answer = some (.error .error, k')
  index_lt : c.index < MAX_FDS
  not_empty : ¬ c.ReadsEmpty process k

/-- The argument is a slot of the table, and a read gets no further than its buffer. -/
def Refused (process : Nat) (k : Kernel) : DescriptorCall → Prop
  | .close fd => fd.toNat < 256
  | .read fd buffer _ => 0 ≤ fd.toInt ∧ fd.toInt < 256 ∧ k.userspaceGet process buffer = none

end DescriptorCall

/-- The index of a descriptor of 32 bits. -/
theorem signExtend_lt_iff (fd : BitVec 32) :
    (fd.signExtend 64).toNat < 256 ↔ 0 ≤ fd.toInt ∧ fd.toInt < 256 := by
  have bound := fd.isLt
  rw [BitVec.toNat_signExtend, BitVec.toNat_setWidth, BitVec.toInt_eq_msb_cond]
  have msb := BitVec.msb_eq_decide fd
  by_cases negative : fd.msb
  · rw [negative] at msb
    have large := of_decide_eq_true msb.symm
    simp only [negative, if_true]
    omega
  · rw [Bool.eq_false_iff.2 negative] at msb ⊢
    have small := of_decide_eq_false msb.symm
    simp only [Bool.false_eq_true, if_false]
    omega

section

variable {kernelTf process : Nat} {k : Kernel} {answer : Answer} {c : DescriptorCall}

/-- **A descriptor that names no file** is refused exactly when it is one of the slots and, for a
read, the buffer is not mapped either. -/
theorem descriptorCall_validated_iff
    (sized : (k.processManager.processes process).fdTable.fds.length = MAX_FDS)
    (invalid : ¬ c.NamesFile process k) :
    c.Validated kernelTf process k answer ↔ c.Refused process k := by
  have empty : c.index < MAX_FDS →
      (k.processManager.processes process).fdTable.fds[c.index]? = some none := by
    intro inside
    rw [← sized] at inside
    rw [List.getElem?_eq_getElem inside]
    cases slot : (k.processManager.processes process).fdTable.fds[c.index] with
    | none => rfl
    | some file =>
      exact absurd ⟨file, (List.getElem?_eq_getElem inside).trans (congrArg some slot)⟩ invalid
  cases c with
  | close fd =>
    constructor
    · exact fun valid => valid.index_lt
    · intro inside
      refine ⟨⟨k, ?_⟩, inside, id⟩
      have slot : (k.processManager.processes process).fdTable.descriptor fd.toNat = some none :=
        FileDescriptorTable.descriptor_of_empty _ (empty inside)
      simp only [DescriptorCall.run, Process.handleClose]
      change (FileDescriptorTable.descriptor _ _).bind _ = _
      rw [slot]
      rfl
  | read fd buffer size =>
    constructor
    · intro valid
      have inside := valid.index_lt
      obtain ⟨low, high⟩ := (signExtend_lt_iff fd).1 inside
      refine ⟨low, high, Option.not_isSome_iff_eq_none.1 fun mapped => ?_⟩
      exact valid.not_empty ⟨empty inside, mapped⟩
    · rintro ⟨low, high, unmapped⟩
      have inside := (signExtend_lt_iff fd).2 ⟨low, high⟩
      refine ⟨⟨k, ?_⟩, inside, fun reads => ?_⟩
      · have slot : (k.processManager.processes process).fdTable.descriptor
            (fd.signExtend 64).toNat = some none :=
          FileDescriptorTable.descriptor_of_empty _ (empty inside)
        have refused : Process.readInto process k fd buffer size answer = some none := by
          unfold Process.readInto
          change (FileDescriptorTable.descriptor _ _).bind _ = _
          rw [slot, Option.bind_some, unmapped]
          rfl
        simp only [DescriptorCall.run, Process.handleRead, refused]
        rfl
      · have mapped := reads.2
        rw [unmapped] at mapped
        cases mapped

end

theorem firstKernel_sized (file : File) :
    ((firstKernel file).processManager.processes 0x100).fdTable.fds.length = MAX_FDS := by
  change (FileDescriptorTable.empty.openDescriptor file).2.fds.length = MAX_FDS
  rw [FileDescriptorTable.openDescriptor_length, FileDescriptorTable.empty_length]

/-- Closing a slot that was never opened. -/
theorem descriptorCall_validated_close :
    (DescriptorCall.close 3).Validated 0x86230000 0x100 (firstKernel .regular)
      ⟨none, .ok [], false⟩ := by
  refine (descriptorCall_validated_iff (firstKernel_sized _) ?_).2 ?_
  · rintro ⟨file, opened⟩
    cases opened
  · change (3 : BitVec 64).toNat < 256
    decide

/-- Closing descriptor 256 stops at the assertion of the array. -/
theorem not_descriptorCall_validated : ¬ ∀ (kernelTf process : Nat) (k : Kernel) (answer : Answer)
    (c : DescriptorCall), (k.processManager.processes process).fdTable.fds.length = MAX_FDS →
    ¬ c.NamesFile process k → c.Validated kernelTf process k answer := by
  intro valid
  have refused := valid 0x86230000 0x100 (firstKernel .regular) ⟨none, .ok [], false⟩ (.close 256)
    (firstKernel_sized _) (by
      rintro ⟨file, opened⟩
      cases opened)
  exact absurd refused.index_lt (by decide)

end MatteOS.Processes
