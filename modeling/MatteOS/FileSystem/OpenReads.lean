import MatteOS.FileSystem.FATInode
import MatteOS.FileSystem.FileDescriptorTable

/-!
# Reading through file descriptors

The files of a volume that a process has open, each with an offset of its own. They share the block
cache of the volume.
-/

namespace MatteOS.FileSystem

open ByteMemory

/-- A table of open files with the memory they are read into and the cache they are read through.
The object of a file is in one slot only. -/
structure OpenReads where
  table : FileDescriptorTable File
  memory : Memory
  store : BlockStore

inductive ReadCall where
  | open (inode : FATInode)
  | close (fd : Nat)
  | closeAll
  | read (fd buffer size : Nat)

namespace OpenReads

/-- `FileDescriptorTable::get` and the read of the file it finds, which moves the offset on. -/
def read (fuel fd buffer size : Nat) (s : OpenReads) : Option (Except String Nat × OpenReads) :=
  match s.table.get fd with
  | none => none
  | some (.error error) => some (.error error, s)
  | some (.ok file) =>
    (file.read fuel buffer size s.memory s.store).map fun (result, file, memory, store) =>
      (result, { table := { fds := s.table.fds.set fd (some file) }, memory, store })

/-- A call with its result; what closes gives 0. -/
def call (fuel : Nat) (s : OpenReads) : ReadCall → Option (Except String Nat × OpenReads)
  | .open inode =>
    let (result, table) := s.table.openDescriptor { inode, offset := 0 }
    some (result, { s with table })
  | .close fd =>
    let (result, table) := s.table.close fd
    some (result.map fun _ => 0, { s with table })
  | .closeAll =>
    let (result, table) := s.table.closeAll
    some (result.map fun _ => 0, { s with table })
  | .read fd buffer size => s.read fuel fd buffer size

def Step (s : OpenReads) (e : ReadCall × Except String Nat) (s' : OpenReads) : Prop :=
  ∃ fuel, s.call fuel e.1 = some (e.2, s')

end OpenReads

end MatteOS.FileSystem
