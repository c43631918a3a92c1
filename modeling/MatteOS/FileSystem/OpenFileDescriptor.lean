import MatteOS.FileSystem.Directory
import MatteOS.Utils.HashMap

/-!
# The open-file table

`OpenFileDescriptorTable` maps paths to references to `OpenFileDescriptor` objects, which
are numbered here in the order of their creation. Paths are C strings, so that `==` on them is
equality. An operation gives `none` where the code follows a null pointer or a failed
assertion halts the processor.
-/

namespace MatteOS.FileSystem

open Utils

/-- `runtime_assert`. A failed assertion executes `wfi` in `CPU::halt`; `resumes` says whether an
interrupt ends it. -/
def runtimeAssert (resumes condition : Bool) : Option Unit :=
  if condition || resumes then some () else none

structure OpenFileDescriptor (Inode : Type) where
  inode : Inode
  numberOfOpeners : BitVec 64

namespace OpenFileDescriptor

variable {Inode : Type} (descriptor : OpenFileDescriptor Inode)

/-- `OpenFileDescriptor(inode)` -/
def new (inode : Inode) : OpenFileDescriptor Inode := { inode, numberOfOpeners := 0 }

/-- `OpenFileDescriptor::open` -/
def opened : OpenFileDescriptor Inode :=
  { descriptor with numberOfOpeners := descriptor.numberOfOpeners + 1 }

/-- `OpenFileDescriptor::close`, with whether that was the last opener. -/
def closed : Bool × OpenFileDescriptor Inode :=
  let numberOfOpeners := descriptor.numberOfOpeners - 1
  (numberOfOpeners == 0, { descriptor with numberOfOpeners })

end OpenFileDescriptor

structure OpenFileDescriptorTable (Inode : Type) where
  descriptors : HashMap HashFunctions.djb2 Nat
  objects : Nat → OpenFileDescriptor Inode
  created : Nat

namespace OpenFileDescriptorTable

variable {Inode : Type} (table : OpenFileDescriptorTable Inode)

def setObject (d : Nat) (descriptor : OpenFileDescriptor Inode) : OpenFileDescriptorTable Inode :=
  { table with objects := Function.update table.objects d descriptor }

/-- `OpenFileDescriptorTable::has_descriptor` -/
def hasDescriptor (name : Name) : Bool := table.descriptors.hasKey name

/-- `OpenFileDescriptorTable::create_descriptor_and_open` -/
def createDescriptorAndOpen (path : Name) (inode : Inode) :
    Option (Nat × OpenFileDescriptorTable Inode) := do
  let descriptor := table.created
  let table := { table with created := table.created + 1 }
  let table := table.setObject descriptor (OpenFileDescriptor.new inode).opened
  let descriptors ← table.descriptors.set path descriptor
  return (descriptor, { table with descriptors })

/-- `OpenFileDescriptorTable::open` -/
def openDescriptor (path : Name) : Except String Nat × OpenFileDescriptorTable Inode :=
  if !table.descriptors.hasKey path then (.error "File not found, cannot open", table)
  else
    match table.descriptors.get path with
    | .error error => (.error error, table)
    | .ok descriptor =>
      (.ok descriptor, table.setObject descriptor (table.objects descriptor).opened)

/-- `m_ref_count` where `close` asserts that it is 1: the references in the map, the local variables
`error_or_descriptor` and `descriptor`, and what callers hold. -/
def refCount (held : Nat → Nat) (descriptor : Nat) : Nat :=
  (table.descriptors.forEach.filter fun entry => entry.2 = descriptor).length + 2 + held descriptor

/-- `OpenFileDescriptorTable::close` -/
def close (resumes : Bool) (held : Nat → Nat) (path : Name) :
    Option (Except String Unit × OpenFileDescriptorTable Inode) :=
  if !table.descriptors.hasKey path then some (.error "File not found, cannot close", table)
  else
    match table.descriptors.get path with
    | .error error => some (.error error, table)
    | .ok descriptor => do
      let (last, object) := (table.objects descriptor).closed
      let table := table.setObject descriptor object
      let descriptors ← if last then table.descriptors.remove path else some table.descriptors
      let table := { table with descriptors }
      runtimeAssert resumes (table.refCount held descriptor == 1)
      return (.ok (), table)

/-- `OpenFileDescriptorTable::get_descriptor` -/
def getDescriptor (path : Name) : Except String Nat :=
  if !table.descriptors.hasKey path then .error "File not found, cannot get descriptor"
  else table.descriptors.get path

/-- A file system's table before anything was opened. -/
def empty (inode : Inode) : OpenFileDescriptorTable Inode :=
  { descriptors := HashMap.empty, objects := fun _ => OpenFileDescriptor.new inode, created := 0 }

end OpenFileDescriptorTable

end MatteOS.FileSystem
