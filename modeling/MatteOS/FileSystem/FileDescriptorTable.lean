import Mathlib.Tactic.Common

/-!
# File-descriptor tables

`FileDescriptorTable`: a fixed number of slots. An operation gives `none` where
`Array::get` stops at its bounds assertion.
-/

namespace MatteOS.FileSystem

def MAX_FDS : Nat := 256

/-- The slots of `m_fds`; an empty one holds a null pointer. -/
structure FileDescriptorTable (D : Type) where
  fds : List (Option D)
deriving DecidableEq

namespace FileDescriptorTable

variable {D : Type}

/-- `FileDescriptorTable()` -/
def empty : FileDescriptorTable D := { fds := .replicate MAX_FDS none }

/-- `FileDescriptorTable::open` -/
def openDescriptor (table : FileDescriptorTable D) (descriptor : D) :
    Except String Nat × FileDescriptorTable D :=
  match table.fds.findIdx? Option.isNone with
  | some i => (.ok i, { fds := table.fds.set i (some descriptor) })
  | none => (.error "No free file descriptors!", table)

/-- `FileDescriptorTable::close` -/
def close (table : FileDescriptorTable D) (fd : Nat) :
    Except String Unit × FileDescriptorTable D :=
  match table.fds[fd]? with
  | none => (.error "Invalid file descriptor!", table)
  | some none => (.error "File descriptor already closed!", table)
  | some (some _) => (.ok (), { fds := table.fds.set fd none })

/-- `FileDescriptorTable::close_all` -/
def closeAll (table : FileDescriptorTable D) : Except String Unit × FileDescriptorTable D :=
  (.ok (), { fds := table.fds.map fun _ => none })

/-- `FileDescriptorTable::get` -/
def get (table : FileDescriptorTable D) (fd : Nat) : Option (Except String D) :=
  match table.fds[fd]? with
  | none => none
  | some none => some (.error "Invalid file descriptor!")
  | some (some descriptor) => some (.ok descriptor)

/-- `FileDescriptorTable::operator[]`: a null pointer where `get` fails. -/
def descriptor (table : FileDescriptorTable D) (fd : Nat) : Option (Option D) :=
  (table.get fd).map Except.toOption

end FileDescriptorTable

end MatteOS.FileSystem
