import MatteOS.FileSystem.FileSystem

/-!
# The device file system

`RamFileSystem` with a root directory of devices, which is what `DeviceManager` makes of it.
-/

namespace MatteOS.FileSystem

open Utils

/-- The root directory, or the `DevInode` of a device. -/
inductive RamInode (Device : Type) where
  | root
  | device (device : Device)
deriving DecidableEq

/-- `m_children` of the root. A `DevInode` has no children. -/
structure RamFileSystem (Device : Type) where
  children : HashMap HashFunctions.djb2 Device

variable {Device : Type}

namespace RamInode

/-- `RamInode::is_directory` and `DevInode::is_directory` -/
def isDirectory : RamInode Device → Bool
  | root => true
  | device _ => false

/-- `m_children` -/
def children (ramfs : RamFileSystem Device) :
    RamInode Device → HashMap HashFunctions.djb2 Device
  | root => ramfs.children
  | device _ => .empty

/-- `RamInode::get_child` -/
def getChild (ramfs : RamFileSystem Device) (inode : RamInode Device) (name : Name) :
    Except String (RamInode Device) := do
  return .device (← (inode.children ramfs).get name)

/-- `RamInode::list_dir` -/
def listDir (ramfs : RamFileSystem Device) (inode : RamInode Device) : Except String (List Name) :=
  .ok ((inode.children ramfs).forEach.map Prod.fst)

end RamInode

namespace RamFileSystem

variable (ramfs : RamFileSystem Device)

/-- The inodes, as `FileSystem::open` sees them. -/
def tree : FileTree (RamInode Device) where
  root := .root
  isDirectory := RamInode.isDirectory
  listDir := RamInode.listDir ramfs
  getChild := RamInode.getChild ramfs
  child_ne_root inode name child h := by
    unfold RamInode.getChild at h
    cases found : (inode.children ramfs).get name with
    | error error =>
      rw [found] at h
      cases h
    | ok device =>
      rw [found] at h
      rw [← Except.ok.inj h]
      exact nofun

/-- `RamFileSystem::exists` -/
def fileExists (path : Name) : Bool := (RamInode.root.getChild ramfs path).isOk

/-- `RamFileSystem::open` -/
def openPath [DecidableEq Device] (resumes : Bool) (held : Nat → Nat)
    (table : OpenFileDescriptorTable (RamInode Device)) (path : Name) :
    Option (Except String Nat × OpenFileDescriptorTable (RamInode Device)) :=
  ramfs.tree.openPath resumes held table path

/-- The names that `m_children.set` was called with, in order, with their devices -/
def ofDevices (devices : List (Name × Device)) : Option (RamFileSystem Device) :=
  (HashMap.empty.sets devices).map fun children => { children }

end RamFileSystem

end MatteOS.FileSystem
