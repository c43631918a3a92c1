import MatteOS.FileSystem.FileSystem

/-!
# The virtual file system

`VirtualFileSystem`: the root inode, the mount table, and how `open` finds the file system of a path.
A call gives `none` where the hash map follows a null entry.
-/

namespace MatteOS.FileSystem

open Utils

/-- The file systems and their inodes, by the virtual functions that are called here. -/
structure FileSystems (FS Inode : Type) where
  root : FS → Except String Inode
  /-- `Inode::fs`, which can be null -/
  fs : Inode → Option FS
  fileExists : FS → Name → Bool

/-- `MountFlags::implicit` -/
def MountFlags.implicit : BitVec 64 := 0

structure MountContext (FS : Type) where
  fs : FS
  mountFlags : BitVec 64

structure VirtualFileSystem (FS Inode : Type) where
  rootInode : Option Inode
  mounts : HashMap HashFunctions.djb2 (MountContext FS)

/-- The bit of `FileOperationMode::Exclusive` in a `FileOpenMode` -/
def isExclusive (mode : BitVec 64) : Bool := mode &&& (2 <<< 3) != 0

namespace VirtualFileSystem

variable {FS Inode : Type} (systems : FileSystems FS Inode) (vfs : VirtualFileSystem FS Inode)

/-- `VirtualFileSystem()` -/
def new : VirtualFileSystem FS Inode := { rootInode := none, mounts := .empty }

/-! ## Mounting -/

/-- `VirtualFileSystem::fs_mount` -/
def fsMount (mountPoint : Name) (fileSystem : FS) (mountFlags : BitVec 64) :
    Option (Except String Unit × VirtualFileSystem FS Inode) :=
  if vfs.mounts.hasKey mountPoint then some (.error "A filesystem already mounted here!", vfs)
  else do
    let mounts ← vfs.mounts.set mountPoint { fs := fileSystem, mountFlags }
    return (.ok (), { vfs with mounts })

/-- `VirtualFileSystem::mount` -/
def mount (mountPoint : Name) (fileSystem : FS) :
    Option (Except String Unit × VirtualFileSystem FS Inode) :=
  vfs.fsMount mountPoint fileSystem MountFlags.implicit

/-- The mount point `/` -/
def rootPath : Name := [FileTree.slash]

/-- `VirtualFileSystem::mount_root_fs` -/
def mountRootFs (fileSystem : FS) : Option (Except String Unit × VirtualFileSystem FS Inode) :=
  match systems.root fileSystem with
  | .error error => some (.error error, vfs)
  | .ok inode => do
    -- whether the file system could be mounted is not looked at
    let (_, vfs) ← fsMount { vfs with rootInode := some inode } rootPath fileSystem MountFlags.implicit
    return (.ok (), vfs)

/-! ## Finding the file system of a path -/

/-- The inner loop of `longest_common_prefix` from part `i` on. -/
def compareParts (context : MountContext FS) (i : Nat) :
    List Name → List Name → Option FS × Nat → Option FS × Nat
  | part :: path, mountPart :: mountParts, (fs, longest) =>
    if part ≠ mountPart then (fs, longest)
    else
      compareParts context (i + 1) path mountParts
        (if i + 1 > longest then (some context.fs, i + 1) else (fs, longest))
  | _, _, s => s

/-- `VirtualFileSystem::longest_common_prefix`, where `for_each` goes through the mounts in this
order -/
def longestCommonPrefix (order : List (Name × MountContext FS)) (path : List Name) :
    Except String (FS × Nat) :=
  match vfs.rootInode with
  | none => .error "No root filesystem mounted!"
  | some inode =>
    let found := order.foldl (fun s (mountPoint, context) =>
      compareParts context 0 path (Strings.split mountPoint FileTree.slash) s) (systems.fs inode, 0)
    match found with
    | (none, _) => .error "No filesystem mounted at this path!"
    | (some fs, longest) => .ok (fs, longest)

/-- The loop of `open` over the parts that are left: a separator behind each but the last. -/
def joinParts : List Name → Name
  | [] => []
  | [part] => part
  | part :: parts => part ++ FileTree.slash :: joinParts parts

/-- The first half of `VirtualFileSystem::open`: the file system and the relative path. -/
def resolve (order : List (Name × MountContext FS)) (path : Name) : Except String (FS × Name) := do
  let pathParts := Strings.split path FileTree.slash
  let (fs, longest) ← vfs.longestCommonPrefix systems order pathParts
  return (fs, FileTree.slash :: joinParts (pathParts.drop longest))

/-- `VirtualFileSystem::open`, up to the call of `open` of the file system with the relative path -/
def openCall (path : Name) (mode : BitVec 64) : Except String (FS × Name) := do
  let (fs, relativePath) ← vfs.resolve systems vfs.mounts.forEach path
  if systems.fileExists fs relativePath && isExclusive mode then
    throw "Cannot open file in exclusive mode! File already exists!"
  return (fs, relativePath)

end VirtualFileSystem

end MatteOS.FileSystem
