import MatteOS.FileSystem.OpenFileDescriptor
import MatteOS.Utils.Strings

/-!
# Opening paths

`FileSystem::open` on the inodes of a file system, which are the objects behind the
virtual functions of `Inode`.
-/

namespace MatteOS.FileSystem

open Utils

/-- The inodes of a file system by their virtual functions. It is a tree at its root: no inode has
the root inode for a child. -/
structure FileTree (Inode : Type) where
  root : Inode
  isDirectory : Inode → Bool
  listDir : Inode → Except String (List Name)
  getChild : Inode → Name → Except String Inode
  child_ne_root : ∀ inode name child, getChild inode name = .ok child → child ≠ root

namespace FileTree

variable {Inode : Type} [DecidableEq Inode] (tree : FileTree Inode)

/-- The separator in paths -/
def slash : BitVec 8 := 0x2F

/-- The loop of `FileSystem::open` over the parts of `path`. -/
def traverse (resumes : Bool) (held : Nat → Nat) (path : Name) :
    List Name → Inode → Name → OpenFileDescriptorTable Inode →
      Option (Except String Nat × OpenFileDescriptorTable Inode)
  | [], _, _, table => some (table.getDescriptor path, table)
  | name :: parts, inode, pathSoFar, table =>
    if !tree.isDirectory inode then some (.error "Not a directory", table)
    else
      match tree.listDir inode with
      | .error error => some (.error error, table)
      | .ok directoryEntries =>
        if !directoryEntries.any fun entry => Utils.Strings.equals entry name then
          some (.error "Path not found", table)
        else
          let pathSoFar := pathSoFar ++ slash :: name
          -- what is left to do in a round once `new_inode` is known
          let next (newInode : Inode) (table : OpenFileDescriptorTable Inode) :=
            if tree.root ≠ inode then do
              let (_, table) ← table.close resumes held pathSoFar
              traverse resumes held path parts newInode pathSoFar table
            else traverse resumes held path parts newInode pathSoFar table
          if table.hasDescriptor pathSoFar then
            match table.openDescriptor pathSoFar with
            | (.error error, table) => some (.error error, table)
            | (.ok descriptor, table) => next (table.objects descriptor).inode table
          else
            match tree.getChild inode name with
            | .error error => some (.error error, table)
            | .ok child => do
              let (_, table) ← table.createDescriptorAndOpen pathSoFar child
              next child table

/-- `FileSystem::open` -/
def openPath (resumes : Bool) (held : Nat → Nat) (table : OpenFileDescriptorTable Inode)
    (path : Name) : Option (Except String Nat × OpenFileDescriptorTable Inode) :=
  if table.hasDescriptor path then some (table.openDescriptor path)
  else
    let pathParts := Strings.split path slash
    if pathParts.isEmpty then do
      let (descriptor, table) ← table.createDescriptorAndOpen path tree.root
      return (.ok descriptor, table)
    else tree.traverse resumes held path pathParts tree.root [] table

end FileTree

end MatteOS.FileSystem
