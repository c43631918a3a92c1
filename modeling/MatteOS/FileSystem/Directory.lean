import MatteOS.FileSystem.FATInode
import MatteOS.Utils.Strings

/-!
# Directories of a FAT32 volume

`FATInode::list_dir` and `FATInode::get_child` on the entries of the first cluster of a directory.
`none` stands for a read past the end of the cluster.
-/

namespace MatteOS.FileSystem

/-- A name, as the bytes of a `String`. -/
abbrev Name := List (BitVec 8)

/-- The 32 bytes of an entry. -/
structure DirectoryEntry where
  bytes : List (BitVec 8)
deriving DecidableEq

/-- `sizeof(FAT::DirectoryEntry)` -/
def DIRECTORY_ENTRY_SIZE : Nat := 32

namespace DirectoryEntry

variable (entry : DirectoryEntry)

def byte (i : Nat) : BitVec 8 := entry.bytes.getD i 0

/-- The little-endian `u16` at `i`. -/
def word (i : Nat) : BitVec 16 := entry.byte (i + 1) ++ entry.byte i

def attributes : BitVec 8 := entry.byte 11

def isFree : Bool := entry.byte 0 == 0xE5 || entry.byte 0 == 0x00

/-- `attributes & LongName == LongName`, where `==` binds tighter than `&` -/
def isLongName : Bool := entry.attributes &&& 1 != 0

/-- `String(name, 11)` -/
def shortName : Name := (List.range 11).map entry.byte

/-- `LongDirectoryEntry::is_final_entry` -/
def isFinalEntry : Bool := entry.byte 0 &&& 0x40 != 0

/-- `LongDirectoryEntry::is_free`, which masks everything -/
def isFreeLong : Bool := entry.byte 0 &&& 0x00 != 0

/-- One loop over `count` characters at `start`: it stops at a character 0 or 0xFFFF. -/
def characters (start count : Nat) : Name :=
  (((List.range count).map fun i => entry.word (start + 2 * i)).takeWhile
    fun c => c != 0 && c != 0xFFFF).map fun c => (c &&& (0xFF00 : BitVec 16) >>> 8).setWidth 8

/-- The part of the name in a long entry: `name1`, `name2` and `name3`. -/
def longCharacters : Name :=
  entry.characters 1 5 ++ entry.characters 14 6 ++ entry.characters 28 2

/-- `FullDirectoryEntry::filled_from` -/
def filledFrom (name : Name) : FullDirectoryEntry where
  name
  size := entry.word 30 ++ entry.word 28
  firstCluster := entry.word 20 ++ entry.word 26
  attributes := entry.attributes

/-- The loop over long entries, of which `rest` follow: the name, and how often it has moved
`directory_entry_index` on. -/
def longName (entryName : Name) (entry : DirectoryEntry) (rest : List DirectoryEntry) :
    Option (Name × Nat) :=
  let entryName := entry.longCharacters ++ entryName
  if entry.isFinalEntry || entry.isFreeLong then some (entryName, 1)
  else
    match rest with
    | [] => none
    | next :: rest => (longName entryName next rest).map fun (name, moved) => (name, moved + 1)

end DirectoryEntry

/-- The entries of a block. -/
def DataBlock.directoryEntries (block : DataBlock) (blockSize : Nat) : List DirectoryEntry :=
  (List.range (blockSize / DIRECTORY_ENTRY_SIZE)).map fun i =>
    ⟨(block.data.drop (i * DIRECTORY_ENTRY_SIZE)).take DIRECTORY_ENTRY_SIZE⟩

/-- The loop of `FATInode::list_dir`, after `skip` of the entries -/
def listEntries : Nat → List DirectoryEntry → Option (List Name)
  | _, [] => some []
  | skip + 1, _ :: entries => listEntries skip entries
  | 0, entry :: entries =>
    if entry.isFree then listEntries 0 entries
    else if entry.isLongName then
      match entry.longName [] entries with
      | none => none
      | some (entryName, moved) => (listEntries moved entries).map (entryName :: ·)
    else (listEntries 0 entries).map (entry.shortName :: ·)

/-- The loop of `FATInode::get_child`, after `skip` of the entries -/
def findEntry (name : Name) : Nat → List DirectoryEntry → Option (Except String FullDirectoryEntry)
  | _, [] => some (.error "Child not found")
  | skip + 1, _ :: entries => findEntry name skip entries
  | 0, entry :: entries =>
    if entry.isFree then findEntry name 0 entries
    else if entry.isLongName then
      match entry.longName [] entries with
      | none => none
      | some (entryName, moved) =>
        match entries[moved - 1]? with
        | none => none
        | some entry =>
          if entry.isLongName then
            some (.error
              "Corrupt directory: Last Long name entry not followed by standard entry")
          else if Utils.Strings.equals entryName name then some (.ok (entry.filledFrom entryName))
          else findEntry name moved entries
    else if Utils.Strings.equals entry.shortName name then some (.ok (entry.filledFrom entry.shortName))
    else findEntry name 0 entries

namespace FullDirectoryEntry

/-- `FullDirectoryEntry::is_directory` -/
def isDirectory (entry : FullDirectoryEntry) : Bool := entry.attributes &&& 0x10 != 0

end FullDirectoryEntry

namespace FATInode

variable (inode : FATInode)

/-- `FATInode::list_dir` -/
def listDir : BlockM (Option (List Name)) := do
  if !inode.entry.isDirectory then throw "Not a directory"
  let block ← inode.fs.readClusterPoll inode.entry.firstCluster.toNat
  return listEntries 0 (block.directoryEntries inode.fs.blockSize)

/-- `FATInode::get_child` -/
def getChild (name : Name) : BlockM (Option FATInode) := do
  if !inode.entry.isDirectory then throw "Not a directory"
  let block ← inode.fs.readClusterPoll inode.entry.firstCluster.toNat
  match findEntry name 0 (block.directoryEntries inode.fs.blockSize) with
  | none => return none
  | some (.error error) => throw error
  | some (.ok entry) => return some ⟨inode.fs, entry⟩

end FATInode

end MatteOS.FileSystem
