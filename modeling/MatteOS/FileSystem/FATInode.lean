import MatteOS.FileSystem.FATFileSystem
import MatteOS.Lib.Loop

/-!
# Files of a FAT32 volume

`FATInode::read` follows the chain of clusters to the offset and copies cluster by cluster to
the buffer; `File::read` moves the offset on.
-/

namespace MatteOS.FileSystem

open ByteMemory

/-- What a directory says of a file. -/
structure FullDirectoryEntry where
  name : List (BitVec 8)
  size : BitVec 32
  firstCluster : BitVec 32
  attributes : BitVec 8
deriving DecidableEq

structure FATInode where
  fs : FATFileSystem
  entry : FullDirectoryEntry

namespace FATInode

variable (inode : FATInode)

/-- The first loop of `FATInode::read` -/
def skipClusters : Nat → Nat → BlockM Nat
  | 0, currentCluster => pure currentCluster
  | clustersToSkip + 1, currentCluster => do
    let clusterEntry ← inode.fs.getFatEntry currentCluster
    if clusterEntry.isEndOfChain then
      throw "Corrupt FAT chain: Reached EOF before offset"
    skipClusters clustersToSkip clusterEntry.value

/-- The variables of the second loop of `FATInode::read`. -/
structure Copying where
  memory : Memory
  store : BlockStore
  bytesRead : Nat
  currentCluster : Nat

/-- The end of a read: its value or error, the memory, and the store. -/
abbrev ReadResult := Except String Nat × Memory × BlockStore

/-- The second loop of `FATInode::read` -/
def copyBody (buffer size initialClusterOffset : Nat) (s : Copying) : Loop.Next Copying ReadResult :=
  if s.bytesRead < size then
    match inode.fs.readClusterPoll s.currentCluster s.store with
    | .error error store => .done (.error error, s.memory, store)
    | .ok block store =>
      let offsetInCluster := if s.bytesRead = 0 then initialClusterOffset else 0
      let availableBytesInCluster := inode.fs.bytesPerCluster - offsetInCluster
      let bytesToRead := min (size - s.bytesRead) availableBytesInCluster
      let memory := storeBytes s.memory (buffer + s.bytesRead)
        ((block.data.drop offsetInCluster).take bytesToRead)
      let bytesRead := s.bytesRead + bytesToRead
      if bytesRead < size then
        match inode.fs.getFatEntry s.currentCluster store with
        | .error error store => .done (.error error, memory, store)
        | .ok clusterEntry store =>
          if clusterEntry.isEndOfChain then .done (.ok bytesRead, memory, store)
          else .again { memory, store, bytesRead, currentCluster := clusterEntry.value }
      else .again { s with memory, store, bytesRead }
  else .done (.ok s.bytesRead, s.memory, s.store)

/-- `FATInode::read`, whose second loop goes around at most `fuel` times -/
def read (fuel buffer size offset : Nat) (memory : Memory) (store : BlockStore) :
    Option ReadResult :=
  let entrySize := inode.entry.size.toNat
  if entrySize ≤ offset then some (.ok 0, memory, store)
  else
    let size := if entrySize < (offset + size) % 2 ^ 64 then entrySize - offset else size
    let clusterSizeInBytes := inode.fs.bytesPerCluster
    let clustersToSkip := offset / clusterSizeInBytes
    let initialClusterOffset := offset % clusterSizeInBytes
    match inode.skipClusters clustersToSkip inode.entry.firstCluster.toNat store with
    | .error error store => some (.error error, memory, store)
    | .ok currentCluster store =>
      Loop.run (inode.copyBody buffer size initialClusterOffset) fuel
        { memory, store, bytesRead := 0, currentCluster }

end FATInode

/-- A file that is open for reading. -/
structure File where
  inode : FATInode
  offset : Nat

namespace File

/-- `File::read` -/
def read (fuel buffer size : Nat) (file : File) (memory : Memory) (store : BlockStore) :
    Option (Except String Nat × File × Memory × BlockStore) :=
  match file.inode.read fuel buffer size file.offset memory store with
  | none => none
  | some (.error error, memory, store) => some (.error error, file, memory, store)
  | some (.ok value, memory, store) =>
    some (.ok value, { file with offset := (file.offset + value) % 2 ^ 64 }, memory, store)

end File

end MatteOS.FileSystem
