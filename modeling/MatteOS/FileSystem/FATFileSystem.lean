import MatteOS.FileSystem.BlockBackedFileSystem

/-!
# FAT32 volumes

`FATFileSystem`: where the FAT and the clusters of a volume are, and how they are read. A read
goes from one `BlockStore` to the next, also when it fails.
-/

namespace MatteOS.FileSystem

/-- What `FATFileSystem` takes from the boot sector. -/
structure BootSector32 where
  bytesPerSector : BitVec 16
  sectorsPerCluster : BitVec 8
  reservedSectors : BitVec 16
  fatCount : BitVec 8
  sectorsPerFat32 : BitVec 32
  rootCluster : BitVec 32
deriving DecidableEq

structure FATFileSystem where
  device : BlockDevice
  bootSector : BootSector32
  blockSize : Nat
  bytesPerCluster : Nat
  reservedAndFatOffset : Nat
  fatStartOffset : Nat
  numberOfFatBlocks : Nat

structure FATEntry where
  /-- 28 bits -/
  value : Nat
deriving DecidableEq

namespace FATEntry

def isEndOfChain (entry : FATEntry) : Bool := 0x0FFFFFF8 ≤ entry.value

end FATEntry

/-- A step that reads blocks. -/
abbrev BlockM := EStateM String BlockStore

namespace FATFileSystem

/-- `FATFileSystem::FATFileSystem`, for `FATType::FAT32` -/
def ofBootSector (device : BlockDevice) (fat32 : BootSector32) : FATFileSystem :=
  let bytesPerCluster := fat32.sectorsPerCluster.toNat * fat32.bytesPerSector.toNat
  let fatStartOffset := fat32.reservedSectors.toNat * fat32.bytesPerSector.toNat
  -- the size of the FATs is a `u32`
  let fatSize := fat32.fatCount.toNat * fat32.sectorsPerFat32.toNat * fat32.bytesPerSector.toNat
  let reservedAndFatOffset := fatStartOffset + fatSize % 2 ^ 32
  { device
    bootSector := fat32
    blockSize := bytesPerCluster
    bytesPerCluster
    reservedAndFatOffset
    fatStartOffset
    numberOfFatBlocks := (reservedAndFatOffset - fatStartOffset) / bytesPerCluster }

/-- `FATFileSystem::FATFileSystem` where it is defined: the offset of the FATs is a product of two
`u16` in an `int`, which must not overflow. -/
def construct (device : BlockDevice) (fat32 : BootSector32) : Option FATFileSystem :=
  if fat32.reservedSectors.toNat * fat32.bytesPerSector.toNat < 2 ^ 31 then
    some (ofBootSector device fat32)
  else none

variable (fs : FATFileSystem)

/-- Where `read_block_poll` reads a block. -/
def blockOffset (blockNumber : Nat) : Nat :=
  (fs.fatStartOffset + blockNumber * fs.blockSize) % 2 ^ 64

/-- `FATFileSystem::read_block_poll` -/
def readBlockPoll (blockNumber : Nat) : BlockM DataBlock := fun store =>
  match store.getBlockFromCache blockNumber with
  | some block => .ok block (store.cacheBlock block)
  | none =>
    match fs.device.readPoll fs.blockSize (fs.blockOffset blockNumber) store.reads with
    | .error error => .error error { store with reads := store.reads + 1 }
    | .ok bytes =>
      let block := { blockNumber, data := bytes }
      .ok block ({ store with reads := store.reads + 1 }.cacheBlock block)

/-- `FATFileSystem::get_fat_entry` -/
def getFatEntry (index : Nat) : BlockM FATEntry := do
  let entryOffsetInFat := index * 4
  let fatBlock := entryOffsetInFat / fs.blockSize
  let entryOffsetInBlock := entryOffsetInFat % fs.blockSize
  let block ← fs.readBlockPoll fatBlock
  let word := block.byte (entryOffsetInBlock + 3) ++ block.byte (entryOffsetInBlock + 2) ++
    block.byte (entryOffsetInBlock + 1) ++ block.byte entryOffsetInBlock
  return { value := word.toNat % 2 ^ 28 }

/-- `FATFileSystem::read_cluster_poll` -/
def readClusterPoll (cluster : Nat) : BlockM DataBlock :=
  -- clusters 0 and 1 wrap around
  fs.readBlockPoll ((fs.numberOfFatBlocks + cluster + (2 ^ 64 - 2)) % 2 ^ 64)

end FATFileSystem

end MatteOS.FileSystem
