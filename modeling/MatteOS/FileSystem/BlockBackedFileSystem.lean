import MatteOS.Lib.ByteMemory

/-!
# Block-backed file systems

The block device as its driver presents it, and the cache of `BlockBackedFileSystem`. Blocks are
never written once they are cached, so a reference to one is its contents.
-/

namespace MatteOS.FileSystem

def SECTOR_SIZE : Nat := 512

/-- A block device: its bytes, and the error of the `n`-th read of it, if that read fails. -/
structure BlockDevice where
  image : Nat → BitVec 8
  failure : Nat → Option String

namespace BlockDevice

variable (device : BlockDevice)

/-- What a read of `size` bytes at `offset` delivers: it starts with the sector `offset / 512`. -/
def bytes (size offset : Nat) : List (BitVec 8) :=
  (List.range size).map fun i => device.image (offset / SECTOR_SIZE * SECTOR_SIZE + i)

/-- `BlockDevice::read_poll`, after `reads` other reads -/
def readPoll (size offset reads : Nat) : Except String (List (BitVec 8)) :=
  if size % SECTOR_SIZE ≠ 0 then
    .error "BlockIODriver: Size must be a multiple of 512 bytes."
  else
    match device.failure reads with
    | some error => .error error
    | none => .ok (device.bytes size offset)

end BlockDevice

structure DataBlock where
  blockNumber : Nat
  data : List (BitVec 8)
deriving DecidableEq

namespace DataBlock

/-- A byte of `data()`; 0 stands for what lies past its end. -/
def byte (block : DataBlock) (i : Nat) : BitVec 8 := block.data.getD i 0

end DataBlock

/-- What a file system keeps between calls: `m_cache`, and the number of reads of the device. -/
structure BlockStore where
  cache : List DataBlock
  reads : Nat
deriving DecidableEq

namespace BlockStore

/-- A file system that has read nothing. -/
def empty : BlockStore := ⟨[], 0⟩

def MAX_CACHE_SIZE : Nat := 16

/-- `BlockBackedFileSystem::evict_block`, "TODO: Implement this" -/
def evictBlock (store : BlockStore) : BlockStore := store

/-- `BlockBackedFileSystem::cache` -/
def cacheBlock (store : BlockStore) (block : DataBlock) : BlockStore :=
  let store := if MAX_CACHE_SIZE ≤ store.cache.length then store.evictBlock else store
  { store with cache := block :: store.cache }

/-- `BlockBackedFileSystem::get_block_from_cache` -/
def getBlockFromCache (store : BlockStore) (blockNumber : Nat) : Option DataBlock :=
  store.cache.find? fun block => block.blockNumber == blockNumber

@[simp] theorem cacheBlock_cache (store : BlockStore) (block : DataBlock) :
    (store.cacheBlock block).cache = block :: store.cache := by
  unfold cacheBlock evictBlock
  split <;> rfl

@[simp] theorem cacheBlock_reads (store : BlockStore) (block : DataBlock) :
    (store.cacheBlock block).reads = store.reads := by
  unfold cacheBlock evictBlock
  split <;> rfl

end BlockStore

end MatteOS.FileSystem
