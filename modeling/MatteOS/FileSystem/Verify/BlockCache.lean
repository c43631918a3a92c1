import MatteOS.FileSystem.FATFileSystem

/-!
# The block cache

Every cached block is what the driver of the device delivers (`Faithful`), so a read through the cache
gives what an uncached read gives. The driver reads from the beginning of a sector on, so these are the
bytes at the offset of the block only where that starts with a sector (`readBlockPoll_transparent_iff`).
-/

namespace MatteOS.FileSystem

/-- A device with a mark at one byte. -/
def BlockDevice.marked (a : Nat) : BlockDevice where
  image x := if x = a then 1 else 0
  failure _ := none

namespace FATFileSystem

variable (fs : FATFileSystem)

/-- The block that the driver delivers. -/
def block (blockNumber : Nat) : DataBlock :=
  { blockNumber, data := fs.device.bytes fs.blockSize (fs.blockOffset blockNumber) }

/-- Every cached block is the block that the driver delivers, and blocks are whole sectors. -/
def Faithful (store : BlockStore) : Prop :=
  ∀ cached ∈ store.cache, cached = fs.block cached.blockNumber ∧ SECTOR_SIZE ∣ fs.blockSize

/-- The store after a call of `read_block_poll`. -/
def readStore (store : BlockStore) (blockNumber : Nat) : BlockStore :=
  match fs.readBlockPoll blockNumber store with
  | .ok _ store' | .error _ store' => store'

/-- The store after calls of `read_block_poll`. -/
def readBlocks (blockNumbers : List Nat) : BlockStore :=
  blockNumbers.foldl fs.readStore .empty

end FATFileSystem

section

variable {fs : FATFileSystem} {store store' : BlockStore} {n : Nat}

theorem BlockDevice.readPoll_ok_iff {device : BlockDevice} {size offset reads : Nat}
    {bytes : List (BitVec 8)} : device.readPoll size offset reads = .ok bytes ↔
      SECTOR_SIZE ∣ size ∧ device.failure reads = none ∧ bytes = device.bytes size offset := by
  unfold BlockDevice.readPoll
  split
  · rename_i rest
    exact ⟨nofun, fun ⟨whole, _⟩ => absurd (Nat.mod_eq_zero_of_dvd whole) rest⟩
  · rename_i rest
    have whole : SECTOR_SIZE ∣ size := Nat.dvd_of_mod_eq_zero (by simpa using rest)
    cases device.failure reads with
    | some error => simp
    | none => simp [whole, eq_comm]

/-- Where the FAT starts with a sector, a block is what the image holds there. -/
theorem FATFileSystem.block_data (whole : SECTOR_SIZE ∣ fs.blockSize)
    (start : SECTOR_SIZE ∣ fs.fatStartOffset) (n : Nat) : (fs.block n).data =
      (List.range fs.blockSize).map fun i => fs.device.image (fs.blockOffset n + i) := by
  have aligned : SECTOR_SIZE ∣ fs.blockOffset n :=
    (Nat.dvd_mod_iff (by decide)).2 (Nat.dvd_add start (Nat.dvd_mul_left_of_dvd whole n))
  rw [FATFileSystem.block, BlockDevice.bytes, Nat.div_mul_cancel aligned]

namespace FATFileSystem

theorem Faithful.empty : fs.Faithful .empty := by simp [Faithful, BlockStore.empty]

theorem Faithful.cacheBlock (faithful : fs.Faithful store) (whole : SECTOR_SIZE ∣ fs.blockSize)
    (n : Nat) : fs.Faithful (store.cacheBlock (fs.block n)) := by
  intro cached mem
  rw [BlockStore.cacheBlock_cache] at mem
  rcases List.mem_cons.1 mem with rfl | mem
  · exact ⟨rfl, whole⟩
  · exact faithful cached mem

/-- A cached block is found under its number. -/
theorem Faithful.found (faithful : fs.Faithful store) {cached : DataBlock}
    (found : store.getBlockFromCache n = some cached) :
    cached = fs.block n ∧ SECTOR_SIZE ∣ fs.blockSize := by
  have number : cached.blockNumber = n := by simpa using List.find?_some found
  obtain ⟨same, whole⟩ := faithful cached (List.mem_of_find?_eq_some found)
  exact ⟨by rw [same, number], whole⟩

/-- **What a call of `read_block_poll` does.** -/
theorem readBlockPoll_cases (faithful : fs.Faithful store) (n : Nat) :
    (∃ store', fs.readBlockPoll n store = .ok (fs.block n) store' ∧ fs.Faithful store' ∧
      SECTOR_SIZE ∣ fs.blockSize) ∨
    ∃ error, fs.device.readPoll fs.blockSize (fs.blockOffset n) store.reads = .error error ∧
      fs.readBlockPoll n store = .error error { store with reads := store.reads + 1 } := by
  unfold readBlockPoll
  cases cached : store.getBlockFromCache n with
  | some block =>
    obtain ⟨rfl, whole⟩ := faithful.found cached
    exact .inl ⟨_, rfl, faithful.cacheBlock whole n, whole⟩
  | none =>
    cases read : fs.device.readPoll fs.blockSize (fs.blockOffset n) store.reads with
    | error error => exact .inr ⟨error, rfl, rfl⟩
    | ok bytes =>
      obtain ⟨whole, -, rfl⟩ := BlockDevice.readPoll_ok_iff.1 read
      have kept : fs.Faithful { store with reads := store.reads + 1 } := faithful
      exact .inl ⟨_, rfl, kept.cacheBlock whole n, whole⟩

/-- A call that would succeed without the cache succeeds. -/
theorem readBlockPoll_of_readPoll (faithful : fs.Faithful store) {bytes : List (BitVec 8)}
    (read : fs.device.readPoll fs.blockSize (fs.blockOffset n) store.reads = .ok bytes) :
    ∃ store', fs.readBlockPoll n store = .ok (fs.block n) store' ∧ fs.Faithful store' := by
  rcases readBlockPoll_cases faithful n with ⟨store', result, kept, -⟩ | ⟨error, failed, -⟩
  · exact ⟨store', result, kept⟩
  · rw [read] at failed
    cases failed

theorem Faithful.readStore (faithful : fs.Faithful store) (n : Nat) :
    fs.Faithful (fs.readStore store n) := by
  unfold FATFileSystem.readStore
  rcases readBlockPoll_cases faithful n with ⟨store', result, kept, -⟩ | ⟨error, -, result⟩
  · rw [result]
    exact kept
  · rw [result]
    exact faithful

theorem Faithful.foldl (faithful : fs.Faithful store) (ns : List Nat) :
    fs.Faithful (ns.foldl fs.readStore store) := by
  induction ns generalizing store with
  | nil => exact faithful
  | cons n ns ih => exact ih (faithful.readStore n)

theorem readBlocks_faithful (fs : FATFileSystem) (ns : List Nat) : fs.Faithful (fs.readBlocks ns) :=
  Faithful.empty.foldl ns

/-- After calls of `read_block_poll`, a call that succeeds gives the block that the device holds, as
it does whenever an uncached read would succeed, and a call that fails gives the error of the device
and leaves the cache. -/
structure Transparent (fs : FATFileSystem) (ns : List Nat) (n : Nat) : Prop where
  given : ∀ block store', fs.readBlockPoll n (fs.readBlocks ns) = .ok block store' →
    block.blockNumber = n ∧ block.data = (List.range fs.blockSize).map fun i =>
      fs.device.image (fs.fatStartOffset + n * fs.blockSize + i)
  uncached : ∀ bytes, fs.device.readPoll fs.blockSize (fs.blockOffset n) (fs.readBlocks ns).reads =
    .ok bytes → ∃ store', fs.readBlockPoll n (fs.readBlocks ns) = .ok ⟨n, bytes⟩ store'
  failed : ∀ error store', fs.readBlockPoll n (fs.readBlocks ns) = .error error store' →
    fs.device.readPoll fs.blockSize (fs.blockOffset n) (fs.readBlocks ns).reads = .error error ∧
      store'.cache = (fs.readBlocks ns).cache

/-- The block starts with a sector of the device, at an offset of 64 bits. -/
structure InPlace (fs : FATFileSystem) (n : Nat) : Prop where
  start : SECTOR_SIZE ∣ fs.fatStartOffset
  offset : fs.fatStartOffset + n * fs.blockSize < 2 ^ 64

/-- Blocks of whole sectors are in place if they are what the device holds, whatever that is. -/
theorem inPlace_of_transparent (transparent : ∀ device, Transparent { fs with device } [] n)
    (positive : 0 < fs.blockSize) (whole : SECTOR_SIZE ∣ fs.blockSize) : fs.InPlace n := by
  -- the device on which only the first byte of the block is marked
  let marked : FATFileSystem :=
    { fs with device := BlockDevice.marked (fs.fatStartOffset + n * fs.blockSize) }
  obtain ⟨store', read, -⟩ := readBlockPoll_of_readPoll (@Faithful.empty marked) (n := n)
    (BlockDevice.readPoll_ok_iff.2 ⟨whole, rfl, rfl⟩)
  have same := ((transparent (BlockDevice.marked (fs.fatStartOffset + n * fs.blockSize))).given _ _ read).2
  have first : marked.device.image (fs.blockOffset n / SECTOR_SIZE * SECTOR_SIZE + 0) =
      marked.device.image (fs.fatStartOffset + n * fs.blockSize + 0) :=
    List.map_inj_left.1 same 0 (List.mem_range.2 positive)
  have place : fs.blockOffset n / SECTOR_SIZE * SECTOR_SIZE = fs.fatStartOffset + n * fs.blockSize := by
    by_contra apart
    simp [marked, BlockDevice.marked, apart] at first
  have sector := Nat.div_mul_le_self (fs.blockOffset n) SECTOR_SIZE
  have below : fs.blockOffset n < 2 ^ 64 := Nat.mod_lt _ (by decide)
  refine ⟨(Nat.dvd_add_left (Nat.dvd_mul_left_of_dvd whole n)).1 ⟨fs.blockOffset n / SECTOR_SIZE, ?_⟩,
    by omega⟩
  rw [← place, Nat.mul_comm]

/-- **The cache is transparent** for a block, on every device and after every sequence of calls of
`read_block_poll`, exactly if the block is in place, unless no block is read or all are empty. -/
theorem readBlockPoll_transparent_iff (fs : FATFileSystem) (n : Nat) :
    (∀ device ns, Transparent { fs with device } ns n) ↔
      ¬ SECTOR_SIZE ∣ fs.blockSize ∨ fs.blockSize = 0 ∨ fs.InPlace n := by
  constructor
  · intro transparent
    by_cases whole : SECTOR_SIZE ∣ fs.blockSize
    · rcases Nat.eq_zero_or_pos fs.blockSize with zero | positive
      · exact .inr (.inl zero)
      · exact .inr (.inr (inPlace_of_transparent (fun device => transparent device []) positive whole))
    · exact .inl whole
  · intro right device ns
    generalize moved : { fs with device } = fs'
    have faithful := fs'.readBlocks_faithful ns
    refine ⟨fun block store' result => ?_, fun bytes read => ?_, fun error store' result => ?_⟩
    · rcases readBlockPoll_cases faithful n with ⟨_, given, -, whole⟩ | ⟨_, -, given⟩
      · rw [given] at result
        cases result
        refine ⟨rfl, ?_⟩
        subst moved
        rcases right with none | zero | ⟨start, offset⟩
        · exact absurd whole none
        · simp [FATFileSystem.block, BlockDevice.bytes, zero]
        · rw [block_data whole start, blockOffset, Nat.mod_eq_of_lt offset]
      · rw [given] at result
        cases result
    · obtain ⟨store', given, -⟩ := readBlockPoll_of_readPoll faithful read
      obtain ⟨-, -, rfl⟩ := BlockDevice.readPoll_ok_iff.1 read
      exact ⟨store', given⟩
    · rcases readBlockPoll_cases faithful n with ⟨_, given, -⟩ | ⟨_, failed, given⟩
      · rw [given] at result
        cases result
      · rw [given] at result
        cases result
        exact ⟨failed, rfl⟩

/-- One reserved sector of 256 bytes: the block that is delivered begins 256 bytes too early. -/
theorem not_transparent : ¬ ∀ (device : BlockDevice) (fat32 : BootSector32) (ns : List Nat) (n : Nat),
    Transparent (.ofBootSector device fat32) ns n := by
  intro transparent
  have inPlace := @inPlace_of_transparent
    (.ofBootSector ⟨fun _ => 0, fun _ => none⟩ ⟨256, 2, 1, 1, 2, 2⟩) 0
    (fun device => transparent device ⟨256, 2, 1, 1, 2, 2⟩ [] 0) (by decide) (by decide)
  exact absurd inPlace.start (by decide)

end FATFileSystem

end

end MatteOS.FileSystem
