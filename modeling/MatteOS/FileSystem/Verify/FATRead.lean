import MatteOS.FileSystem.FATInode
import MatteOS.FileSystem.Verify.BlockCache
import Mathlib.Logic.Function.Iterate

/-!
# Sequential reads

The boot sector says where the FAT and the clusters of a volume are, and so what the bytes of a
file are. On a device whose reads succeed, each lookup in the FAT and each read of a cluster gives
what lies there if the FAT starts with a sector and the size of the FATs fits in a `u32`
(`getFatEntry_eq`, `readClusterPoll_eq`). Then both loops of `FATInode::read` follow the chain, and
the reads of a file deliver its contents in order (`readsFiles_iff`).
-/

namespace MatteOS.FileSystem

open ByteMemory

namespace BootSector32

variable (fat32 : BootSector32)

/-- The first byte of the FATs. -/
def fatOffset : Nat := fat32.reservedSectors.toNat * fat32.bytesPerSector.toNat

/-- The sectors of the FATs. -/
def fatSectors : Nat := fat32.fatCount.toNat * fat32.sectorsPerFat32.toNat

/-- The bytes of the FATs. -/
def fatBytes : Nat := fat32.fatSectors * fat32.bytesPerSector.toNat

/-- The bytes of a cluster. -/
def clusterBytes : Nat := fat32.sectorsPerCluster.toNat * fat32.bytesPerSector.toNat

/-- The clusters are whole sectors of the device, and the FATs whole clusters. -/
structure Clustered : Prop where
  positive : 0 < fat32.clusterBytes
  sectors : SECTOR_SIZE ∣ fat32.clusterBytes
  clusters : fat32.clusterBytes ∣ fat32.fatBytes

theorem fatOffset_lt (fat32 : BootSector32) : fat32.fatOffset < 2 ^ 32 :=
  Nat.lt_of_lt_of_le (Nat.mul_lt_mul'' fat32.reservedSectors.isLt fat32.bytesPerSector.isLt)
    (by decide)

theorem clusterBytes_lt (fat32 : BootSector32) : fat32.clusterBytes < 2 ^ 24 :=
  Nat.lt_of_lt_of_le (Nat.mul_lt_mul'' fat32.sectorsPerCluster.isLt fat32.bytesPerSector.isLt)
    (by decide)

end BootSector32

namespace FATFileSystem

variable (fs : FATFileSystem)

/-- `FAT[index]` on the device -/
def fatValue (index : Nat) : Nat :=
  (fs.device.image (fs.bootSector.fatOffset + 4 * index + 3) ++
    fs.device.image (fs.bootSector.fatOffset + 4 * index + 2) ++
    fs.device.image (fs.bootSector.fatOffset + 4 * index + 1) ++
    fs.device.image (fs.bootSector.fatOffset + 4 * index)).toNat % 2 ^ 28

/-- Byte `i` of a cluster, behind the FATs. -/
def clusterByte (cluster i : Nat) : BitVec 8 :=
  fs.device.image (fs.bootSector.fatOffset + fs.bootSector.fatBytes +
    (cluster - 2) * fs.bootSector.clusterBytes + i)

/-- The blocks are whole sectors from a sector on, and reads succeed. -/
structure ReadsBlocks : Prop where
  positive : 0 < fs.bytesPerCluster
  sectors : SECTOR_SIZE ∣ fs.bytesPerCluster
  start : SECTOR_SIZE ∣ fs.fatStartOffset
  succeeds : ∀ n, fs.device.failure n = none

/-- The FAT starts with a sector, the size of the FATs fits in its `u32`, and reads succeed. -/
structure Readable : Prop extends fs.bootSector.Clustered where
  start : SECTOR_SIZE ∣ fs.bootSector.fatOffset
  fits : fs.bootSector.fatBytes < 2 ^ 32
  succeeds : ∀ n, fs.device.failure n = none

/-- The fields are what the constructor makes of the boot sector. -/
structure Sized : Prop where
  block : fs.blockSize = fs.bytesPerCluster
  perCluster : fs.bytesPerCluster = fs.bootSector.clusterBytes
  offset : fs.fatStartOffset = fs.bootSector.fatOffset
  fats : fs.reservedAndFatOffset - fs.fatStartOffset = fs.bootSector.fatBytes % 2 ^ 32
  blocks : fs.numberOfFatBlocks = fs.bootSector.fatBytes % 2 ^ 32 / fs.bootSector.clusterBytes

end FATFileSystem

namespace FATInode

variable (inode : FATInode)

/-- The `k`-th cluster of the chain. -/
def cluster (k : Nat) : Nat := inode.fs.fatValue^[k] inode.entry.firstCluster.toNat

/-- Byte `k` of the file. -/
def contentByte (k : Nat) : BitVec 8 :=
  inode.fs.clusterByte (inode.cluster (k / inode.fs.bootSector.clusterBytes))
    (k % inode.fs.bootSector.clusterBytes)

def contents : List (BitVec 8) := (List.range inode.entry.size.toNat).map inode.contentByte

/-- The chain has the clusters that the size of the file needs, with no end before them. -/
structure Chained : Prop where
  numbered : ∀ k, k * inode.fs.bootSector.clusterBytes < inode.entry.size.toNat →
    2 ≤ inode.cluster k
  continued : ∀ k, 0 < k → k * inode.fs.bootSector.clusterBytes < inode.entry.size.toNat →
    inode.cluster k < 0x0FFFFFF8

end FATInode

section

variable {fs : FATFileSystem} {store : BlockStore}

namespace FATFileSystem

theorem Readable.readsBlocks (readable : fs.Readable) (sized : fs.Sized) : fs.ReadsBlocks :=
  ⟨sized.perCluster ▸ readable.positive, sized.perCluster ▸ readable.sectors,
    sized.offset ▸ readable.start, readable.succeeds⟩

theorem ofBootSector_sized (device : BlockDevice) (fat32 : BootSector32) :
    (ofBootSector device fat32).Sized :=
  have fats : (ofBootSector device fat32).reservedAndFatOffset -
      (ofBootSector device fat32).fatStartOffset = fat32.fatBytes % 2 ^ 32 :=
    Nat.add_sub_cancel_left _ _
  { block := rfl
    perCluster := rfl
    offset := rfl
    fats
    blocks := congrArg (· / fat32.clusterBytes) fats }

theorem Sized.cluster_lt (sized : fs.Sized) : fs.bytesPerCluster < 2 ^ 24 :=
  sized.perCluster ▸ fs.bootSector.clusterBytes_lt

/-- A block of whole sectors lies on the device where its number says. -/
theorem block_byte (readable : fs.ReadsBlocks) (sized : fs.Sized) {n i : Nat}
    (fits : n * fs.bytesPerCluster < 2 ^ 63) (inside : i < fs.bytesPerCluster) :
    (fs.block n).byte i =
      fs.device.image (fs.bootSector.fatOffset + n * fs.bytesPerCluster + i) := by
  have start := fs.bootSector.fatOffset_lt
  have place : fs.blockOffset n = fs.bootSector.fatOffset + n * fs.bytesPerCluster := by
    rw [blockOffset, sized.block, sized.offset, Nat.mod_eq_of_lt (by omega)]
  rw [DataBlock.byte, block_data (sized.block ▸ readable.sectors) readable.start, place,
    List.getD_eq_getElem?_getD, List.getElem?_map,
    List.getElem?_range (by rw [sized.block]; exact inside)]
  rfl

/-- On a device whose reads succeed, every block can be read. -/
theorem readBlockPoll_eq (readable : fs.ReadsBlocks) (sized : fs.Sized) (faithful : fs.Faithful store)
    (n : Nat) : ∃ store', fs.readBlockPoll n store = .ok (fs.block n) store' ∧ fs.Faithful store' :=
  readBlockPoll_of_readPoll faithful (BlockDevice.readPoll_ok_iff.2
    ⟨sized.block ▸ readable.sectors, readable.succeeds _, rfl⟩)

/-- **A lookup in the FAT.** -/
theorem getFatEntry_eq (readable : fs.ReadsBlocks) (sized : fs.Sized) (faithful : fs.Faithful store)
    {index : Nat} (bound : index < 2 ^ 32) :
    ∃ store', fs.getFatEntry index store = .ok ⟨fs.fatValue index⟩ store' ∧ fs.Faithful store' := by
  have positive := readable.positive
  obtain ⟨store', read, kept⟩ := readBlockPoll_eq readable sized faithful
    (index * 4 / fs.bytesPerCluster)
  obtain ⟨d, whole⟩ := readable.sectors
  have split := Nat.div_add_mod (index * 4) fs.bytesPerCluster
  have place : index * 4 / fs.bytesPerCluster * fs.bytesPerCluster +
      index * 4 % fs.bytesPerCluster = 4 * index := by
    rw [Nat.mul_comm (index * 4 / fs.bytesPerCluster), split, Nat.mul_comm]
  -- an entry does not cross the end of a block
  have room : index * 4 % fs.bytesPerCluster + 3 < fs.bytesPerCluster := by
    have less := Nat.mod_lt (index * 4) positive
    have four : index * 4 % fs.bytesPerCluster % 4 = 0 := by
      rw [Nat.mod_mod_of_dvd _ ⟨128 * d, by rw [whole, SECTOR_SIZE]; omega⟩]
      omega
    have four' : fs.bytesPerCluster % 4 = 0 := by rw [whole, SECTOR_SIZE]; omega
    omega
  have byte : ∀ j < 4, (fs.block (index * 4 / fs.bytesPerCluster)).byte
      (index * 4 % fs.bytesPerCluster + j) =
        fs.device.image (fs.bootSector.fatOffset + 4 * index + j) := by
    intro j small
    rw [block_byte readable sized (by omega) (by omega)]
    congr 1
    omega
  refine ⟨store', ?_, kept⟩
  have first := byte 0 (by omega)
  simp only [Nat.add_zero] at first
  simp only [getFatEntry, sized.block, bind, EStateM.bind, read, byte 1 (by omega), byte 2 (by omega),
    byte 3 (by omega), first]
  rfl

/-- The block that a cluster is. -/
theorem readClusterPoll_block (readable : fs.ReadsBlocks) (sized : fs.Sized)
    (faithful : fs.Faithful store) {cluster : Nat} (numbered : 2 ≤ cluster)
    (bound : cluster < 2 ^ 32) :
    ∃ store', fs.readClusterPoll cluster store =
      .ok (fs.block (fs.numberOfFatBlocks + (cluster - 2))) store' ∧ fs.Faithful store' := by
  have few : fs.numberOfFatBlocks < 2 ^ 32 := by
    rw [sized.blocks]
    exact Nat.lt_of_le_of_lt (Nat.div_le_self _ _) (Nat.mod_lt _ (by decide))
  have number : (fs.numberOfFatBlocks + cluster + (2 ^ 64 - 2)) % 2 ^ 64 =
      fs.numberOfFatBlocks + (cluster - 2) := by omega
  rw [readClusterPoll, number]
  exact readBlockPoll_eq readable sized faithful _

/-- **A read of a cluster.** -/
theorem readClusterPoll_eq (readable : fs.Readable) (sized : fs.Sized)
    (faithful : fs.Faithful store) {cluster : Nat} (numbered : 2 ≤ cluster)
    (bound : cluster < 2 ^ 32) :
    ∃ block store', fs.readClusterPoll cluster store = .ok block store' ∧ fs.Faithful store' ∧
      block.data = (List.range fs.bytesPerCluster).map (fs.clusterByte cluster) := by
  have reads := readable.readsBlocks sized
  have blocks : fs.numberOfFatBlocks * fs.bytesPerCluster = fs.bootSector.fatBytes := by
    rw [sized.blocks, sized.perCluster, Nat.mod_eq_of_lt readable.fits,
      Nat.div_mul_cancel readable.clusters]
  have place : (fs.numberOfFatBlocks + (cluster - 2)) * fs.bytesPerCluster =
      fs.bootSector.fatBytes + (cluster - 2) * fs.bytesPerCluster := by
    rw [Nat.add_mul, blocks]
  have fits : (cluster - 2) * fs.bytesPerCluster < 2 ^ 32 * 2 ^ 24 :=
    Nat.mul_lt_mul'' (by omega) sized.cluster_lt
  have fats := readable.fits
  obtain ⟨store', read, kept⟩ := readClusterPoll_block reads sized faithful numbered bound
  refine ⟨_, store', read, kept, ?_⟩
  have length : (fs.block (fs.numberOfFatBlocks + (cluster - 2))).data.length =
      fs.bytesPerCluster := by
    simp [block, BlockDevice.bytes, sized.block]
  refine List.ext_getElem (by simp [length]) fun i inside _ => ?_
  have byte := @block_byte fs reads sized (fs.numberOfFatBlocks + (cluster - 2)) i
    (by omega) (by omega)
  rw [DataBlock.byte, List.getD_eq_getElem?_getD, List.getElem?_eq_getElem inside,
    Option.getD_some] at byte
  rw [byte, place, List.getElem_map, List.getElem_range, clusterByte, ← sized.perCluster]
  exact congrArg fs.device.image (by omega)

end FATFileSystem

namespace FATInode

variable {inode : FATInode}

theorem cluster_succ (inode : FATInode) (k : Nat) :
    inode.cluster (k + 1) = inode.fs.fatValue (inode.cluster k) :=
  Function.iterate_succ_apply' _ _ _

theorem cluster_lt (inode : FATInode) (k : Nat) : inode.cluster k < 2 ^ 32 := by
  cases k with
  | zero => exact inode.entry.firstCluster.isLt
  | succ k =>
    rw [cluster_succ]
    exact Nat.lt_trans (Nat.mod_lt _ (by decide)) (by decide)

/-- The next cluster of the chain. -/
theorem getFatEntry_cluster (readable : inode.fs.Readable) (sized : inode.fs.Sized)
    (faithful : inode.fs.Faithful store) (k : Nat) :
    ∃ store', inode.fs.getFatEntry (inode.cluster k) store = .ok ⟨inode.cluster (k + 1)⟩ store' ∧
      inode.fs.Faithful store' := by
  rw [cluster_succ]
  exact inode.fs.getFatEntry_eq (readable.readsBlocks sized) sized faithful (inode.cluster_lt k)

theorem isEndOfChain_cluster (sized : inode.fs.Sized) (chained : inode.Chained) {k : Nat}
    (positive : 0 < k) (inside : k * inode.fs.bytesPerCluster < inode.entry.size.toNat) :
    FATEntry.isEndOfChain ⟨inode.cluster k⟩ = false := by
  have := chained.continued k positive (sized.perCluster ▸ inside)
  simp only [FATEntry.isEndOfChain, decide_eq_false_iff_not]
  omega

/-- **The first loop** follows the chain. -/
theorem skipClusters_eq (readable : inode.fs.Readable) (sized : inode.fs.Sized)
    (chained : inode.Chained) (faithful : inode.fs.Faithful store) (n k : Nat)
    (inside : (k + n) * inode.fs.bytesPerCluster < inode.entry.size.toNat) :
    ∃ store', inode.skipClusters n (inode.cluster k) store = .ok (inode.cluster (k + n)) store' ∧
      inode.fs.Faithful store' := by
  induction n generalizing k store with
  | zero => exact ⟨store, rfl, faithful⟩
  | succ n ih =>
    obtain ⟨store', entry, kept⟩ := getFatEntry_cluster readable sized faithful k
    have before : (k + 1) * inode.fs.bytesPerCluster ≤ (k + (n + 1)) * inode.fs.bytesPerCluster :=
      Nat.mul_le_mul_right _ (by omega)
    have more := isEndOfChain_cluster sized chained (Nat.succ_pos k) (Nat.lt_of_le_of_lt before inside)
    obtain ⟨store'', rest, kept'⟩ := ih kept (k + 1) (by rwa [Nat.add_right_comm, Nat.add_assoc])
    refine ⟨store'', ?_, kept'⟩
    simp only [skipClusters, bind, EStateM.bind, entry, more, Bool.false_eq_true, ↓reduceIte]
    rw [show k + (n + 1) = k + 1 + n by omega]
    exact rest

/-- The bytes of the file from `offset` on. -/
def bytesFrom (inode : FATInode) (offset count : Nat) : List (BitVec 8) :=
  (List.range count).map fun i => inode.contentByte (offset + i)

@[simp] theorem bytesFrom_length (offset count : Nat) :
    (inode.bytesFrom offset count).length = count := by simp [bytesFrom]

theorem bytesFrom_add (inode : FATInode) (offset m n : Nat) :
    inode.bytesFrom offset (m + n) = inode.bytesFrom offset m ++ inode.bytesFrom (offset + m) n := by
  simp [bytesFrom, List.range_add, Nat.add_assoc, Function.comp_def]

theorem take_drop_contents {offset count : Nat} (inside : offset + count ≤ inode.entry.size.toNat) :
    (inode.contents.drop offset).take count = inode.bytesFrom offset count := by
  refine List.ext_getElem (by simp [contents]; omega) fun i _ _ => ?_
  simp [contents, bytesFrom]

/-- What one turn of the second loop copies: the bytes up to the end of the cluster. -/
theorem take_drop_cluster (sized : inode.fs.Sized) {position count : Nat}
    (inside : position % inode.fs.bytesPerCluster + count ≤ inode.fs.bytesPerCluster) :
    (((List.range inode.fs.bytesPerCluster).map (inode.fs.clusterByte
      (inode.cluster (position / inode.fs.bytesPerCluster)))).drop
        (position % inode.fs.bytesPerCluster)).take count = inode.bytesFrom position count := by
  refine List.ext_getElem (by simp; omega) fun i bound _ => ?_
  have small : i < count := by simp at bound; omega
  have positive : 0 < inode.fs.bytesPerCluster := by omega
  have less : position % inode.fs.bytesPerCluster + i < inode.fs.bytesPerCluster := by omega
  have within : position + i = inode.fs.bytesPerCluster * (position / inode.fs.bytesPerCluster) +
      (position % inode.fs.bytesPerCluster + i) := by
    rw [← Nat.add_assoc, Nat.div_add_mod]
  have quotient : (position + i) / inode.fs.bytesPerCluster =
      position / inode.fs.bytesPerCluster := by
    rw [within, Nat.mul_add_div positive, Nat.div_eq_of_lt less, Nat.add_zero]
  have rest : (position + i) % inode.fs.bytesPerCluster =
      position % inode.fs.bytesPerCluster + i := by
    rw [within, Nat.mul_add_mod, Nat.mod_eq_of_lt less]
  simp [bytesFrom, contentByte, ← sized.perCluster, quotient, rest]

/-! ## The second loop -/

/-- The state of the second loop after some turns: so many bytes are in the buffer, and the next
byte is in the current cluster. -/
structure Copied (inode : FATInode) (memory : Memory) (buffer offset size : Nat) (s : Copying) :
    Prop where
  faithful : inode.fs.Faithful s.store
  memory_eq : s.memory = storeBytes memory buffer (inode.bytesFrom offset s.bytesRead)
  bounded : s.bytesRead ≤ size
  current : s.bytesRead < size →
    s.currentCluster = inode.cluster ((offset + s.bytesRead) / inode.fs.bytesPerCluster)
  boundary : 0 < s.bytesRead → s.bytesRead < size →
    (offset + s.bytesRead) % inode.fs.bytesPerCluster = 0

/-- What the second loop leads to. -/
structure CopiedAll (inode : FATInode) (memory : Memory) (buffer offset size : Nat)
    (result : ReadResult) : Prop where
  value : result.1 = .ok size
  memory_eq : result.2.1 = storeBytes memory buffer (inode.bytesFrom offset size)
  faithful : inode.fs.Faithful result.2.2

variable {memory : Memory} {buffer offset size : Nat} {s : Copying}

/-- **One turn of the second loop.** -/
theorem copyBody_cases (readable : inode.fs.Readable) (sized : inode.fs.Sized)
    (chained : inode.Chained) (inside : offset + size ≤ inode.entry.size.toNat)
    (copied : Copied inode memory buffer offset size s) :
    (∃ s', inode.copyBody buffer size (offset % inode.fs.bytesPerCluster) s = .again s' ∧
      Copied inode memory buffer offset size s' ∧ s.bytesRead < s'.bytesRead) ∨
    ∃ result, inode.copyBody buffer size (offset % inode.fs.bytesPerCluster) s = .done result ∧
      CopiedAll inode memory buffer offset size result := by
  obtain ⟨faithful, memory_eq, bounded, current, boundary⟩ := copied
  by_cases more : s.bytesRead < size
  swap
  · obtain rfl : s.bytesRead = size := by omega
    refine .inr ⟨(.ok s.bytesRead, s.memory, s.store), ?_, rfl, memory_eq, faithful⟩
    rw [copyBody, if_neg more]
  have positive := (readable.readsBlocks sized).positive
  -- the cluster of the next byte
  have reached : (offset + s.bytesRead) / inode.fs.bytesPerCluster * inode.fs.bytesPerCluster <
      inode.entry.size.toNat :=
    Nat.lt_of_le_of_lt (Nat.div_mul_le_self _ _) (by omega)
  have offsetInCluster : (if s.bytesRead = 0 then offset % inode.fs.bytesPerCluster else 0) =
      (offset + s.bytesRead) % inode.fs.bytesPerCluster := by
    split
    · simp [*]
    · rw [boundary (by omega) more]
  have numbered : 2 ≤ inode.cluster ((offset + s.bytesRead) / inode.fs.bytesPerCluster) :=
    chained.numbered _ (by rwa [← sized.perCluster])
  obtain ⟨block, store', read, kept, data⟩ := inode.fs.readClusterPoll_eq readable sized faithful
    numbered (inode.cluster_lt _)
  rw [← current more] at read
  generalize count : min (size - s.bytesRead) (inode.fs.bytesPerCluster -
    (offset + s.bytesRead) % inode.fs.bytesPerCluster) = n
  have within := Nat.mod_lt (offset + s.bytesRead) positive
  have copied : storeBytes s.memory (buffer + s.bytesRead) ((block.data.drop
      ((offset + s.bytesRead) % inode.fs.bytesPerCluster)).take n) =
      storeBytes memory buffer (inode.bytesFrom offset (s.bytesRead + n)) := by
    have joined := storeBytes_append memory buffer (inode.bytesFrom offset s.bytesRead)
      (inode.bytesFrom (offset + s.bytesRead) n)
    rw [data, take_drop_cluster sized (by omega), memory_eq, bytesFrom_add, ← joined, bytesFrom_length]
  by_cases last : s.bytesRead + n < size
  · -- the cluster is used up
    have full : offset + (s.bytesRead + n) = inode.fs.bytesPerCluster *
        ((offset + s.bytesRead) / inode.fs.bytesPerCluster + 1) := by
      have split := Nat.div_add_mod (offset + s.bytesRead) inode.fs.bytesPerCluster
      rw [Nat.mul_add, Nat.mul_one]
      omega
    obtain ⟨store'', entry, kept'⟩ := getFatEntry_cluster readable sized kept
      ((offset + s.bytesRead) / inode.fs.bytesPerCluster)
    rw [← current more] at entry
    have next := isEndOfChain_cluster sized chained
      (Nat.succ_pos ((offset + s.bytesRead) / inode.fs.bytesPerCluster))
      (by rw [Nat.mul_comm, ← full]; omega)
    refine .inl ⟨{
      memory := storeBytes s.memory (buffer + s.bytesRead)
        ((block.data.drop ((offset + s.bytesRead) % inode.fs.bytesPerCluster)).take n)
      store := store''
      bytesRead := s.bytesRead + n
      currentCluster := inode.cluster ((offset + s.bytesRead) / inode.fs.bytesPerCluster + 1) }, ?_, {
      faithful := kept'
      memory_eq := copied
      bounded := Nat.le_of_lt last
      current := fun _ => by rw [full, Nat.mul_div_cancel_left _ positive]
      boundary := fun _ _ => by rw [full, Nat.mul_mod_right] }, ?_⟩
    · simp only [copyBody, if_pos more, read, offsetInCluster, count, if_pos last, entry, next]
      rfl
    · simp only
      omega
  · obtain done : s.bytesRead + n = size := by omega
    refine .inl ⟨{
      memory := storeBytes s.memory (buffer + s.bytesRead)
        ((block.data.drop ((offset + s.bytesRead) % inode.fs.bytesPerCluster)).take n)
      store := store'
      bytesRead := s.bytesRead + n
      currentCluster := s.currentCluster }, ?_, {
      faithful := kept
      memory_eq := copied
      bounded := Nat.le_of_eq done
      current := fun less => absurd less last
      boundary := fun _ less => absurd less last }, ?_⟩
    · simp only [copyBody, if_pos more, read, offsetInCluster, count, if_neg last]
    · simp only
      omega

/-- **The second loop** ends with the bytes from the offset on in the buffer. -/
theorem run_copyBody (readable : inode.fs.Readable) (sized : inode.fs.Sized)
    (chained : inode.Chained) (inside : offset + size ≤ inode.entry.size.toNat)
    (copied : Copied inode memory buffer offset size s) {fuel : Nat}
    (enough : size - s.bytesRead < fuel) :
    ∃ result, Loop.run (inode.copyBody buffer size (offset % inode.fs.bytesPerCluster)) fuel s =
      some result ∧ CopiedAll inode memory buffer offset size result := by
  refine Loop.run_of_variant (I := Copied inode memory buffer offset size)
    (fun s => size - s.bytesRead) (fun s s' copied again => ?_) (fun s result copied done => ?_)
    copied enough
  · rcases copyBody_cases readable sized chained inside copied with
      ⟨s'', turn, copied', more⟩ | ⟨result, turn, -⟩
    · rw [turn] at again
      cases again
      exact ⟨copied', by have := copied'.bounded; omega⟩
    · rw [turn] at again
      cases again
  · rcases copyBody_cases readable sized chained inside copied with
      ⟨s'', turn, -⟩ | ⟨result', turn, all⟩
    · rw [turn] at done
      cases done
    · rw [turn] at done
      cases done
      exact all

/-- **A read** delivers the bytes from the offset on, as far as the file goes. -/
theorem read_spec (readable : inode.fs.Readable) (sized : inode.fs.Sized) (chained : inode.Chained)
    (faithful : inode.fs.Faithful store) (memory : Memory) (buffer size offset : Nat)
    (bound : offset + size < 2 ^ 64) :
    ∃ store', inode.fs.Faithful store' ∧ ∀ fuel, size < fuel →
      inode.read fuel buffer size offset memory store =
        some (.ok (min size (inode.entry.size.toNat - offset)),
          storeBytes memory buffer
            (inode.bytesFrom offset (min size (inode.entry.size.toNat - offset))), store') := by
  by_cases past : inode.entry.size.toNat ≤ offset
  · refine ⟨store, faithful, fun fuel _ => ?_⟩
    have none : min size (inode.entry.size.toNat - offset) = 0 := by omega
    simp only [read, if_pos past, none, bytesFrom, List.range_zero, List.map_nil, storeBytes_nil]
  · have capped : (if inode.entry.size.toNat < (offset + size) % 2 ^ 64 then
        inode.entry.size.toNat - offset else size) = min size (inode.entry.size.toNat - offset) := by
      rw [Nat.mod_eq_of_lt bound]
      split <;> omega
    have reached : (0 + offset / inode.fs.bytesPerCluster) * inode.fs.bytesPerCluster <
        inode.entry.size.toNat := by
      rw [Nat.zero_add]
      exact Nat.lt_of_le_of_lt (Nat.div_mul_le_self _ _) (by omega)
    obtain ⟨store', skipped, kept⟩ := skipClusters_eq readable sized chained faithful _ 0 reached
    have start : Copied inode memory buffer offset (min size (inode.entry.size.toNat - offset))
        { memory, store := store', bytesRead := 0,
          currentCluster := inode.cluster (0 + offset / inode.fs.bytesPerCluster) } := {
      faithful := kept
      memory_eq := by simp [bytesFrom]
      bounded := Nat.zero_le _
      current := fun _ => by simp
      boundary := fun positive => absurd positive (by simp) }
    obtain ⟨⟨value, memory', store''⟩, ran, rfl, rfl, kept'⟩ := run_copyBody readable sized chained
      (by omega) start (Nat.lt_succ_self _)
    refine ⟨store'', kept', fun fuel enough => ?_⟩
    have first : inode.entry.firstCluster.toNat = inode.cluster 0 := rfl
    simp only [read, if_neg past, capped, first, skipped]
    exact Loop.run_mono ran (by simp only; omega)

end FATInode

/-! ## Runs of reads -/

namespace File

/-- The reads of a run, each to a buffer and of at most a size, are finalized one after the other
with the bytes from the offset on, as many as are left, and move the offset by their number. What
they deliver together, after `delivered`, is the beginning of the file. -/
def ReadsInOrder : File → Memory → BlockStore → List (BitVec 8) → List (Nat × Nat) → Prop
  | _, _, _, _, [] => True
  | file, memory, store, delivered, (buffer, size) :: reads =>
    file.offset + size < 2 ^ 64 →
      ∃ bytes store', bytes.length = min size (file.inode.entry.size.toNat - file.offset) ∧
        bytes = (file.inode.contents.drop file.offset).take bytes.length ∧
        delivered ++ bytes <+: file.inode.contents ∧
        (∀ fuel, size < fuel → file.read fuel buffer size memory store = some (.ok bytes.length,
          { file with offset := file.offset + bytes.length }, storeBytes memory buffer bytes, store')) ∧
        ReadsInOrder { file with offset := file.offset + bytes.length }
          (storeBytes memory buffer bytes) store' (delivered ++ bytes) reads

/-- The reads of an open file. -/
theorem readsInOrder_of_offset {file : File} (readable : file.inode.fs.Readable)
    (sized : file.inode.fs.Sized) (chained : file.inode.Chained)
    (faithful : file.inode.fs.Faithful store) (memory : Memory)
    (bounded : file.offset ≤ file.inode.entry.size.toNat) (reads : List (Nat × Nat)) :
    file.ReadsInOrder memory store (file.inode.contents.take file.offset) reads := by
  induction reads generalizing file store memory with
  | nil => trivial
  | cons call reads ih =>
    obtain ⟨buffer, size⟩ := call
    intro bound
    obtain ⟨store', kept, ran⟩ := FATInode.read_spec readable sized chained faithful memory buffer
      size file.offset bound
    have entrySize := file.inode.entry.size.isLt
    generalize count : min size (file.inode.entry.size.toNat - file.offset) = n at ran
    have bytes := @FATInode.take_drop_contents file.inode file.offset n (by omega)
    have joined : file.inode.contents.take file.offset ++ file.inode.bytesFrom file.offset n =
        file.inode.contents.take (file.offset + n) := by
      rw [← bytes, List.take_add]
    refine ⟨file.inode.bytesFrom file.offset n, store', ?_, ?_, ?_, fun fuel enough => ?_, ?_⟩
    · exact FATInode.bytesFrom_length _ _
    · rw [FATInode.bytesFrom_length, bytes]
    · rw [joined]
      exact List.take_prefix _ _
    · have moved : (file.offset + n) % 2 ^ 64 = file.offset + n := Nat.mod_eq_of_lt (by omega)
      simp only [read, ran fuel enough, FATInode.bytesFrom_length, moved]
    · rw [joined, FATInode.bytesFrom_length]
      have later : file.offset + n ≤ file.inode.entry.size.toNat := by omega
      exact @ih store' { file with offset := file.offset + n } readable sized chained kept _ later

end File

namespace BootSector32

/-- On every device whose reads succeed, the constructor gives a file system of which every file
with a chain of clusters for its size is read in order, after any reads of blocks. -/
def ReadsFiles (fat32 : BootSector32) : Prop :=
  ∀ device : BlockDevice, (∀ n, device.failure n = none) →
    ∃ fs, FATFileSystem.construct device fat32 = some fs ∧
      ∀ entry : FullDirectoryEntry, FATInode.Chained ⟨fs, entry⟩ →
        ∀ (ns : List Nat) (memory : Memory) (reads : List (Nat × Nat)),
          (File.mk ⟨fs, entry⟩ 0).ReadsInOrder memory (fs.readBlocks ns) [] reads

/-- A file of one byte in the first cluster. -/
def byteEntry : FullDirectoryEntry :=
  { name := [], size := 1, firstCluster := 2, attributes := 0 }

variable {fat32 : BootSector32} {device : BlockDevice}

theorem byteEntry_chained (positive : 0 < fat32.clusterBytes) :
    FATInode.Chained ⟨.ofBootSector device fat32, byteEntry⟩ := by
  have one : (byteEntry.size).toNat = 1 := rfl
  have only : ∀ k, k * fat32.clusterBytes < 1 → k = 0 := fun k inside => by
    rcases Nat.eq_zero_or_pos k with zero | pos
    · exact zero
    · have := Nat.mul_pos pos positive
      omega
  exact ⟨fun k inside => by rw [only k inside]; exact Nat.le_refl _,
    fun k pos inside => absurd (only k inside) (Nat.ne_of_gt pos)⟩

/-- The first byte of the block that the driver takes for the first cluster. -/
def firstClusterStart (fat32 : BootSector32) : Nat :=
  fat32.fatOffset + fat32.fatBytes % 2 ^ 32 / fat32.clusterBytes * fat32.clusterBytes

/-- The driver reads the first cluster from the sector that its block begins in. -/
theorem readClusterPoll_two (clustered : fat32.Clustered) (succeeds : ∀ n, device.failure n = none) :
    ∃ block store', (FATFileSystem.ofBootSector device fat32).readClusterPoll 2 .empty =
      .ok block store' ∧
      block.data.take 1 = [device.image (fat32.firstClusterStart / SECTOR_SIZE * SECTOR_SIZE)] := by
  have sized := FATFileSystem.ofBootSector_sized device fat32
  have below := Nat.mod_lt fat32.fatBytes (show 0 < 2 ^ 32 by decide)
  have whole := Nat.div_mul_le_self (fat32.fatBytes % 2 ^ 32) fat32.clusterBytes
  have few := Nat.div_le_self (fat32.fatBytes % 2 ^ 32) fat32.clusterBytes
  have start := fat32.fatOffset_lt
  have number : ((FATFileSystem.ofBootSector device fat32).numberOfFatBlocks + 2 + (2 ^ 64 - 2)) %
      2 ^ 64 = fat32.fatBytes % 2 ^ 32 / fat32.clusterBytes := by
    rw [sized.blocks]
    change (fat32.fatBytes % 2 ^ 32 / fat32.clusterBytes + 2 + (2 ^ 64 - 2)) % 2 ^ 64 = _
    generalize fat32.fatBytes % 2 ^ 32 / fat32.clusterBytes = n at few
    omega
  have place : (FATFileSystem.ofBootSector device fat32).blockOffset
      (fat32.fatBytes % 2 ^ 32 / fat32.clusterBytes) = fat32.firstClusterStart :=
    Nat.mod_eq_of_lt (a := fat32.firstClusterStart) (by rw [firstClusterStart]; omega)
  obtain ⟨store', read, -⟩ := FATFileSystem.readBlockPoll_of_readPoll
    (@FATFileSystem.Faithful.empty (.ofBootSector device fat32))
    (n := fat32.fatBytes % 2 ^ 32 / fat32.clusterBytes)
    (BlockDevice.readPoll_ok_iff.2 ⟨clustered.sectors, succeeds _, rfl⟩)
  refine ⟨_, store', by rw [FATFileSystem.readClusterPoll, number]; exact read, ?_⟩
  have one : min 1 (FATFileSystem.ofBootSector device fat32).blockSize = 1 :=
    Nat.min_eq_left clustered.positive
  rw [FATFileSystem.block, BlockDevice.bytes, place, ← List.map_take, List.take_range, one,
    List.range_one, List.map_singleton, Nat.add_zero]
  rfl

/-- A read of the file of one byte stores the first byte of that sector. -/
theorem read_byteEntry (clustered : fat32.Clustered) (succeeds : ∀ n, device.failure n = none)
    (memory : Memory) : ∃ store',
    (File.mk ⟨.ofBootSector device fat32, byteEntry⟩ 0).read 2 0 1 memory .empty =
      some (.ok 1, ⟨⟨.ofBootSector device fat32, byteEntry⟩, 1⟩, storeBytes memory 0
        [device.image (fat32.firstClusterStart / SECTOR_SIZE * SECTOR_SIZE)], store') := by
  obtain ⟨block, store', read, data⟩ := readClusterPoll_two clustered succeeds
  have some : min 1 (FATFileSystem.ofBootSector device fat32).bytesPerCluster = 1 :=
    Nat.min_eq_left clustered.positive
  refine ⟨store', ?_⟩
  have size : (FullDirectoryEntry.size byteEntry).toNat = 1 := rfl
  have first : (FullDirectoryEntry.firstCluster byteEntry).toNat = 2 := rfl
  simp [File.read, FATInode.read, size, first, FATInode.skipClusters, Loop.run, FATInode.copyBody, read,
    some, data, pure, EStateM.pure]

/-- The geometry of a boot sector whose files are read in order. -/
theorem ReadsFiles.geometry (right : fat32.ReadsFiles) (clustered : fat32.Clustered) :
    fat32.fatOffset < 2 ^ 31 ∧ SECTOR_SIZE ∣ fat32.fatOffset ∧ fat32.fatBytes < 2 ^ 32 := by
  -- the device on which only the first byte of the first cluster is marked
  obtain ⟨fs, constructed, reads⟩ := right (BlockDevice.marked (fat32.fatOffset + fat32.fatBytes))
    (fun _ => rfl)
  unfold FATFileSystem.construct at constructed
  split at constructed
  case isFalse => cases constructed
  case isTrue small =>
    cases constructed
    obtain ⟨bytes, store, length, given, -, ran, -⟩ := reads byteEntry
      (byteEntry_chained clustered.positive) [] (fun _ => 0) [(0, 1)]
      (show 0 + 1 < 2 ^ 64 by decide)
    obtain ⟨store', ran'⟩ := @read_byteEntry fat32
      (BlockDevice.marked (fat32.fatOffset + fat32.fatBytes)) clustered (fun _ => rfl) fun _ => 0
    refine ⟨small, ?_⟩
    have length' : bytes.length = 1 := length
    -- both are the byte that the read has stored
    have stored : storeBytes (fun _ => 0) 0 bytes 0 = storeBytes (fun _ => 0) 0
        [(BlockDevice.marked (fat32.fatOffset + fat32.fatBytes)).image
          (fat32.firstClusterStart / SECTOR_SIZE * SECTOR_SIZE)] 0 := by
      have same := (ran 2 (by decide)).symm.trans ran'
      simp only [Option.some.injEq, Prod.mk.injEq] at same
      rw [same.2.2.1]
    have first : bytes = [1] := by
      rw [given, length', FATInode.take_drop_contents (Nat.le_refl 1)]
      simp [FATInode.bytesFrom, FATInode.contentByte, FATInode.cluster, FATFileSystem.clusterByte,
        FATFileSystem.ofBootSector, byteEntry, BlockDevice.marked]
    have place : fat32.firstClusterStart / SECTOR_SIZE * SECTOR_SIZE =
        fat32.fatOffset + fat32.fatBytes := by
      by_contra apart
      rw [first] at stored
      simp [storeBytes, BlockDevice.marked, apart] at stored
    have below := Nat.mod_lt fat32.fatBytes (show 0 < 2 ^ 32 by decide)
    have less := Nat.mod_le fat32.fatBytes (2 ^ 32)
    have whole := Nat.div_mul_le_self (fat32.fatBytes % 2 ^ 32) fat32.clusterBytes
    have sector := Nat.div_mul_le_self fat32.firstClusterStart SECTOR_SIZE
    have aligned : SECTOR_SIZE ∣ fat32.firstClusterStart := by
      refine ⟨fat32.firstClusterStart / SECTOR_SIZE, ?_⟩
      rw [Nat.mul_comm]
      unfold firstClusterStart at sector place ⊢
      omega
    refine ⟨(Nat.dvd_add_left (Nat.dvd_mul_left_of_dvd clustered.sectors _)).1 aligned, ?_⟩
    unfold firstClusterStart at sector place
    omega

/-- **Sequential reads yield the contents** of the files of a volume, whose clusters are whole
sectors of the device and whose FATs are whole clusters, exactly if the FAT starts with a sector of
the device and no product of the geometry overflows. -/
theorem readsFiles_iff (clustered : fat32.Clustered) :
    fat32.ReadsFiles ↔
      fat32.fatOffset < 2 ^ 31 ∧ SECTOR_SIZE ∣ fat32.fatOffset ∧ fat32.fatBytes < 2 ^ 32 := by
  refine ⟨fun right => right.geometry clustered, ?_⟩
  rintro ⟨small, start, fits⟩ device succeeds
  refine ⟨_, if_pos small, fun entry chained ns memory reads => ?_⟩
  exact @File.readsInOrder_of_offset _ ⟨⟨.ofBootSector device fat32, entry⟩, 0⟩
    ⟨clustered, start, fits, succeeds⟩ (FATFileSystem.ofBootSector_sized device fat32) chained
    (FATFileSystem.readBlocks_faithful _ ns) memory (Nat.zero_le _) reads

end BootSector32

namespace File

/-- A volume with a FAT of one sector, in which cluster 4 follows cluster 3. -/
def twoClusterDevice : BlockDevice where
  image x := if x = 512 + 4 * 3 then 4 else 0
  failure _ := none

def oneSectorBoot : BootSector32 :=
  { bytesPerSector := 512, sectorsPerCluster := 1, reservedSectors := 1, fatCount := 1,
    sectorsPerFat32 := 1, rootCluster := 2 }

/-- A file of more than one cluster. -/
def twoClusterEntry : FullDirectoryEntry :=
  { name := [], size := 600, firstCluster := 3, attributes := 0 }

theorem twoClusterEntry_chained :
    FATInode.Chained ⟨.ofBootSector twoClusterDevice oneSectorBoot, twoClusterEntry⟩ := by
  have below : ∀ k, k * 512 < 600 → k = 0 ∨ k = 1 := fun k inside => by omega
  refine ⟨fun k inside => ?_, fun k positive inside => ?_⟩
  · rcases below k inside with rfl | rfl <;> decide
  · obtain rfl : k = 1 := (below k inside).resolve_left (by omega)
    decide

theorem readsFiles_iff_two_clusters :
    ∃ fs, FATFileSystem.construct twoClusterDevice oneSectorBoot = some fs ∧
      (File.mk ⟨fs, twoClusterEntry⟩ 0).ReadsInOrder (fun _ => 0) (fs.readBlocks [1]) []
        [(0x1000, 100), (0x1000, 1000)] := by
  obtain ⟨fs, constructed, reads⟩ := (@BootSector32.readsFiles_iff oneSectorBoot
    ⟨by decide, by decide, by decide⟩).2 ⟨by decide, by decide, by decide⟩ twoClusterDevice
    (fun _ => rfl)
  refine ⟨fs, constructed, reads _ ?_ _ _ _⟩
  cases constructed
  exact twoClusterEntry_chained

/-- One reserved sector of 256 bytes: the FAT starts in the middle of a sector of the device. -/
theorem not_readsFiles : ¬ ∀ fat32 : BootSector32, fat32.Clustered → fat32.ReadsFiles := by
  intro right
  have clustered : BootSector32.Clustered ⟨256, 2, 1, 1, 2, 2⟩ := ⟨by decide, by decide, by decide⟩
  exact absurd ((right _ clustered).geometry clustered).2.1 (by decide)

end File

end

end MatteOS.FileSystem
