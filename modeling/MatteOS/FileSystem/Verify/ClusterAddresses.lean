import MatteOS.FileSystem.Verify.FATRead

/-!
# Where clusters are

The blocks of a volume are numbered from the first FAT on, and the clusters come after the blocks
of the FATs. A FAT region that is no whole number of clusters, or too large for its `u32`, shifts
all of them (`addressesRight_iff`). The entries of the FAT are found in any case.
-/

namespace MatteOS.FileSystem

namespace BootSector32

variable (fat32 : BootSector32)

/-- Sectors are whole sectors of the device, and clusters whole sectors. -/
structure Valid : Prop where
  positive : 0 < fat32.bytesPerSector.toNat
  sectors : SECTOR_SIZE ∣ fat32.bytesPerSector.toNat
  clusters : 1 ≤ fat32.sectorsPerCluster.toNat

/-- The first sector of a data cluster. -/
def clusterSector (cluster : Nat) : Nat :=
  fat32.reservedSectors.toNat + fat32.fatSectors +
    (cluster - 2) * fat32.sectorsPerCluster.toNat

/-- The bytes of sectors from one sector on. -/
def sectorBytes (device : BlockDevice) (first count : Nat) : List (BitVec 8) :=
  (List.range (count * fat32.bytesPerSector.toNat)).map fun i =>
    device.image (first * fat32.bytesPerSector.toNat + i)

/-- The entry of the FAT at a byte of the volume. -/
def entryAt (device : BlockDevice) (a : Nat) : FATEntry :=
  ⟨(device.image (a + 3) ++ device.image (a + 2) ++ device.image (a + 1) ++
    device.image a).toNat % 2 ^ 28⟩

/-- On every device whose reads succeed, the file system of the boot sector reads the sectors of the
cluster and its entry of the FAT, after any other reads. -/
def AddressesRight (cluster : Nat) : Prop :=
  ∀ device : BlockDevice, (∀ n, device.failure n = none) → ∃ fs,
    FATFileSystem.construct device fat32 = some fs ∧ ∀ ns,
      (∃ block store', fs.readClusterPoll cluster (fs.readBlocks ns) = .ok block store' ∧
        block.data = fat32.sectorBytes device (fat32.clusterSector cluster)
          fat32.sectorsPerCluster.toNat) ∧
      ∃ store', fs.getFatEntry cluster (fs.readBlocks ns) = .ok (entryAt device
        (fat32.reservedSectors.toNat * fat32.bytesPerSector.toNat + 4 * cluster)) store'

/-- The blocks of the FATs, as the constructor counts them. -/
def fatBlocks : Nat :=
  fat32.fatSectors * fat32.bytesPerSector.toNat % 2 ^ 32 / fat32.clusterBytes

/-- The first byte of the block that stands for a cluster. -/
def clusterStart (cluster : Nat) : Nat :=
  fat32.reservedSectors.toNat * fat32.bytesPerSector.toNat +
    (fat32.fatBlocks + (cluster - 2)) * fat32.clusterBytes

theorem numberOfFatBlocks_eq (device : BlockDevice) (fat32 : BootSector32) :
    (FATFileSystem.ofBootSector device fat32).numberOfFatBlocks = fat32.fatBlocks := by
  simp only [FATFileSystem.ofBootSector, Nat.add_sub_cancel_left, fatBlocks, fatSectors, clusterBytes]

variable {fat32} {device : BlockDevice} {cluster : Nat}

theorem Valid.readsBlocks (valid : fat32.Valid) (succeeds : ∀ n, device.failure n = none) :
    (FATFileSystem.ofBootSector device fat32).ReadsBlocks :=
  ⟨Nat.mul_pos valid.clusters valid.positive, Nat.dvd_mul_left_of_dvd valid.sectors _,
    Nat.dvd_mul_left_of_dvd valid.sectors _, succeeds⟩

/-- **The block of a cluster** begins with its first sector if the FATs fit in a `u32` and fill their
blocks. -/
theorem Valid.clusterStart_eq_iff (valid : fat32.Valid) :
    fat32.clusterStart cluster = fat32.clusterSector cluster * fat32.bytesPerSector.toNat ↔
      fat32.fatSectors * fat32.bytesPerSector.toNat < 2 ^ 32 ∧
        fat32.sectorsPerCluster.toNat ∣ fat32.fatSectors := by
  have whole : fat32.clusterStart cluster =
      fat32.clusterSector cluster * fat32.bytesPerSector.toNat ↔
      fat32.fatBlocks * fat32.clusterBytes = fat32.fatSectors * fat32.bytesPerSector.toNat := by
    rw [clusterStart, clusterSector, clusterBytes, Nat.add_mul, Nat.add_mul, Nat.add_mul,
      Nat.mul_assoc (cluster - 2)]
    omega
  have divides : fat32.clusterBytes ∣ fat32.fatSectors * fat32.bytesPerSector.toNat ↔
      fat32.sectorsPerCluster.toNat ∣ fat32.fatSectors :=
    Nat.mul_dvd_mul_iff_right valid.positive
  rw [whole, ← divides]
  constructor
  · intro full
    have below : fat32.fatSectors * fat32.bytesPerSector.toNat < 2 ^ 32 := by
      rw [← full]
      exact Nat.lt_of_le_of_lt (Nat.div_mul_le_self _ _) (Nat.mod_lt _ (by decide))
    exact ⟨below, fat32.fatBlocks, full.symm.trans (Nat.mul_comm _ _)⟩
  · rintro ⟨below, full⟩
    rw [fatBlocks, Nat.mod_eq_of_lt below, Nat.div_mul_cancel full]

/-- The cluster that is read begins after the blocks of the FATs. -/
theorem Valid.readClusterPoll (valid : fat32.Valid) (succeeds : ∀ n, device.failure n = none)
    (data : 2 ≤ cluster) (bound : cluster < 2 ^ 32) (ns : List Nat) :
    ∃ block store', (FATFileSystem.ofBootSector device fat32).readClusterPoll cluster
        ((FATFileSystem.ofBootSector device fat32).readBlocks ns) = .ok block store' ∧
      block.data = (List.range fat32.clusterBytes).map fun i =>
        device.image (fat32.clusterStart cluster + i) := by
  have sized := FATFileSystem.ofBootSector_sized device fat32
  have reads := valid.readsBlocks succeeds
  obtain ⟨store', read, -⟩ := FATFileSystem.readClusterPoll_block reads sized
    (FATFileSystem.readBlocks_faithful _ ns) data bound
  refine ⟨_, store', read, ?_⟩
  have blocks := numberOfFatBlocks_eq device fat32
  have few : fat32.fatBlocks < 2 ^ 32 :=
    Nat.lt_of_le_of_lt (Nat.div_le_self _ _) (Nat.mod_lt _ (by decide))
  have size : fat32.clusterBytes < 2 ^ 24 := fat32.clusterBytes_lt
  have first : fat32.reservedSectors.toNat * fat32.bytesPerSector.toNat < 2 ^ 32 :=
    fat32.fatOffset_lt
  have fits : (fat32.fatBlocks + (cluster - 2)) * fat32.clusterBytes < 2 ^ 33 * 2 ^ 24 :=
    Nat.mul_lt_mul'' (by omega) size
  have place : (FATFileSystem.ofBootSector device fat32).blockOffset
      (fat32.fatBlocks + (cluster - 2)) = fat32.clusterStart cluster :=
    Nat.mod_eq_of_lt (a := fat32.clusterStart cluster) (by rw [clusterStart]; omega)
  rw [FATFileSystem.block_data reads.sectors (Nat.dvd_mul_left_of_dvd valid.sectors _), blocks,
    place]
  rfl

/-- The entry of the FAT is found whatever the size of the FATs is. -/
theorem Valid.getFatEntry (valid : fat32.Valid) (succeeds : ∀ n, device.failure n = none)
    (bound : cluster < 2 ^ 32) (ns : List Nat) :
    ∃ store', (FATFileSystem.ofBootSector device fat32).getFatEntry cluster
      ((FATFileSystem.ofBootSector device fat32).readBlocks ns) = .ok (entryAt device
        (fat32.reservedSectors.toNat * fat32.bytesPerSector.toNat + 4 * cluster)) store' := by
  have reads := valid.readsBlocks succeeds
  obtain ⟨store', found, -⟩ := FATFileSystem.getFatEntry_eq reads
    (FATFileSystem.ofBootSector_sized device fat32) (FATFileSystem.readBlocks_faithful _ ns) bound
  refine ⟨store', ?_⟩
  rw [found, FATFileSystem.fatValue]
  rfl

/-- The geometry of a boot sector whose clusters are read where they are. -/
theorem AddressesRight.geometry (right : fat32.AddressesRight cluster) (valid : fat32.Valid)
    (data : 2 ≤ cluster) (bound : cluster < 2 ^ 32) :
    fat32.reservedSectors.toNat * fat32.bytesPerSector.toNat < 2 ^ 31 ∧
      fat32.fatSectors * fat32.bytesPerSector.toNat < 2 ^ 32 ∧
      fat32.sectorsPerCluster.toNat ∣ fat32.fatSectors := by
  rw [← @Valid.clusterStart_eq_iff fat32 cluster valid]
  -- the device on which only the first byte of the cluster is marked
  obtain ⟨fs, constructed, reads⟩ := right
    (BlockDevice.marked (fat32.clusterSector cluster * fat32.bytesPerSector.toNat)) (fun _ => rfl)
  unfold FATFileSystem.construct at constructed
  split at constructed
  case isFalse => cases constructed
  case isTrue small =>
    cases constructed
    refine ⟨small, ?_⟩
    obtain ⟨block, store', read, bytes⟩ := (reads []).1
    obtain ⟨block', store'', read', bytes'⟩ := @Valid.readClusterPoll fat32
      (BlockDevice.marked (fat32.clusterSector cluster * fat32.bytesPerSector.toNat)) cluster valid
      (fun _ => rfl) data bound []
    rw [read'] at read
    cases read
    rw [bytes'] at bytes
    have positive : 0 < fat32.clusterBytes := Nat.mul_pos valid.clusters valid.positive
    have first := List.map_inj_left.1 bytes 0 (List.mem_range.2 positive)
    by_contra apart
    simp [BlockDevice.marked, apart] at first

/-- **Cluster numbers map to the right disk bytes** exactly if no product of the geometry overflows
and the FATs are a whole number of clusters. -/
theorem addressesRight_iff (valid : fat32.Valid) (data : 2 ≤ cluster) (bound : cluster < 2 ^ 32) :
    fat32.AddressesRight cluster ↔
      fat32.reservedSectors.toNat * fat32.bytesPerSector.toNat < 2 ^ 31 ∧
      fat32.fatSectors * fat32.bytesPerSector.toNat < 2 ^ 32 ∧
      fat32.sectorsPerCluster.toNat ∣ fat32.fatSectors := by
  refine ⟨fun right => right.geometry valid data bound, ?_⟩
  rw [← @Valid.clusterStart_eq_iff fat32 cluster valid]
  rintro ⟨small, place⟩ device succeeds
  refine ⟨_, if_pos small, fun ns => ⟨?_, valid.getFatEntry succeeds bound ns⟩⟩
  obtain ⟨block, store', read, bytes⟩ := valid.readClusterPoll succeeds data bound ns
  refine ⟨block, store', read, ?_⟩
  rw [bytes, place]
  rfl

/-- A volume with clusters of two sectors and two FATs of one sector. -/
theorem addressesRight_iff_two_sectors :
    BootSector32.AddressesRight ⟨512, 2, 32, 2, 1, 2⟩ 2 :=
  (addressesRight_iff ⟨by decide, by decide, by decide⟩ (by decide) (by decide)).2
    ⟨by decide, by decide, by decide⟩

/-- One FAT of one sector before clusters of two sectors. -/
theorem not_addressesRight : ¬ ∀ (fat32 : BootSector32) (cluster : Nat), fat32.Valid →
    2 ≤ cluster → cluster < 2 ^ 32 → fat32.AddressesRight cluster := by
  intro right
  have valid : Valid ⟨512, 2, 32, 1, 1, 2⟩ := ⟨by decide, by decide, by decide⟩
  have geometry := (right _ 2 valid (by decide) (by decide)).geometry valid (by decide) (by decide)
  exact absurd geometry.2.2 (by decide)

end BootSector32

end MatteOS.FileSystem
