import MatteOS.FileSystem.BootSector
import MatteOS.FileSystem.Verify.ClusterAddresses

/-!
# Coherent volumes

`try_create` trusts the first sector: a zero there is divided by, and sectors that do not fit on the
volume wrap around to a large number of clusters. The sectors for which neither happens are those of
`coherent_iff`.
-/

namespace MatteOS.FileSystem

namespace BootSector

variable (fat : BootSector)

/-- The sectors in front of the data. -/
def used : Nat :=
  fat.reservedSectors.toNat + fat.fatCount.toNat * fat.fatSize +
    (fat.rootEntries.toNat * 32 + (fat.bytesPerSector.toNat - 1)) / fat.bytesPerSector.toNat

/-- The sectors of a FAT32 volume. -/
structure Coherent : Prop where
  sectors : 0 < fat.bytesPerSector.toNat
  clusters : 0 < fat.sectorsPerCluster.toNat
  fits : fat.used ≤ fat.total
  many : 65525 ≤ (fat.total - fat.used) / fat.sectorsPerCluster.toNat

/-- No division is by zero, the sectors in front of the data are at most all modulo 2^32, and if
they leave enough clusters for FAT32, they are at most all and the root directory lies on the
volume, unless the offset of the FAT overflows its `int` before anything can be said. -/
structure Sound : Prop where
  sectors : 0 < fat.bytesPerSector.toNat
  clusters : 0 < fat.sectorsPerCluster.toNat
  fits : fat.used % 2 ^ 32 ≤ fat.total
  mounted : 65525 ≤ (fat.total - fat.used % 2 ^ 32) / fat.sectorsPerCluster.toNat →
    fat.reservedSectors.toNat * fat.bytesPerSector.toNat < 2 ^ 31 →
      fat.used ≤ fat.total ∧ 2 ≤ fat.fatBlocks + fat.rootCluster.toNat

end BootSector

namespace FATFileSystem

/-- No operation divides by zero or wraps around, and only coherent volumes are mounted. -/
structure MountsCoherent (device : BlockDevice) (reads : Nat) (fat : BootSector) : Prop where
  operations : ∀ operation ∈ (tryCreate device reads).operations, operation.Exact
  coherent : ∀ fs operations, (tryCreate device reads).run [] = .ok (.ok fs) operations →
    fat.Coherent

/-- The operations of `try_create` itself. -/
def headerOperations (fat : BootSector) : List Operation :=
  [.divide fat.bytesPerSector.toNat, .subtract fat.total (fat.used % 2 ^ 32),
    .divide fat.sectorsPerCluster.toNat]

/-- `count_of_clusters` -/
def countOfClusters (fat : BootSector) : Nat :=
  (fat.total + (2 ^ 32 - fat.used % 2 ^ 32)) % 2 ^ 32 / fat.sectorsPerCluster.toNat

/-- The operations of the constructor. -/
def createOperations (fs : FATFileSystem) (fat32 : BootSector32) : List Operation :=
  [.subtract fs.reservedAndFatOffset fs.fatStartOffset, .divide fs.bytesPerCluster,
    .subtract (fs.numberOfFatBlocks + fat32.rootCluster.toNat) 2]

section

variable {device : BlockDevice} {reads : Nat} {sector : List (BitVec 8)} {fat : BootSector}
  {fat32 : BootSector32} {fs : FATFileSystem} {log : List Operation}

theorem tryCreate_of_sector_zero (read : device.readPoll 512 0 reads = .ok sector)
    (zero : (BootSector.ofBytes sector).bytesPerSector.toNat = 0) :
    (tryCreate device reads).run [] = .error .divisionByZero [.divide 0] := by
  simp [tryCreate, read, zero, Arithmetic.divide, EStateM.run, bind, EStateM.bind]

theorem tryCreate_of_cluster_zero (read : device.readPoll 512 0 reads = .ok sector)
    (pos : 0 < (BootSector.ofBytes sector).bytesPerSector.toNat)
    (zero : (BootSector.ofBytes sector).sectorsPerCluster.toNat = 0) :
    (tryCreate device reads).run [] =
      .error .divisionByZero (headerOperations (BootSector.ofBytes sector)) := by
  simp [tryCreate, read, Nat.ne_of_gt pos, zero, Arithmetic.divide, Arithmetic.subtract, EStateM.run,
    bind, EStateM.bind, headerOperations, BootSector.used]

theorem create_eq (sectors : 0 < fat32.bytesPerSector.toNat)
    (clusters : 0 < fat32.sectorsPerCluster.toNat) : create device fat32 log =
    if fat32.reservedSectors.toNat * fat32.bytesPerSector.toNat < 2 ^ 31 then
      .ok (ofBootSector device fat32) (log ++ createOperations (ofBootSector device fat32) fat32)
    else .error .signedOverflow log := by
  have positive : (ofBootSector device fat32).bytesPerCluster ≠ 0 :=
    Nat.ne_of_gt (Nat.mul_pos clusters sectors)
  unfold create construct
  split_ifs
  · simp only [Arithmetic.divide, Arithmetic.subtract, bind, EStateM.bind, positive, if_false,
      createOperations, List.append_assoc, List.cons_append, List.nil_append]
    rfl
  · rfl

/-- What `try_create` does with a sector that it does not divide by. -/
theorem tryCreate_cases (read : device.readPoll 512 0 reads = .ok sector)
    (fat_eq : BootSector.ofBytes sector = fat) (sectors : 0 < fat.bytesPerSector.toNat)
    (clusters : 0 < fat.sectorsPerCluster.toNat) :
    (countOfClusters fat < 65525 ∧ ∃ error,
      (tryCreate device reads).run [] = .ok (.error error) (headerOperations fat)) ∨
    (65525 ≤ countOfClusters fat ∧
      2 ^ 31 ≤ fat.reservedSectors.toNat * fat.bytesPerSector.toNat ∧
      (tryCreate device reads).run [] = .error .signedOverflow (headerOperations fat)) ∨
    (65525 ≤ countOfClusters fat ∧
      fat.reservedSectors.toNat * fat.bytesPerSector.toNat < 2 ^ 31 ∧
      (tryCreate device reads).run [] = .ok (.ok (ofBootSector device fat.toBootSector32))
        (headerOperations fat ++
          createOperations (ofBootSector device fat.toBootSector32) fat.toBootSector32)) := by
  have result : (tryCreate device reads).run [] =
      if countOfClusters fat < 4085 then .ok (.error "FAT12 is not supported") (headerOperations fat)
      else if countOfClusters fat < 65525 then
        .ok (.error "FAT16 is not supported") (headerOperations fat)
      else ((fun fs => .ok fs) <$> create device fat.toBootSector32) (headerOperations fat) := by
    simp only [tryCreate, read, fat_eq, Nat.ne_of_gt sectors, Nat.ne_of_gt clusters,
      Arithmetic.divide, Arithmetic.subtract, EStateM.run, bind, EStateM.bind, if_false]
    change (if countOfClusters fat < 4085 then pure (Except.error "FAT12 is not supported")
      else if countOfClusters fat < 65525 then pure (Except.error "FAT16 is not supported")
      else (fun fs => .ok fs) <$> create device fat.toBootSector32 :
        Arithmetic (Except String FATFileSystem)) (headerOperations fat) = _
    split_ifs <;> rfl
  rw [result]
  by_cases fat12 : countOfClusters fat < 4085
  · exact Or.inl ⟨Nat.lt_trans fat12 (by decide), _, if_pos fat12⟩
  · rw [if_neg fat12]
    by_cases fat16 : countOfClusters fat < 65525
    · exact Or.inl ⟨fat16, _, if_pos fat16⟩
    · rw [if_neg fat16]
      simp only [Functor.map, EStateM.map, create_eq sectors clusters]
      by_cases small : fat.reservedSectors.toNat * fat.bytesPerSector.toNat < 2 ^ 31
      · rw [if_pos small]
        exact Or.inr (Or.inr ⟨Nat.le_of_not_lt fat16, small, rfl⟩)
      · rw [if_neg small]
        exact Or.inr (Or.inl ⟨Nat.le_of_not_lt fat16, Nat.le_of_not_lt small, rfl⟩)

/-! ## Which operations are exact -/

theorem exact_headerOperations : (∀ operation ∈ headerOperations fat, operation.Exact) ↔
    fat.bytesPerSector.toNat ≠ 0 ∧ fat.used % 2 ^ 32 ≤ fat.total ∧
      fat.sectorsPerCluster.toNat ≠ 0 := by
  simp [headerOperations, Operation.Exact]

theorem exact_createOperations (device : BlockDevice) (sectors : 0 < fat32.bytesPerSector.toNat)
    (clusters : 0 < fat32.sectorsPerCluster.toNat) :
    (∀ operation ∈ createOperations (ofBootSector device fat32) fat32, operation.Exact) ↔
      2 ≤ fat32.fatBlocks + fat32.rootCluster.toNat := by
  have blocks := BootSector32.numberOfFatBlocks_eq device fat32
  have start : (ofBootSector device fat32).fatStartOffset ≤
      (ofBootSector device fat32).reservedAndFatOffset := Nat.le_add_right _ _
  have positive : (ofBootSector device fat32).bytesPerCluster ≠ 0 :=
    Nat.ne_of_gt (Nat.mul_pos clusters sectors)
  simp [createOperations, Operation.Exact, blocks, start, positive]

theorem total_lt (fat : BootSector) : fat.total < 2 ^ 32 := by
  rw [BootSector.total]
  split
  · exact Nat.lt_trans fat.totalSectors.isLt (by decide)
  · exact fat.totalSectorsLarge.isLt

theorem countOfClusters_eq (fits : fat.used % 2 ^ 32 ≤ fat.total) :
    countOfClusters fat = (fat.total - fat.used % 2 ^ 32) / fat.sectorsPerCluster.toNat := by
  have below := total_lt fat
  have wrap : fat.total + (2 ^ 32 - fat.used % 2 ^ 32) = fat.total - fat.used % 2 ^ 32 + 2 ^ 32 := by
    have := Nat.mod_lt fat.used (show 0 < 2 ^ 32 by decide)
    omega
  rw [countOfClusters, wrap, Nat.add_mod_right, Nat.mod_eq_of_lt (by omega)]

/-- What `try_create` has logged before it looks at the number of clusters. -/
theorem headerOperations_subset (read : device.readPoll 512 0 reads = .ok sector)
    (fat_eq : BootSector.ofBytes sector = fat) (sectors : 0 < fat.bytesPerSector.toNat) :
    ∀ operation ∈ headerOperations fat, operation ∈ (tryCreate device reads).operations := by
  intro operation mem
  rw [Arithmetic.operations]
  rcases Nat.eq_zero_or_pos fat.sectorsPerCluster.toNat with zero | clusters
  · subst fat_eq
    rwa [tryCreate_of_cluster_zero read sectors zero]
  · rcases tryCreate_cases read fat_eq sectors clusters with
      ⟨-, _, run⟩ | ⟨-, -, run⟩ | ⟨-, -, run⟩
    · rwa [run]
    · rwa [run]
    · rw [run]
      exact List.mem_append_left _ mem

/-- **Coherent volumes.** `try_create` divides by nothing that is zero, wraps no subtraction and mounts
only volumes whose sectors fit and that have enough clusters for FAT32, if and only if the sectors and
clusters of the first sector are not empty, the sectors in front of the data are at most all, modulo
2^32, and if they leave enough clusters, they are so without wrapping and the cluster of the root
directory is not in front of the data. -/
theorem mountsCoherent_iff (read : device.readPoll 512 0 reads = .ok sector) :
    MountsCoherent device reads (BootSector.ofBytes sector) ↔
      (BootSector.ofBytes sector).Sound := by
  generalize fat_eq : BootSector.ofBytes sector = fat
  constructor
  · rintro ⟨exact', coherent⟩
    have sectors : 0 < fat.bytesPerSector.toNat := by
      refine Nat.pos_of_ne_zero fun zero => ?_
      subst fat_eq
      rw [Arithmetic.operations, tryCreate_of_sector_zero read zero] at exact'
      exact exact' _ List.mem_cons_self rfl
    obtain ⟨-, fits, clusters⟩ := exact_headerOperations.1 fun operation mem =>
      exact' operation (headerOperations_subset read fat_eq sectors operation mem)
    refine ⟨sectors, Nat.pos_of_ne_zero clusters, fits, fun many small => ?_⟩
    rw [← countOfClusters_eq fits] at many
    rcases tryCreate_cases read fat_eq sectors (Nat.pos_of_ne_zero clusters) with
      ⟨few, -⟩ | ⟨-, large, -⟩ | ⟨-, -, run⟩
    · omega
    · omega
    · refine ⟨(coherent _ _ run).fits, ?_⟩
      rw [← exact_createOperations device sectors (Nat.pos_of_ne_zero clusters)]
      intro operation mem
      refine exact' operation ?_
      rw [Arithmetic.operations, run]
      exact List.mem_append_right _ mem
  · rintro ⟨sectors, clusters, fits, mounted⟩
    have header := exact_headerOperations.2 ⟨Nat.ne_of_gt sectors, fits, Nat.ne_of_gt clusters⟩
    rw [← countOfClusters_eq fits] at mounted
    rcases tryCreate_cases read fat_eq sectors clusters with
      ⟨-, _, run⟩ | ⟨-, -, run⟩ | ⟨many, small, run⟩
    · refine ⟨by rwa [Arithmetic.operations, run], fun fs operations created => ?_⟩
      rw [run] at created
      cases created
    · refine ⟨by rwa [Arithmetic.operations, run], fun fs operations created => ?_⟩
      rw [run] at created
      cases created
    · obtain ⟨whole, root⟩ := mounted many small
      have created := (exact_createOperations device sectors clusters).2 root
      refine ⟨?_, fun _ _ _ => ⟨sectors, clusters, whole, ?_⟩⟩
      · rw [Arithmetic.operations, run]
        intro operation mem
        rcases List.mem_append.1 mem with mem | mem
        · exact header operation mem
        · exact created operation mem
      · have exactly : fat.used % 2 ^ 32 = fat.used :=
          Nat.mod_eq_of_lt (Nat.lt_of_le_of_lt whole (total_lt fat))
        rwa [countOfClusters_eq fits, exactly] at many

end

/-- A device whose first sector starts with these bytes. -/
def bootDevice (sector : List (BitVec 8)) : BlockDevice where
  image a := sector.getD a 0
  failure _ := none

/-- 70000 sectors of 512 bytes in clusters of one sector, 32 of them reserved and 550 for each of two
FATs. -/
def volumeSector : List (BitVec 8) :=
  .replicate 11 0 ++ [0x00, 0x02, 0x01, 0x20, 0x00, 0x02] ++ .replicate 15 0 ++
    [0x70, 0x11, 0x01, 0x00, 0x26, 0x02] ++ .replicate 6 0 ++ [0x02]

theorem mountsCoherent_iff_volume :
    MountsCoherent (bootDevice volumeSector) 0
      (BootSector.ofBytes ((bootDevice volumeSector).bytes 512 0)) := by
  have fat : BootSector.ofBytes ((bootDevice volumeSector).bytes 512 0) =
      { bytesPerSector := 512, sectorsPerCluster := 1, reservedSectors := 32, fatCount := 2,
        sectorsPerFat32 := 550, rootCluster := 2, rootEntries := 0, totalSectors := 0,
        sectorsPerFat := 0, totalSectorsLarge := 70000 } := by decide +kernel
  refine (mountsCoherent_iff rfl).2 ?_
  rw [fat]
  exact ⟨by decide, by decide, by decide, fun _ _ => by decide⟩

/-- The same with a single sector -/
def damagedSector : List (BitVec 8) :=
  .replicate 11 0 ++ [0x00, 0x02, 0x01, 0x20, 0x00, 0x02] ++ .replicate 15 0 ++
    [0x01, 0x00, 0x00, 0x00, 0x26, 0x02] ++ .replicate 6 0 ++ [0x02]

/-- A volume of one sector is mounted, although 1132 sectors lie in front of its data. -/
theorem not_mountsCoherent_damaged :
    ∃ sector, (bootDevice damagedSector).readPoll 512 0 0 = .ok sector ∧ sector.length = 512 ∧
      ¬ MountsCoherent (bootDevice damagedSector) 0 (BootSector.ofBytes sector) := by
  have fat : BootSector.ofBytes ((bootDevice damagedSector).bytes 512 0) =
      { bytesPerSector := 512, sectorsPerCluster := 1, reservedSectors := 32, fatCount := 2,
        sectorsPerFat32 := 550, rootCluster := 2, rootEntries := 0, totalSectors := 0,
        sectorsPerFat := 0, totalSectorsLarge := 1 } := by decide +kernel
  have read : (bootDevice damagedSector).readPoll 512 0 0 =
      .ok ((bootDevice damagedSector).bytes 512 0) := rfl
  refine ⟨_, read, by simp [BlockDevice.bytes], ?_⟩
  rw [fat]
  rintro ⟨-, coherent⟩
  rcases tryCreate_cases read fat (by decide) (by decide) with
    ⟨few, -⟩ | ⟨-, large, -⟩ | ⟨-, -, run⟩
  · exact absurd few (by decide)
  · exact absurd large (by decide)
  · exact absurd (coherent _ _ run).fits (by decide)

end FATFileSystem

end MatteOS.FileSystem
