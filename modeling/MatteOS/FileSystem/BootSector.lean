import MatteOS.FileSystem.FATFileSystem

/-!
# Boot sectors

`FATFileSystem::try_create` computes the number of data clusters from the first sector of a device,
to tell FAT32 from older formats. The unsigned divisions and subtractions on the way are logged.
-/

namespace MatteOS.FileSystem

/-! ## Arithmetic -/

/-- An unsigned division or subtraction. -/
inductive Operation where
  | divide (divisor : Nat)
  | subtract (minuend subtrahend : Nat)
deriving DecidableEq

/-- It divides by no zero and does not wrap around. -/
def Operation.Exact : Operation → Prop
  | divide divisor => divisor ≠ 0
  | subtract minuend subtrahend => subtrahend ≤ minuend

instance : DecidablePred Operation.Exact
  | .divide _ => inferInstanceAs (Decidable (_ ≠ _))
  | .subtract _ _ => inferInstanceAs (Decidable (_ ≤ _))

/-- Why a computation is undefined. -/
inductive Undefined where
  | divisionByZero
  | signedOverflow
deriving DecidableEq

/-- A computation that logs its operations. -/
abbrev Arithmetic := EStateM Undefined (List Operation)

namespace Arithmetic

/-- The operations of a run. -/
def operations {α : Type} (computation : Arithmetic α) : List Operation :=
  match computation.run [] with
  | .ok _ operations => operations
  | .error _ operations => operations

def divide (dividend divisor : Nat) : Arithmetic Nat := fun operations =>
  let operations := operations ++ [.divide divisor]
  if divisor = 0 then .error .divisionByZero operations else .ok (dividend / divisor) operations

/-- A subtraction in `w` bits. -/
def subtract (w minuend subtrahend : Nat) : Arithmetic Nat := fun operations =>
  .ok ((minuend + (2 ^ w - subtrahend)) % 2 ^ w) (operations ++ [.subtract minuend subtrahend])

end Arithmetic

/-! ## The first sector -/

/-- What `try_create` takes from the first sector, besides what the constructor does. -/
structure BootSector extends BootSector32 where
  rootEntries : BitVec 16
  totalSectors : BitVec 16
  sectorsPerFat : BitVec 16
  totalSectorsLarge : BitVec 32
deriving DecidableEq

namespace BootSector

/-- The fields at their places in the packed structures `BootSector` and `BootSector32`. -/
def ofBytes (sector : List (BitVec 8)) : BootSector :=
  let u8 i := sector.getD i 0
  let u16 i := u8 (i + 1) ++ u8 i
  let u32 i := u16 (i + 2) ++ u16 i
  { bytesPerSector := u16 11
    sectorsPerCluster := u8 13
    reservedSectors := u16 14
    fatCount := u8 16
    rootEntries := u16 17
    totalSectors := u16 19
    sectorsPerFat := u16 22
    totalSectorsLarge := u32 32
    sectorsPerFat32 := u32 36
    rootCluster := u32 44 }

variable (fat : BootSector)

/-- `sectors_per_fat` -/
def fatSize : Nat :=
  if fat.sectorsPerFat ≠ 0 then fat.sectorsPerFat.toNat else fat.sectorsPerFat32.toNat

/-- `total_sectors` -/
def total : Nat :=
  if fat.totalSectors ≠ 0 then fat.totalSectors.toNat else fat.totalSectorsLarge.toNat

end BootSector

namespace FATFileSystem

open Arithmetic

/-- `FATFileSystem::FATFileSystem`. It also reads the root directory, whose block number is computed
in `read_cluster_poll`; it parses nothing of it, but the block stays in the cache
(`FATFileSystem::read_block_poll`, of which this is the first call). -/
def create (device : BlockDevice) (fat32 : BootSector32) : Arithmetic FATFileSystem := do
  match construct device fat32 with
  | none => throw .signedOverflow
  | some fs =>
    let fatSize ← subtract 64 fs.reservedAndFatOffset fs.fatStartOffset
    let _ ← divide fatSize fs.bytesPerCluster
    let _ ← subtract 64 (fs.numberOfFatBlocks + fat32.rootCluster.toNat) 2
    return fs

/-- `FATFileSystem::try_create`, after `reads` reads of the device. The dividend of
`root_dir_sectors` is an `int`, which holds all its values; `data_sectors` is a `u32`. -/
def tryCreate (device : BlockDevice) (reads : Nat) : Arithmetic (Except String FATFileSystem) := do
  match device.readPoll 512 0 reads with
  | .error error => return .error error
  | .ok sector =>
    let fat := BootSector.ofBytes sector
    let rootDirSectors ← divide (fat.rootEntries.toNat * 32 + (fat.bytesPerSector.toNat - 1))
      fat.bytesPerSector.toNat
    let used := (fat.reservedSectors.toNat + fat.fatCount.toNat * fat.fatSize + rootDirSectors) % 2 ^ 32
    let dataSectors ← subtract 32 fat.total used
    let countOfClusters ← divide dataSectors fat.sectorsPerCluster.toNat
    if countOfClusters < 4085 then return .error "FAT12 is not supported"
    else if countOfClusters < 65525 then return .error "FAT16 is not supported"
    else return .ok (← create device fat.toBootSector32)

end FATFileSystem

end MatteOS.FileSystem
