import MatteOS.FileSystem.Directory
import MatteOS.FileSystem.Verify.BlockCache
import MatteOS.Utils.Verify.Strings

/-!
# Listing and lookup

Both loops over a directory see the same groups of entries (`scan`). `list_dir` lists the names of
all of them; `get_child` stops at the first group of long entries that no standard entry seems to
follow. So they agree exactly where every listed name comes before such a group
(`agrees_iff`), which is so if no entry is read-only and no name needs two long entries.
-/

namespace MatteOS.FileSystem

/-- What the loops make of an entry and the long entries before it: a name, and whether
`get_child` goes on behind it. -/
structure Group where
  name : Name
  passes : Bool
deriving DecidableEq

/-- The groups that the loops see, after `skip` of the entries. -/
def scan : Nat → List DirectoryEntry → Option (List Group)
  | _, [] => some []
  | skip + 1, _ :: entries => scan skip entries
  | 0, entry :: entries =>
    if entry.isFree then scan 0 entries
    else if entry.isLongName then
      match entry.longName [] entries with
      | none => none
      | some (name, moved) =>
        let passes := (entries[moved - 1]?).any fun next => !next.isLongName
        (scan moved entries).map (⟨name, passes⟩ :: ·)
    else (scan 0 entries).map (⟨entry.shortName, true⟩ :: ·)

/-- The entries are scanned to the end, and each name that a string can equal comes before the first
group at which lookups stop. -/
def Settled (entries : List DirectoryEntry) : Prop :=
  ∃ groups ∈ scan 0 entries, ∀ g ∈ groups, 0 ∉ g.name →
    ∃ g' ∈ groups.takeWhile Group.passes, g'.name = g.name

instance (entries : List DirectoryEntry) : Decidable (Settled entries) :=
  inferInstanceAs (Decidable (∃ groups ∈ scan 0 entries, ∀ g ∈ groups, 0 ∉ g.name →
    ∃ g' ∈ groups.takeWhile Group.passes, g'.name = g.name))

/-- `list_dir` succeeds, and contains exactly the names that `get_child` finds. -/
def FATInode.Agrees (inode : FATInode) (store : BlockStore) : Prop :=
  ∃ names store', inode.listDir store = .ok (some names) store' ∧
    ∀ name, (∃ listed ∈ names, Utils.Strings.equals listed name) ↔
      ∃ child store'', inode.getChild name store' = .ok (some child) store''

/-! ## Well-formed directories -/

/-- The long entries of one name, the last part of it first. -/
def LongSet (longs : List DirectoryEntry) : Prop :=
  longs.length ≤ 20 ∧ ∀ i, (h : i < longs.length) → (longs.get ⟨i, h⟩).attributes = 0x0F ∧
    (longs.get ⟨i, h⟩).byte 0 = (if i = 0 then 0x40 else 0) ||| .ofNat 8 (longs.length - i)

/-- The directory consists of free entries and of entries in use with the long entries of their
names, all of a kind. -/
inductive Groups (kind : List DirectoryEntry → DirectoryEntry → Prop) : List DirectoryEntry → Prop where
  | nil : Groups kind []
  | free {entry : DirectoryEntry} {entries : List DirectoryEntry} (free : entry.isFree)
      (rest : Groups kind entries) : Groups kind (entry :: entries)
  | used {longs : List DirectoryEntry} {entry : DirectoryEntry} {entries : List DirectoryEntry}
      (complete : LongSet longs) (used : entry.isFree = false)
      (standard : entry.attributes &&& 0x0F ≠ 0x0F) (is : kind longs entry)
      (rest : Groups kind entries) : Groups kind (longs ++ entry :: entries)

/-- One long entry at most, and no read-only entry. -/
def Plain (longs : List DirectoryEntry) (entry : DirectoryEntry) : Prop :=
  longs.length ≤ 1 ∧ entry.attributes &&& 1 = 0

section

variable {entries : List DirectoryEntry} {groups : List Group} {skip : Nat}

/-- **`list_dir`** lists the names of the groups. -/
theorem listEntries_eq (skip : Nat) (entries : List DirectoryEntry) :
    listEntries skip entries = (scan skip entries).map (·.map Group.name) := by
  induction entries generalizing skip with
  | nil => cases skip <;> rfl
  | cons entry entries ih =>
    cases skip with
    | succ skip => exact ih skip
    | zero =>
      simp only [listEntries, scan]
      split
      · exact ih 0
      · split
        · cases DirectoryEntry.longName [] entry entries with
          | none => rfl
          | some result =>
            simp only [ih, Option.map_map]
            rfl
        · simp only [ih, Option.map_map]
          rfl

/-- **`get_child`** finds the names of the groups before the first at which it stops. -/
theorem findEntry_ok_iff (name : Name) (scanned : scan skip entries = some groups) :
    (∃ entry, findEntry name skip entries = some (.ok entry)) ↔
      ∃ g ∈ groups.takeWhile Group.passes, Utils.Strings.equals g.name name := by
  induction entries generalizing skip groups with
  | nil =>
    cases skip <;> cases scanned <;> simp [findEntry]
  | cons entry entries ih =>
    cases skip with
    | succ skip => exact ih scanned
    | zero =>
      simp only [findEntry, scan] at scanned ⊢
      split at scanned
      · rename_i free
        rw [if_pos free]
        exact ih scanned
      · rename_i free
        rw [if_neg free]
        split at scanned
        · rename_i long
          rw [if_pos long]
          cases named : DirectoryEntry.longName [] entry entries with
          | none =>
            rw [named] at scanned
            cases scanned
          | some found =>
            obtain ⟨entryName, moved⟩ := found
            rw [named] at scanned
            obtain ⟨rest, scanned', rfl⟩ := Option.map_eq_some_iff.1 scanned
            cases next : entries[moved - 1]? with
            | none => simp [next]
            | some standard =>
              cases marked : standard.isLongName with
              | true => simp [next, marked]
              | false =>
                by_cases same : Utils.Strings.equals entryName name = true
                · simp [next, marked, same]
                · simpa [next, marked, same] using ih scanned'
        · rename_i short
          rw [if_neg short]
          obtain ⟨rest, scanned', rfl⟩ := Option.map_eq_some_iff.1 scanned
          by_cases same : Utils.Strings.equals entry.shortName name = true
          · simp [same]
          · simpa [same] using ih scanned'

/-! ## The block of a directory -/

variable {inode : FATInode} {store store' : BlockStore} {block : DataBlock}

/-- A block that has been read is found again in the cache. -/
theorem FATFileSystem.readBlockPoll_again {fs : FATFileSystem} {n : Nat}
    (read : fs.readBlockPoll n store = .ok block store') :
    ∃ store'', fs.readBlockPoll n store' = .ok block store'' := by
  have head : block.blockNumber = n ∧ ∃ rest, store'.cache = block :: rest := by
    unfold FATFileSystem.readBlockPoll at read
    cases cached : store.getBlockFromCache n with
    | some found =>
      simp only [cached, EStateM.Result.ok.injEq] at read
      obtain ⟨rfl, rfl⟩ := read
      exact ⟨by simpa using List.find?_some cached, _, BlockStore.cacheBlock_cache _ _⟩
    | none =>
      simp only [cached] at read
      split at read
      · cases read
      · simp only [EStateM.Result.ok.injEq] at read
        obtain ⟨rfl, rfl⟩ := read
        exact ⟨rfl, _, BlockStore.cacheBlock_cache _ _⟩
  obtain ⟨number, rest, cache⟩ := head
  have found : store'.getBlockFromCache n = some block := by
    simp [BlockStore.getBlockFromCache, cache, number]
  exact ⟨_, by rw [FATFileSystem.readBlockPoll, found]⟩

theorem FATInode.listDir_eq (directory : inode.entry.isDirectory)
    (read : inode.fs.readClusterPoll inode.entry.firstCluster.toNat store = .ok block store') :
    inode.listDir store =
      .ok (listEntries 0 (block.directoryEntries inode.fs.blockSize)) store' := by
  simp only [listDir, directory, Bool.not_true, Bool.false_eq_true, ↓reduceIte, bind, EStateM.bind,
    read]
  rfl

theorem FATInode.getChild_ok_iff (directory : inode.entry.isDirectory)
    (read : inode.fs.readClusterPoll inode.entry.firstCluster.toNat store = .ok block store')
    (name : Name) : (∃ child store'', inode.getChild name store = .ok (some child) store'') ↔
      ∃ entry, findEntry name 0 (block.directoryEntries inode.fs.blockSize) = some (.ok entry) := by
  simp only [getChild, directory, Bool.not_true, Bool.false_eq_true, ↓reduceIte, bind, EStateM.bind,
    read]
  cases findEntry name 0 (block.directoryEntries inode.fs.blockSize) with
  | none => simp [pure, EStateM.pure]
  | some result =>
    cases result with
    | error error =>
      constructor
      · rintro ⟨child, store'', found⟩
        cases found
      · rintro ⟨entry, found⟩
        cases found
    | ok entry => simp [pure, EStateM.pure]

/-- Listing and lookup agree exactly on a settled directory. -/
theorem agrees_iff_settled (directory : inode.entry.isDirectory)
    (read : inode.fs.readClusterPoll inode.entry.firstCluster.toNat store = .ok block store') :
    inode.Agrees store ↔ Settled (block.directoryEntries inode.fs.blockSize) := by
  obtain ⟨store'', again⟩ := FATFileSystem.readBlockPoll_again read
  have found (name : Name) : (∃ child store'', inode.getChild name store' = .ok (some child) store'') ↔
      ∃ entry, findEntry name 0 (block.directoryEntries inode.fs.blockSize) = some (.ok entry) :=
    FATInode.getChild_ok_iff directory again name
  constructor
  · rintro ⟨names, _, listed, agree⟩
    rw [FATInode.listDir_eq directory read, listEntries_eq] at listed
    obtain ⟨all, rfl⟩ := EStateM.Result.ok.inj listed
    obtain ⟨groups, scanned, rfl⟩ := Option.map_eq_some_iff.1 all
    refine ⟨groups, scanned, fun g mem noNul => ?_⟩
    have child := (agree g.name).1 ⟨g.name, List.mem_map_of_mem mem, Utils.Strings.equals_self noNul⟩
    obtain ⟨g', mem', same⟩ := (findEntry_ok_iff _ scanned).1 ((found g.name).1 child)
    refine ⟨g', mem', ?_⟩
    rw [Utils.Strings.equals_iff.1 same]
    exact (Utils.Strings.equals_iff.1 (Utils.Strings.equals_self noNul)).symm
  · rintro ⟨groups, scanned, settled⟩
    refine ⟨groups.map Group.name, store', ?_, fun name => ?_⟩
    · rw [FATInode.listDir_eq directory read, listEntries_eq, scanned]
      rfl
    · rw [found name, findEntry_ok_iff name scanned]
      constructor
      · rintro ⟨listed, mem, same⟩
        obtain ⟨g, inGroups, rfl⟩ := List.mem_map.1 mem
        obtain ⟨g', mem', eq⟩ := settled g inGroups (Utils.Strings.noNul_of_equals same)
        exact ⟨g', mem', by rwa [eq]⟩
      · rintro ⟨g, mem, same⟩
        exact ⟨g.name, List.mem_map_of_mem ((List.takeWhile_sublist _).subset mem), same⟩

/-! ## Directories without read-only entries and longer names -/

/-- No lookup stops in a plain directory. -/
theorem scan_of_plain (plain : Groups Plain entries) :
    ∃ groups, scan 0 entries = some groups ∧ ∀ g ∈ groups, g.passes = true := by
  induction plain with
  | nil => exact ⟨[], rfl, by simp⟩
  | free free _ ih =>
    obtain ⟨groups, scanned, passes⟩ := ih
    exact ⟨groups, by rw [scan, if_pos free, scanned], passes⟩
  | @used longs entry entries complete used standard is _ ih =>
    obtain ⟨groups, scanned, passes⟩ := ih
    obtain ⟨few, writable⟩ := is
    have short : entry.isLongName = false := by
      rw [DirectoryEntry.isLongName, writable]
      decide
    match longs, few with
    | [], _ =>
      refine ⟨⟨entry.shortName, true⟩ :: groups, ?_, by simpa using passes⟩
      simp [scan, used, short, scanned]
    | [long], _ =>
      obtain ⟨attributes, order⟩ := complete.2 0 (by simp)
      simp only [List.get_eq_getElem, List.getElem_cons_zero, List.length_singleton, if_pos]
        at attributes order
      have inUse : long.isFree = false := by rw [DirectoryEntry.isFree, order]; decide
      have marked : long.isLongName = true := by
        rw [DirectoryEntry.isLongName, attributes]
        decide
      have final : long.isFinalEntry = true := by rw [DirectoryEntry.isFinalEntry, order]; decide
      refine ⟨⟨long.longCharacters ++ [], true⟩ :: groups, ?_, by simpa using passes⟩
      simp [scan, inUse, marked, DirectoryEntry.longName, final, short, scanned]

theorem settled_of_plain (plain : Groups Plain entries) : Settled entries := by
  obtain ⟨groups, scanned, passes⟩ := scan_of_plain plain
  refine ⟨groups, scanned, fun g mem _ => ⟨g, ?_, rfl⟩⟩
  rwa [List.takeWhile_eq_self_iff.2 passes]

/-- **When listing and lookup agree**: exactly if every name comes before the first group of long
entries that no standard entry seems to follow. They do if no entry is read-only and no name has more
than one long entry. -/
theorem agrees_iff (directory : inode.entry.isDirectory)
    (read : inode.fs.readClusterPoll inode.entry.firstCluster.toNat store = .ok block store') :
    (inode.Agrees store ↔ Settled (block.directoryEntries inode.fs.blockSize)) ∧
      (Groups Plain (block.directoryEntries inode.fs.blockSize) → inode.Agrees store) :=
  ⟨agrees_iff_settled directory read, fun plain =>
    (agrees_iff_settled directory read).2 (settled_of_plain plain)⟩

end

/-! ## A name in two long entries -/

/-- A volume whose cluster 2 starts with the given entries. -/
def directoryDevice (entries : List DirectoryEntry) : BlockDevice where
  image x := if 1024 ≤ x then (entries.flatMap DirectoryEntry.bytes).getD (x - 1024) 0 else 0
  failure _ := none

/-- The root of the volume. -/
def rootDirectory (entries : List DirectoryEntry) : FATInode where
  fs := .ofBootSector (directoryDevice entries)
    { bytesPerSector := 512, sectorsPerCluster := 1, reservedSectors := 1, fatCount := 1,
      sectorsPerFat32 := 1, rootCluster := 2 }
  entry := { name := [], size := 0, firstCluster := 2, attributes := 0x10 }

/-- `NOTES.TXT` -/
def notesEntry : DirectoryEntry :=
  ⟨[0x4e, 0x4f, 0x54, 0x45, 0x53, 0x20, 0x20, 0x20, 0x54, 0x58, 0x54, 0x20] ++ .replicate 20 0⟩

/-- The last character of `abcdefghijklmn` -/
def lastPart : DirectoryEntry :=
  ⟨[0x42, 0x6e, 0, 0, 0, 0xff, 0xff, 0xff, 0xff, 0xff, 0xff, 0x0f, 0, 0x5a] ++ .replicate 12 0xff ++
    [0, 0] ++ .replicate 4 0xff⟩

/-- The other characters -/
def firstPart : DirectoryEntry :=
  ⟨[0x01, 0x61, 0, 0x62, 0, 0x63, 0, 0x64, 0, 0x65, 0, 0x0f, 0, 0x5a, 0x66, 0, 0x67, 0, 0x68, 0,
    0x69, 0, 0x6a, 0, 0x6b, 0, 0, 0, 0x6c, 0, 0x6d, 0]⟩

/-- `ABCDEF~1` -/
def aliasEntry : DirectoryEntry :=
  ⟨[0x41, 0x42, 0x43, 0x44, 0x45, 0x46, 0x7e, 0x31, 0x20, 0x20, 0x20, 0x20] ++ .replicate 20 0⟩

def freeEntry : DirectoryEntry := ⟨.replicate 32 0⟩

/-- The block of the root. -/
def rootBlock (entries : List DirectoryEntry) : DataBlock := (rootDirectory entries).fs.block 1

theorem rootDirectory_read (entries : List DirectoryEntry) : ∃ store',
    (rootDirectory entries).fs.readClusterPoll 2 .empty = .ok (rootBlock entries) store' := by
  obtain ⟨store', read, -⟩ := FATFileSystem.readBlockPoll_of_readPoll (n := 1)
    (@FATFileSystem.Faithful.empty (rootDirectory entries).fs)
    (BlockDevice.readPoll_ok_iff.2 ⟨by exact ⟨1, rfl⟩, rfl, rfl⟩)
  have blocks : (rootDirectory entries).fs.numberOfFatBlocks = 1 := rfl
  refine ⟨store', ?_⟩
  rw [FATFileSystem.readClusterPoll, blocks]
  exact read

/-- The entries of a block that consists of whole entries. -/
theorem DataBlock.directoryEntries_of_data {block : DataBlock} {slots : List DirectoryEntry}
    (whole : ∀ entry ∈ slots, entry.bytes.length = DIRECTORY_ENTRY_SIZE)
    (data : block.data = slots.flatMap DirectoryEntry.bytes) :
    block.directoryEntries (slots.length * DIRECTORY_ENTRY_SIZE) = slots := by
  rw [directoryEntries, data, Nat.mul_div_cancel _ (by decide)]
  clear data
  induction slots with
  | nil => rfl
  | cons entry slots ih =>
    have size := whole entry List.mem_cons_self
    have rest := ih fun other mem => whole other (List.mem_cons_of_mem _ mem)
    rw [List.length_cons, List.range_succ_eq_map, List.map_cons, List.map_map, List.flatMap_cons,
      Nat.zero_mul, List.drop_zero, List.take_left' size]
    refine congrArg (entry :: ·) (Eq.trans (List.map_congr_left fun i _ => ?_) rest)
    rw [Function.comp_apply, Nat.succ_mul, Nat.add_comm, ← List.drop_drop, List.drop_left' size]

theorem length_flatMap_bytes {entries : List DirectoryEntry}
    (whole : ∀ entry ∈ entries, entry.bytes.length = DIRECTORY_ENTRY_SIZE) :
    (entries.flatMap DirectoryEntry.bytes).length = entries.length * DIRECTORY_ENTRY_SIZE := by
  induction entries with
  | nil => rfl
  | cons entry entries ih =>
    rw [List.flatMap_cons, List.length_append, whole entry List.mem_cons_self,
      ih fun other mem => whole other (List.mem_cons_of_mem _ mem), List.length_cons, Nat.succ_mul,
      Nat.add_comm]

theorem rootBlock_data {entries : List DirectoryEntry}
    (fits : (entries.flatMap DirectoryEntry.bytes).length ≤ 512) :
    (rootBlock entries).data = entries.flatMap DirectoryEntry.bytes ++
      .replicate (512 - (entries.flatMap DirectoryEntry.bytes).length) 0 := by
  have offset : (rootDirectory entries).fs.blockOffset 1 = 1024 := by
    simp [FATFileSystem.blockOffset, rootDirectory, FATFileSystem.ofBootSector]
  rw [rootBlock, FATFileSystem.block_data ⟨1, rfl⟩ ⟨1, rfl⟩, offset]
  refine List.ext_getElem ?_ fun i inside inside' => ?_
  · rw [List.length_append, List.length_replicate, Nat.add_sub_cancel' fits, List.length_map,
      List.length_range]
    rfl
  · have image : (rootDirectory entries).fs.device.image (1024 + i) =
        (entries.flatMap DirectoryEntry.bytes).getD i 0 := by
      show (if 1024 ≤ 1024 + i then _ else _) = _
      rw [if_pos (Nat.le_add_right _ _), Nat.add_sub_cancel_left]
    rw [List.getElem_map, List.getElem_range, image]
    rcases Nat.lt_or_ge i (entries.flatMap DirectoryEntry.bytes).length with lt | ge
    · rw [List.getElem_append_left lt, List.getD_eq_getElem?_getD, List.getElem?_eq_getElem lt,
        Option.getD_some]
    · rw [List.getElem_append_right ge, List.getElem_replicate, List.getD_eq_getElem?_getD,
        List.getElem?_eq_none ge, Option.getD_none]

/-- Behind its entries the root has free ones. -/
theorem rootBlock_slots {entries : List DirectoryEntry} (few : entries.length ≤ 16)
    (whole : ∀ entry ∈ entries, entry.bytes.length = DIRECTORY_ENTRY_SIZE) :
    (rootBlock entries).directoryEntries 512 =
      entries ++ .replicate (16 - entries.length) freeEntry := by
  have size := length_flatMap_bytes whole
  have zeros : (List.replicate (16 - entries.length) freeEntry).flatMap DirectoryEntry.bytes =
      .replicate ((16 - entries.length) * 32) 0 := by
    rw [List.flatMap_replicate]
    exact List.flatten_replicate_replicate
  have whole' : ∀ entry ∈ entries ++ .replicate (16 - entries.length) freeEntry,
      entry.bytes.length = DIRECTORY_ENTRY_SIZE := by
    intro entry mem
    rcases List.mem_append.1 mem with mem | mem
    · exact whole entry mem
    · rw [List.eq_of_mem_replicate mem]
      rfl
  have count : (entries ++ .replicate (16 - entries.length) freeEntry).length *
      DIRECTORY_ENTRY_SIZE = 512 := by
    rw [List.length_append, List.length_replicate, Nat.add_sub_cancel' few]
    rfl
  rw [← count]
  refine DataBlock.directoryEntries_of_data whole' ?_
  rw [rootBlock_data (by rw [size, DIRECTORY_ENTRY_SIZE]; omega), List.flatMap_append, zeros, size,
    Nat.sub_mul, DIRECTORY_ENTRY_SIZE]
theorem groups_free (kind : List DirectoryEntry → DirectoryEntry → Prop) (n : Nat) :
    Groups kind (.replicate n freeEntry) := by
  induction n with
  | zero => exact .nil
  | succ n ih => exact .free (by decide) ih

theorem agrees_iff_notes : (rootDirectory [notesEntry]).Agrees .empty := by
  obtain ⟨store', read⟩ := rootDirectory_read [notesEntry]
  have entries : (rootBlock [notesEntry]).directoryEntries 512 =
      [] ++ notesEntry :: .replicate 15 freeEntry := rootBlock_slots (by decide) (by decide)
  refine (agrees_iff rfl read).2 ?_
  show Groups Plain ((rootBlock [notesEntry]).directoryEntries 512)
  rw [entries]
  exact .used ⟨by decide, fun i h => absurd h (by simp)⟩ (by decide) (by decide) ⟨by decide, by decide⟩
    (groups_free _ _)

/-- The root holds one file, `abcdefghijklmn`, with both its long entries. Its listing has names that
cannot be looked up. -/
theorem long_name_not_found :
    Groups (fun _ _ => True)
      ((rootBlock [lastPart, firstPart, aliasEntry]).directoryEntries 512) ∧
    ¬ (rootDirectory [lastPart, firstPart, aliasEntry]).Agrees .empty := by
  have entries : (rootBlock [lastPart, firstPart, aliasEntry]).directoryEntries 512 =
      [lastPart, firstPart] ++ aliasEntry :: .replicate 13 freeEntry :=
    rootBlock_slots (by decide) (by decide)
  constructor
  · rw [entries]
    refine .used ⟨by decide, fun i h => ?_⟩ (by decide) (by decide) trivial (groups_free _ _)
    match i, h with
    | 0, _ => exact ⟨rfl, rfl⟩
    | 1, _ => exact ⟨rfl, rfl⟩
  · obtain ⟨store', read⟩ := rootDirectory_read [lastPart, firstPart, aliasEntry]
    rw [agrees_iff_settled rfl read]
    show ¬ Settled ((rootBlock [lastPart, firstPart, aliasEntry]).directoryEntries 512)
    rw [entries]
    decide +kernel

end MatteOS.FileSystem
