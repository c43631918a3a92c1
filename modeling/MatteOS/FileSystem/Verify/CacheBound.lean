import Mathlib.Data.List.Induction
import Mathlib.Data.List.Nodup
import MatteOS.FileSystem.Verify.BlockCache

/-!
# How large the block cache grows

`cache` puts a block in front of the list also when it came out of it, and `evict_block` takes
none away. The cache stays within its bound, without doubles, exactly as long as no call asks for
a block that an earlier one has read, and as at most 16 reads of the device succeed
(`bounded_iff`).
-/

namespace MatteOS.FileSystem

/-- The cache holds at most `MaxCacheSize` blocks, and no block number twice. -/
structure BlockStore.Bounded (store : BlockStore) : Prop where
  length : store.cache.length ≤ BlockStore.MAX_CACHE_SIZE
  nodup : (store.cache.map DataBlock.blockNumber).Nodup

namespace FATFileSystem

variable (fs : FATFileSystem)

/-- The blocks that calls read, if each of them reads the device. -/
def delivered (ns : List Nat) : List Nat :=
  (ns.zipIdx.filter fun p => fs.device.failure p.2 = none).map Prod.fst

/-- No call asks for a block that an earlier one has read, and at most 16 calls read one. -/
structure Sparing (ns : List Nat) : Prop where
  fresh : ∀ m (less : m < ns.length), ns[m] ∉ fs.delivered (ns.take m)
  few : (fs.delivered ns).length ≤ BlockStore.MAX_CACHE_SIZE

/-- The cache is bounded after each of the calls. -/
def StaysBounded (ns : List Nat) : Prop :=
  ∀ m ≤ ns.length, (fs.readBlocks (ns.take m)).Bounded

section

variable {fs : FATFileSystem} {ns : List Nat} {n : Nat}

/-! ## One call more -/

theorem delivered_append : fs.delivered (ns ++ [n]) =
    if fs.device.failure ns.length = none then fs.delivered ns ++ [n] else fs.delivered ns := by
  rw [delivered, List.zipIdx_append, List.filter_append, List.map_append, Nat.zero_add]
  cases failed : fs.device.failure ns.length with
  | none => simp [delivered, failed]
  | some error => simp [delivered, failed]

theorem delivered_length_le : (fs.delivered ns).length ≤ (fs.delivered (ns ++ [n])).length := by
  rw [delivered_append]
  split
  · rw [List.length_append]
    exact Nat.le_add_right _ _
  · exact Nat.le_refl _

theorem readBlocks_append : fs.readBlocks (ns ++ [n]) = fs.readStore (fs.readBlocks ns) n :=
  List.foldl_append

theorem staysBounded_append :
    fs.StaysBounded (ns ++ [n]) ↔ fs.StaysBounded ns ∧ (fs.readBlocks (ns ++ [n])).Bounded := by
  have length : (ns ++ [n]).length = ns.length + 1 := List.length_append
  constructor
  · intro bounded
    refine ⟨fun m inside => ?_, ?_⟩
    · have same : (ns ++ [n]).take m = ns.take m := List.take_append_of_le_length inside
      rw [← same]
      exact bounded m (by omega)
    · have last := bounded (ns.length + 1) (by omega)
      rwa [List.take_of_length_le (by omega)] at last
  · rintro ⟨before, last⟩ m inside
    rcases Nat.lt_or_eq_of_le inside with less | rfl
    · rw [List.take_append_of_le_length (by omega)]
      exact before m (by omega)
    · rwa [List.take_of_length_le (Nat.le_refl _)]

theorem sparing_append : fs.Sparing (ns ++ [n]) ↔
    fs.Sparing ns ∧ n ∉ fs.delivered ns ∧
      (fs.delivered (ns ++ [n])).length ≤ BlockStore.MAX_CACHE_SIZE := by
  have length : (ns ++ [n]).length = ns.length + 1 := List.length_append
  constructor
  · rintro ⟨fresh, few⟩
    refine ⟨⟨fun m less => ?_, Nat.le_trans delivered_length_le few⟩, ?_, few⟩
    · have old := fresh m (by omega)
      rwa [List.getElem_append_left less, List.take_append_of_le_length (by omega)] at old
    · have new := fresh ns.length (by omega)
      rwa [List.getElem_concat_length rfl, List.take_left] at new
  · rintro ⟨sparing, new, few⟩
    refine ⟨fun m less => ?_, few⟩
    rcases Nat.lt_or_eq_of_le (show m ≤ ns.length by omega) with inside | rfl
    · rw [List.getElem_append_left inside, List.take_append_of_le_length (by omega)]
      exact sparing.fresh m inside
    · rwa [List.getElem_concat_length rfl, List.take_left]

theorem Sparing.nodup (sparing : fs.Sparing ns) : (fs.delivered ns).Nodup := by
  induction ns using List.reverseRecOn with
  | nil => exact .nil
  | append_singleton ns n ih =>
    obtain ⟨before, new, -⟩ := sparing_append.1 sparing
    rw [delivered_append]
    split
    · exact List.nodup_append.2 ⟨ih before, List.pairwise_singleton _ _,
        fun a mem b last same => new (List.mem_singleton.1 last ▸ same ▸ mem)⟩
    · exact ih before

/-! ## The cache -/

/-- What calls that never find their block in the cache leave in it. -/
def Holds (fs : FATFileSystem) (ns : List Nat) : Prop :=
  (fs.readBlocks ns).cache.map DataBlock.blockNumber = (fs.delivered ns).reverse ∧
    (fs.readBlocks ns).reads = ns.length

theorem Holds.bounded_iff_few (holds : fs.Holds ns) : (fs.readBlocks ns).Bounded ↔
    (fs.delivered ns).length ≤ BlockStore.MAX_CACHE_SIZE ∧ (fs.delivered ns).Nodup := by
  have length : (fs.readBlocks ns).cache.length = (fs.delivered ns).length := by
    rw [← List.length_map DataBlock.blockNumber, holds.1, List.length_reverse]
  constructor
  · rintro ⟨few, nodup⟩
    rw [holds.1, List.nodup_reverse] at nodup
    exact ⟨length ▸ few, nodup⟩
  · rintro ⟨few, nodup⟩
    refine ⟨length ▸ few, ?_⟩
    rwa [holds.1, List.nodup_reverse]

theorem getBlockFromCache_eq_none_iff {store : BlockStore} :
    store.getBlockFromCache n = none ↔ n ∉ store.cache.map DataBlock.blockNumber := by
  rw [BlockStore.getBlockFromCache, List.find?_eq_none, List.mem_map]
  constructor
  · rintro missing ⟨block, mem, rfl⟩
    exact missing block mem (beq_iff_eq.2 rfl)
  · exact fun missing block mem same => missing ⟨block, mem, beq_iff_eq.1 same⟩

/-- A call that finds its block puts it into the cache once more. -/
theorem not_bounded_of_mem (holds : fs.Holds ns) (mem : n ∈ fs.delivered ns) :
    ¬ (fs.readBlocks (ns ++ [n])).Bounded := by
  have cached : n ∈ (fs.readBlocks ns).cache.map DataBlock.blockNumber := by
    rw [holds.1, List.mem_reverse]
    exact mem
  cases found : (fs.readBlocks ns).getBlockFromCache n with
  | none => exact absurd cached (getBlockFromCache_eq_none_iff.1 found)
  | some block =>
    have number : block.blockNumber = n := beq_iff_eq.1 (List.find?_some found :)
    intro bounded
    have nodup := bounded.nodup
    rw [readBlocks_append, readStore, readBlockPoll, found] at nodup
    simp only [BlockStore.cacheBlock_cache, List.map_cons, number] at nodup
    exact (List.nodup_cons.1 nodup).1 cached

/-- A call that does not find its block reads it. -/
theorem Holds.append (whole : SECTOR_SIZE ∣ fs.blockSize) (holds : fs.Holds ns)
    (new : n ∉ fs.delivered ns) : fs.Holds (ns ++ [n]) := by
  have missing : (fs.readBlocks ns).getBlockFromCache n = none := by
    rw [getBlockFromCache_eq_none_iff, holds.1, List.mem_reverse]
    exact new
  have sectors : ¬ fs.blockSize % SECTOR_SIZE ≠ 0 := by
    rw [not_not]
    exact Nat.mod_eq_zero_of_dvd whole
  rw [Holds, readBlocks_append, readStore, readBlockPoll, missing, delivered_append,
    List.length_append, BlockDevice.readPoll, if_neg sectors, holds.2]
  cases failed : fs.device.failure ns.length with
  | some error =>
    rw [if_neg nofun]
    exact ⟨holds.1, rfl⟩
  | none =>
    rw [if_pos rfl, List.reverse_append]
    simp only [BlockStore.cacheBlock_cache, BlockStore.cacheBlock_reads, List.map_cons, holds.1]
    exact ⟨rfl, rfl⟩

theorem Sparing.holds (whole : SECTOR_SIZE ∣ fs.blockSize) (sparing : fs.Sparing ns) :
    fs.Holds ns := by
  induction ns using List.reverseRecOn with
  | nil => exact ⟨rfl, rfl⟩
  | append_singleton ns n ih =>
    obtain ⟨before, new, -⟩ := sparing_append.1 sparing
    exact (ih before).append whole new

theorem staysBounded_iff_of_whole (whole : SECTOR_SIZE ∣ fs.blockSize) :
    fs.StaysBounded ns ↔ fs.Sparing ns := by
  induction ns using List.reverseRecOn with
  | nil =>
    refine ⟨fun _ => ⟨nofun, Nat.zero_le _⟩, fun _ m _ => ?_⟩
    rw [List.take_nil]
    exact ⟨Nat.zero_le _, .nil⟩
  | append_singleton ns n ih =>
    rw [staysBounded_append, sparing_append, ih]
    refine and_congr_right fun sparing => ?_
    have holds := sparing.holds whole
    by_cases mem : n ∈ fs.delivered ns
    · exact ⟨fun bounded => absurd bounded (not_bounded_of_mem holds mem),
        fun fresh => absurd mem fresh.1⟩
    · rw [(holds.append whole mem).bounded_iff_few]
      constructor
      · exact fun bounded => ⟨mem, bounded.1⟩
      · exact fun fresh => ⟨fresh.2, (sparing_append.2 ⟨sparing, fresh⟩).nodup⟩

/-- Without whole sectors every read fails. -/
theorem readBlocks_cache_of_not_whole (broken : ¬ SECTOR_SIZE ∣ fs.blockSize) :
    (fs.readBlocks ns).cache = [] := by
  induction ns using List.reverseRecOn with
  | nil => rfl
  | append_singleton ns n ih =>
    have sectors : fs.blockSize % SECTOR_SIZE ≠ 0 := fun zero =>
      broken (Nat.dvd_of_mod_eq_zero zero)
    have missing : (fs.readBlocks ns).getBlockFromCache n = none := by
      rw [BlockStore.getBlockFromCache, ih]
      rfl
    rw [readBlocks_append, readStore, readBlockPoll, missing, BlockDevice.readPoll, if_pos sectors]
    exact ih

end

/-- **The block cache is bounded** along a sequence of calls of `read_block_poll` exactly if no
block is asked for again after it was read, and at most 16 are read. -/
theorem bounded_iff (ns : List Nat) :
    fs.StaysBounded ns ↔ ¬ SECTOR_SIZE ∣ fs.blockSize ∨ fs.Sparing ns := by
  by_cases whole : SECTOR_SIZE ∣ fs.blockSize
  · rw [staysBounded_iff_of_whole whole]
    exact ⟨.inr, fun sparing => sparing.resolve_left (not_not_intro whole)⟩
  · refine ⟨fun _ => .inl whole, fun _ m _ => ?_⟩
    have empty : (fs.readBlocks (ns.take m)).cache = [] := readBlocks_cache_of_not_whole whole
    constructor
    · rw [empty]
      exact Nat.zero_le _
    · rw [empty]
      exact .nil

/-- A block of one sector is read twice. -/
theorem not_staysBounded_twice : ¬ StaysBounded
    { device := ⟨fun _ => 0, fun _ => none⟩, bootSector := ⟨512, 1, 1, 1, 1, 2⟩, blockSize := 512
      bytesPerCluster := 512, reservedAndFatOffset := 1024, fatStartOffset := 512
      numberOfFatBlocks := 1 } [0, 0] := by
  rw [staysBounded_iff_of_whole ⟨1, rfl⟩]
  intro sparing
  exact sparing.fresh 1 (by decide) (by decide)

end FATFileSystem

end MatteOS.FileSystem
