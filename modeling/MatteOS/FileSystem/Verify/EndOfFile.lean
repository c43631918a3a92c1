import MatteOS.FileSystem.Verify.FATRead

/-!
# Reads at the end of a file

`FATInode::read` caps the size with the sum of the offset and the size, which may overflow. A read
whose size is not capped goes on to the end of the chain of clusters, so that it leaves the file as
soon as the chain can be read up to the cluster behind the last byte (`storesAtMost_iff`).
-/

namespace MatteOS.FileSystem

open ByteMemory

section

variable {fs : FATFileSystem} {store store' : BlockStore}

namespace FATFileSystem

/-- A block that could be read is a whole one, and the cache stays that of the device. -/
theorem Faithful.of_readBlockPoll (faithful : fs.Faithful store) {n : Nat} {block : DataBlock}
    (read : fs.readBlockPoll n store = .ok block store') :
    block.data.length = fs.blockSize ∧ fs.Faithful store' := by
  rcases readBlockPoll_cases faithful n with ⟨store'', result, kept, -⟩ | ⟨error, -, result⟩
  · rw [read] at result
    cases result
    exact ⟨by simp [FATFileSystem.block, BlockDevice.bytes], kept⟩
  · rw [read] at result
    cases result

theorem Faithful.of_readClusterPoll (faithful : fs.Faithful store) {cluster : Nat}
    {block : DataBlock} (read : fs.readClusterPoll cluster store = .ok block store') :
    block.data.length = fs.blockSize ∧ fs.Faithful store' :=
  faithful.of_readBlockPoll read

theorem Faithful.of_getFatEntry (faithful : fs.Faithful store) {index : Nat} {entry : FATEntry}
    (found : fs.getFatEntry index store = .ok entry store') : fs.Faithful store' := by
  simp only [getFatEntry, bind, EStateM.bind] at found
  cases read : fs.readBlockPoll (index * 4 / fs.blockSize) store with
  | error error store'' =>
    rw [read] at found
    cases found
  | ok block store'' =>
    rw [read] at found
    cases found
    exact (faithful.of_readBlockPoll read).2

end FATFileSystem

namespace FATInode

theorem faithful_of_skipClusters {inode : FATInode} (faithful : inode.fs.Faithful store)
    {n first cluster : Nat} (skipped : inode.skipClusters n first store = .ok cluster store') :
    inode.fs.Faithful store' := by
  induction n generalizing first store with
  | zero =>
    cases skipped
    exact faithful
  | succ n ih =>
    simp only [skipClusters, bind, EStateM.bind] at skipped
    cases found : inode.fs.getFatEntry first store with
    | error error store'' =>
      rw [found] at skipped
      cases skipped
    | ok entry store'' =>
      rw [found] at skipped
      cases last : entry.isEndOfChain with
      | true =>
        simp only [last, if_true] at skipped
        cases skipped
      | false =>
        simp only [last, Bool.false_eq_true, if_false] at skipped
        exact ih (faithful.of_getFatEntry found) skipped

variable (inode : FATInode)

/-! ## What a read stores -/

/-- The read stores at most so many bytes, from the start of the buffer on, and reports at most as
many. -/
def StoresAtMost (buffer size offset : Nat) (store : BlockStore) (count : Nat) : Prop :=
  ∀ fuel memory value memory' store',
    inode.read fuel buffer size offset memory store = some (value, memory', store') →
    (∃ bytes, bytes.length ≤ count ∧ memory' = storeBytes memory buffer bytes) ∧
      ∀ n, value = .ok n → n ≤ count

/-- Read a cluster, and so many after it in the chain. -/
def readClusters : Nat → Nat → BlockM Unit
  | 0, currentCluster => do
    let _ ← inode.fs.readClusterPoll currentCluster
  | n + 1, currentCluster => do
    let _ ← inode.fs.readClusterPoll currentCluster
    let clusterEntry ← inode.fs.getFatEntry currentCluster
    if clusterEntry.isEndOfChain then
      throw "End of the chain"
    readClusters n clusterEntry.value

/-- The chain can be read from the cluster of the offset up to the cluster of the first byte after
the end of the file. -/
def ReadableBeyond (offset : Nat) (store : BlockStore) : Prop :=
  ∃ cluster store₁ store₂, inode.skipClusters (offset / inode.fs.bytesPerCluster)
      inode.entry.firstCluster.toNat store = .ok cluster store₁ ∧
    inode.readClusters (inode.entry.size.toNat / inode.fs.bytesPerCluster -
      offset / inode.fs.bytesPerCluster) cluster store₁ = .ok () store₂

/-- The second loop stores these bytes from the state on and ends so, whatever the memory holds. -/
def CopyOutcome (buffer size start : Nat) (s : Copying) (value : Except String Nat)
    (bytes : List (BitVec 8)) (store' : BlockStore) : Prop :=
  ∃ fuel, ∀ memory, Loop.run (inode.copyBody buffer size start) fuel { s with memory } =
    some (value, storeBytes memory (buffer + s.bytesRead) bytes, store')

/-- The cluster of the next byte lies `n` before that of the first byte after the end of the file,
and the size was not capped. -/
structure AtCluster (offset size n : Nat) (s : Copying) : Prop where
  large : 2 ^ 64 ≤ offset + size
  boundary : 0 < s.bytesRead → (offset + s.bytesRead) % inode.fs.bytesPerCluster = 0
  before : offset + s.bytesRead ≤ inode.entry.size.toNat
  left : (offset + s.bytesRead) / inode.fs.bytesPerCluster + n =
    inode.entry.size.toNat / inode.fs.bytesPerCluster

variable {inode} {buffer size offset start : Nat} {s : Copying} {value : Except String Nat}
  {bytes chunk : List (BitVec 8)}

theorem CopyOutcome.done (body : ∀ memory, inode.copyBody buffer size start { s with memory } =
    .done (value, storeBytes memory (buffer + s.bytesRead) bytes, store')) :
    inode.CopyOutcome buffer size start s value bytes store' :=
  ⟨1, fun memory => Loop.run_done (body memory) 0⟩

theorem CopyOutcome.again {currentCluster : Nat} {store₁ : BlockStore}
    (body : ∀ memory, inode.copyBody buffer size start { s with memory } =
      .again { memory := storeBytes memory (buffer + s.bytesRead) chunk, store := store₁,
               bytesRead := s.bytesRead + chunk.length, currentCluster })
    (rest : inode.CopyOutcome buffer size start
      ⟨s.memory, store₁, s.bytesRead + chunk.length, currentCluster⟩ value bytes store') :
    inode.CopyOutcome buffer size start s value (chunk ++ bytes) store' := by
  obtain ⟨fuel, run⟩ := rest
  refine ⟨fuel + 1, fun memory => ?_⟩
  rw [Loop.run_again (body memory)]
  have outcome := run (storeBytes memory (buffer + s.bytesRead) chunk)
  rw [← Nat.add_assoc, storeBytes_append] at outcome
  exact outcome

/-- The end of the cluster of the next byte. -/
theorem end_of_cluster (positive : 0 < inode.fs.bytesPerCluster) (length : chunk.length =
      inode.fs.bytesPerCluster - (offset + s.bytesRead) % inode.fs.bytesPerCluster) :
    offset + (s.bytesRead + chunk.length) = inode.fs.bytesPerCluster *
      ((offset + s.bytesRead) / inode.fs.bytesPerCluster + 1) := by
  have split := Nat.div_add_mod (offset + s.bytesRead) inode.fs.bytesPerCluster
  have less := Nat.mod_lt (offset + s.bytesRead) positive
  rw [Nat.mul_add, Nat.mul_one]
  omega

namespace AtCluster

variable {n : Nat}

/-- The next byte is not past the bytes of the file. -/
theorem bytesRead_le (at_ : inode.AtCluster offset size n s) :
    s.bytesRead ≤ inode.entry.size.toNat - offset := by
  have before := at_.before
  omega

/-- The last cluster reaches past the end of the file. -/
theorem lt_of_last (at_ : inode.AtCluster offset size 0 s)
    (positive : 0 < inode.fs.bytesPerCluster) (length : chunk.length =
      inode.fs.bytesPerCluster - (offset + s.bytesRead) % inode.fs.bytesPerCluster) :
    inode.entry.size.toNat - offset < s.bytesRead + chunk.length := by
  have next := end_of_cluster positive length
  have left := at_.left
  rw [Nat.add_zero] at left
  have past := Nat.lt_mul_div_succ inode.entry.size.toNat positive
  rw [left] at next
  have before := at_.before
  omega

/-- The cluster after one that is not the last. -/
theorem succ (at_ : inode.AtCluster offset size (n + 1) s)
    (positive : 0 < inode.fs.bytesPerCluster) (length : chunk.length =
      inode.fs.bytesPerCluster - (offset + s.bytesRead) % inode.fs.bytesPerCluster)
    (memory : Memory) (store₁ : BlockStore) (cluster : Nat) :
    inode.AtCluster offset size n ⟨memory, store₁, s.bytesRead + chunk.length, cluster⟩ := by
  have next := end_of_cluster positive length
  have left := at_.left
  refine ⟨at_.large, fun _ => ?_, ?_, ?_⟩
  · change (offset + (s.bytesRead + chunk.length)) % _ = 0
    rw [next, Nat.mul_mod_right]
  · change offset + (s.bytesRead + chunk.length) ≤ _
    rw [next]
    exact Nat.le_trans (Nat.mul_le_mul_left _ (by omega))
      (Nat.mul_div_le inode.entry.size.toNat inode.fs.bytesPerCluster)
  · change (offset + (s.bytesRead + chunk.length)) / _ + n = _
    rw [next, Nat.mul_div_cancel_left _ positive]
    omega

end AtCluster

/-- The place of the next byte in its cluster. -/
theorem AtCluster.offsetInCluster {n : Nat} (at_ : inode.AtCluster offset size n s) :
    (if s.bytesRead = 0 then offset % inode.fs.bytesPerCluster else 0) =
      (offset + s.bytesRead) % inode.fs.bytesPerCluster := by
  split
  case isTrue first => rw [first, Nat.add_zero]
  case isFalse later => rw [at_.boundary (Nat.pos_of_ne_zero later)]

/-- The second loop stops after a cluster: it has left the file if that was the last one. -/
theorem AtCluster.stop_iff {n : Nat} (at_ : inode.AtCluster offset size n s)
    (positive : 0 < inode.fs.bytesPerCluster) (length : chunk.length =
      inode.fs.bytesPerCluster - (offset + s.bytesRead) % inode.fs.bytesPerCluster)
    {block : DataBlock} {store₁ : BlockStore}
    (read : inode.fs.readClusterPoll s.currentCluster s.store = .ok block store₁)
    (stops : ∀ n store₂, inode.readClusters (n + 1) s.currentCluster s.store ≠ .ok () store₂) :
    inode.entry.size.toNat - offset < s.bytesRead + chunk.length ↔
      ∃ store₂, inode.readClusters n s.currentCluster s.store = .ok () store₂ := by
  cases n with
  | zero =>
    refine ⟨fun _ => ⟨store₁, ?_⟩, fun _ => at_.lt_of_last positive length⟩
    simp only [readClusters, bind, EStateM.bind, read]
    rfl
  | succ n =>
    have inside := (at_.succ positive length s.memory store₁ 0).bytesRead_le
    exact ⟨fun past => absurd inside (Nat.not_le.2 past), fun ⟨store₂, clusters⟩ =>
      absurd clusters (stops n store₂)⟩

/-- **The second loop** ends, with a number of bytes that is at most the size. From a state in which
the size was not capped it stores a byte after the end of the file exactly if it can read the
clusters up to there. -/
theorem exists_copyOutcome (positive : 0 < inode.fs.bytesPerCluster) (sized : inode.fs.Sized)
    (buffer size offset : Nat) (m : Nat) (s : Copying) (measure : size - s.bytesRead < m)
    (bounded : s.bytesRead ≤ size) (faithful : inode.fs.Faithful s.store) :
    ∃ value bytes store',
      inode.CopyOutcome buffer size (offset % inode.fs.bytesPerCluster) s value bytes store' ∧
      s.bytesRead + bytes.length ≤ size ∧
      (∀ n, value = .ok n → n = s.bytesRead + bytes.length) ∧
      ∀ n, inode.AtCluster offset size n s →
        (inode.entry.size.toNat - offset < s.bytesRead + bytes.length ↔
          ∃ store₁, inode.readClusters n s.currentCluster s.store = .ok () store₁) := by
  induction m generalizing s with
  | zero => omega
  | succ m ih =>
    have file := inode.entry.size.isLt
    have small := sized.cluster_lt
    by_cases more : s.bytesRead < size
    case neg =>
      refine ⟨.ok s.bytesRead, [], s.store, .done fun memory => ?_, bounded, fun n same => ?_,
        fun n at_ => ?_⟩
      · simp only [copyBody, if_neg more, storeBytes_nil]
      · cases same
        rfl
      · have large := at_.large
        have before := at_.before
        omega
    generalize place : (if s.bytesRead = 0 then offset % inode.fs.bytesPerCluster else 0) = start
    have room : start < inode.fs.bytesPerCluster := by
      rw [← place]
      split
      · exact Nat.mod_lt _ positive
      · exact positive
    cases read : inode.fs.readClusterPoll s.currentCluster s.store with
    | error error store₁ =>
      refine ⟨.error error, [], store₁, .done fun memory => ?_, bounded, fun n same => ?_,
        fun n at_ => ⟨fun past => absurd at_.bytesRead_le (Nat.not_le.2 past), ?_⟩⟩
      · simp only [copyBody, if_pos more, read, storeBytes_nil]
      · cases same
      · rintro ⟨store₂, clusters⟩
        cases n <;> simp [readClusters, bind, EStateM.bind, read] at clusters
    | ok block store₁ =>
      obtain ⟨length, kept⟩ := faithful.of_readClusterPoll read
      rw [sized.block] at length
      generalize copied : (block.data.drop start).take
        (min (size - s.bytesRead) (inode.fs.bytesPerCluster - start)) = chunk
      have count : chunk.length =
          min (size - s.bytesRead) (inode.fs.bytesPerCluster - start) := by
        rw [← copied, List.length_take, List.length_drop, length]
        exact Nat.min_eq_left (Nat.min_le_right _ _)
      by_cases last : s.bytesRead + chunk.length < size
      case neg =>
        have full : s.bytesRead + chunk.length = size := by omega
        obtain ⟨value, bytes, store', rest, total, reported, -⟩ := ih
          ⟨s.memory, store₁, s.bytesRead + chunk.length, s.currentCluster⟩
          (by change size - (s.bytesRead + chunk.length) < m; omega)
          (Nat.le_of_eq full) kept
        refine ⟨value, chunk ++ bytes, store', rest.again fun memory => ?_, ?_, ?_, fun n at_ => ?_⟩
        · rw [← count] at copied
          simp only [copyBody, if_pos more, read, place, ← count, copied, if_neg last]
        · rwa [List.length_append, ← Nat.add_assoc]
        · rwa [List.length_append, ← Nat.add_assoc]
        · have large := at_.large
          have before := at_.before
          omega
      have whole : chunk.length = inode.fs.bytesPerCluster - start := by omega
      rw [← count] at copied
      cases found : inode.fs.getFatEntry s.currentCluster store₁ with
      | error error store₂ =>
        refine ⟨.error error, chunk, store₂, .done fun memory => ?_, Nat.le_of_lt last,
          fun n same => ?_, fun n at_ => ?_⟩
        · simp only [copyBody, if_pos more, read, place, ← count, copied, if_pos last, found]
        · cases same
        · rw [← place, at_.offsetInCluster] at whole
          refine at_.stop_iff positive whole read fun n store₃ clusters => ?_
          simp [readClusters, bind, EStateM.bind, read, found] at clusters
      | ok entry store₂ =>
        cases ends : entry.isEndOfChain with
        | true =>
          refine ⟨.ok (s.bytesRead + chunk.length), chunk, store₂, .done fun memory => ?_,
            Nat.le_of_lt last, fun n same => ?_, fun n at_ => ?_⟩
          · simp only [copyBody, if_pos more, read, place, ← count, copied, if_pos last, found, ends,
              if_true]
          · cases same
            rfl
          · rw [← place, at_.offsetInCluster] at whole
            refine at_.stop_iff positive whole read fun n store₃ clusters => ?_
            simp only [readClusters, bind, EStateM.bind, read, found, ends, if_true] at clusters
            cases clusters
        | false =>
          obtain ⟨value, bytes, store', rest, total, reported, past⟩ := ih
            ⟨s.memory, store₂, s.bytesRead + chunk.length, entry.value⟩
            (by change size - (s.bytesRead + chunk.length) < m; omega)
            (Nat.le_of_lt last) (kept.of_getFatEntry found)
          refine ⟨value, chunk ++ bytes, store', rest.again fun memory => ?_, ?_, ?_,
            fun n at_ => ?_⟩
          · simp only [copyBody, if_pos more, read, place, ← count, copied, if_pos last, found, ends]
            rfl
          · rwa [List.length_append, ← Nat.add_assoc]
          · rwa [List.length_append, ← Nat.add_assoc]
          · rw [← place, at_.offsetInCluster] at whole
            rw [List.length_append, ← Nat.add_assoc]
            cases n with
            | zero =>
              have past := at_.lt_of_last positive whole
              refine ⟨fun _ => ⟨store₁, ?_⟩, fun _ => Nat.lt_of_lt_of_le past (Nat.le_add_right _ _)⟩
              simp only [readClusters, bind, EStateM.bind, read]
              rfl
            | succ n =>
              rw [past n (at_.succ positive whole s.memory store₂ entry.value)]
              simp only [readClusters, bind, EStateM.bind, read, found, ends, Bool.false_eq_true,
                if_false]

/-! ## Reads -/

/-- A read has one result, with whatever fuel it is reached. -/
theorem read_unique {fuel fuel' : Nat} {memory : Memory} {r r' : ReadResult}
    (run : inode.read fuel buffer size offset memory store = some r)
    (run' : inode.read fuel' buffer size offset memory store = some r') : r = r' := by
  unfold read at run run'
  dsimp only at run run'
  split at run
  case isTrue past =>
    rw [if_pos past] at run'
    exact Option.some.inj (run.symm.trans run')
  case isFalse inside =>
    rw [if_neg inside] at run'
    split at run
    case h_1 failed =>
      rw [failed] at run'
      exact Option.some.inj (run.symm.trans run')
    case h_2 skipped =>
      rw [skipped] at run'
      exact Loop.run_unique run run'

/-- A read whose result holds for every memory stores the bytes of that result. -/
theorem storesAtMost_iff_length_le {count : Nat} {result : BlockStore} {fuel : Nat}
    (run : ∀ memory, inode.read fuel buffer size offset memory store =
      some (value, storeBytes memory buffer bytes, result))
    (reported : ∀ n, value = .ok n → n = bytes.length) :
    inode.StoresAtMost buffer size offset store count ↔ bytes.length ≤ count := by
  constructor
  · intro stores
    by_contra more
    have inside : count < bytes.length := Nat.not_le.1 more
    -- a memory in which the byte after the allowed ones is another one
    obtain ⟨few, short, same⟩ := (stores fuel (fun _ => bytes[count] + 1) _ _ _ (run _)).1
    have stored := @storeBytes_apply_inside (fun _ => bytes[count] + 1) buffer count bytes inside
    rw [same, storeBytes_apply_of_outside _ fun i less => by omega] at stored
    exact absurd stored (by simp)
  · intro short fuel' memory value' memory' store' run'
    cases read_unique (run memory) run'
    exact ⟨⟨bytes, short, rfl⟩, fun n same => reported n same ▸ short⟩

theorem storesAtMost_of_unchanged {count : Nat} {result : BlockStore} {fuel : Nat}
    (run : ∀ memory, inode.read fuel buffer size offset memory store = some (value, memory, result))
    (reported : ∀ n, value = .ok n → n = 0) :
    inode.StoresAtMost buffer size offset store count := by
  have stored : ∀ memory, inode.read fuel buffer size offset memory store =
      some (value, storeBytes memory buffer [], result) := fun memory => by
    rw [run, storeBytes_nil]
  exact (storesAtMost_iff_length_le stored reported).2 (Nat.zero_le _)

/-- **A read stays within the file** exactly if its offset is past the end, the sum of offset and
size does not overflow, the overflown sum is still large enough to be capped, or the chain cannot be
read beyond the end of the file. -/
theorem storesAtMost_iff_of_faithful (positive : 0 < inode.fs.bytesPerCluster) (sized : inode.fs.Sized)
    (faithful : inode.fs.Faithful store) (buffer : Nat) (size offset : BitVec 64) :
    inode.StoresAtMost buffer size.toNat offset.toNat store
        (inode.entry.size.toNat - offset.toNat) ↔
      inode.entry.size.toNat ≤ offset.toNat ∨ offset.toNat + size.toNat < 2 ^ 64 ∨
      inode.entry.size.toNat < offset.toNat + size.toNat - 2 ^ 64 ∨
      ¬ inode.ReadableBeyond offset.toNat store := by
  have hsize := size.isLt
  have hoffset := offset.isLt
  by_cases past : inode.entry.size.toNat ≤ offset.toNat
  case pos =>
    have unchanged : ∀ memory, inode.read 0 buffer size.toNat offset.toNat memory store =
        some (.ok 0, memory, store) := fun memory => by
      rw [read, if_pos past]
    refine ⟨fun _ => .inl past, fun _ => storesAtMost_of_unchanged unchanged fun n same => ?_⟩
    cases same
    rfl
  cases skipped : inode.skipClusters (offset.toNat / inode.fs.bytesPerCluster)
    inode.entry.firstCluster.toNat store with
  | error error store₁ =>
    have unchanged : ∀ memory, inode.read 0 buffer size.toNat offset.toNat memory store =
        some (.error error, memory, store₁) := fun memory => by
      simp only [read, if_neg past, skipped]
    refine ⟨fun _ => .inr (.inr (.inr ?_)), fun _ => storesAtMost_of_unchanged unchanged ?_⟩
    · rintro ⟨cluster, store₁, -, skipped', -⟩
      rw [skipped] at skipped'
      cases skipped'
    · intro n same
      cases same
  | ok cluster store₁ =>
    generalize capped : (if inode.entry.size.toNat < (offset.toNat + size.toNat) % 2 ^ 64 then
      inode.entry.size.toNat - offset.toNat else size.toNat) = count
    obtain ⟨value, bytes, store', ⟨fuel, run⟩, total, reported, beyond⟩ := exists_copyOutcome
      positive sized buffer count offset.toNat (count + 1) ⟨fun _ => 0, store₁, 0, cluster⟩
      (Nat.lt_succ_self _) (Nat.zero_le _) (faithful_of_skipClusters faithful skipped)
    simp only [Nat.zero_add, Nat.add_zero] at run total reported beyond
    have result : ∀ memory, inode.read fuel buffer size.toNat offset.toNat memory store =
        some (value, storeBytes memory buffer bytes, store') := fun memory => by
      rw [← run memory]
      simp only [read, if_neg past, skipped, capped]
    rw [storesAtMost_iff_length_le result reported]
    by_cases wraps : 2 ^ 64 ≤ offset.toNat + size.toNat ∧
        offset.toNat + size.toNat - 2 ^ 64 ≤ inode.entry.size.toNat
    case neg =>
      have short : count ≤ inode.entry.size.toNat - offset.toNat := by
        rw [← capped]
        split <;> omega
      exact ⟨fun _ => by omega, fun _ => Nat.le_trans total short⟩
    obtain ⟨large, small⟩ := wraps
    have uncapped : size.toNat = count := by
      rw [← capped, if_neg (by omega)]
    have quotient := Nat.div_le_div_right (c := inode.fs.bytesPerCluster) (Nat.le_of_not_le past)
    have clusters := beyond (inode.entry.size.toNat / inode.fs.bytesPerCluster -
      offset.toNat / inode.fs.bytesPerCluster) {
        large := uncapped ▸ large
        boundary := fun h => absurd h (Nat.lt_irrefl 0)
        before := Nat.le_of_not_le past
        left := Nat.add_sub_cancel' quotient }
    rw [← Nat.not_lt, clusters]
    constructor
    · rintro stops
      refine .inr (.inr (.inr ?_))
      rintro ⟨cluster', store₁', store₂, skipped', read⟩
      rw [skipped] at skipped'
      cases skipped'
      exact stops ⟨store₂, read⟩
    · rintro (inside | sum | sum | stops)
      · exact absurd inside past
      · omega
      · omega
      · rintro ⟨store₂, read⟩
        exact stops ⟨cluster, store₁, store₂, skipped, read⟩

end FATInode

end

namespace FATInode

/-- **Reads never go past the end of a file** exactly when the cap of the size takes effect or the
chain ends in time, on every volume after any reads of its blocks. -/
theorem storesAtMost_iff (device : BlockDevice) (fat32 : BootSector32) (entry : FullDirectoryEntry)
    (positive : 0 < (FATFileSystem.ofBootSector device fat32).bytesPerCluster) (ns : List Nat)
    (buffer : Nat) (size offset : BitVec 64) :
    (FATInode.mk (.ofBootSector device fat32) entry).StoresAtMost buffer size.toNat offset.toNat
        ((FATFileSystem.ofBootSector device fat32).readBlocks ns)
        (entry.size.toNat - offset.toNat) ↔
      entry.size.toNat ≤ offset.toNat ∨ offset.toNat + size.toNat < 2 ^ 64 ∨
      entry.size.toNat < offset.toNat + size.toNat - 2 ^ 64 ∨
      ¬ (FATInode.mk (.ofBootSector device fat32) entry).ReadableBeyond offset.toNat
        ((FATFileSystem.ofBootSector device fat32).readBlocks ns) :=
  @storesAtMost_iff_of_faithful _ (FATInode.mk (.ofBootSector device fat32) entry) positive
    (FATFileSystem.ofBootSector_sized device fat32) (FATFileSystem.readBlocks_faithful _ ns) buffer
    size offset

/-- A file of less than a cluster. -/
def shortEntry : FullDirectoryEntry :=
  { name := [], size := 100, firstCluster := 3, attributes := 0 }

theorem storesAtMost_iff_short :
    (FATInode.mk (.ofBootSector File.twoClusterDevice File.oneSectorBoot) shortEntry).StoresAtMost
      0x1000 (2 ^ 64 - 2) 1
      ((FATFileSystem.ofBootSector File.twoClusterDevice File.oneSectorBoot).readBlocks [1]) 99 :=
  (storesAtMost_iff File.twoClusterDevice File.oneSectorBoot shortEntry (by decide) [1] 0x1000
    (-2) 1).2 (.inr (.inl (by decide)))

/-- A read of 2 ^ 64 - 1 bytes from the second byte on. -/
theorem not_storesAtMost : ¬ ∀ (device : BlockDevice) (fat32 : BootSector32)
    (entry : FullDirectoryEntry), 0 < (FATFileSystem.ofBootSector device fat32).bytesPerCluster →
    ∀ (ns : List Nat) (buffer : Nat) (size offset : BitVec 64),
    (FATInode.mk (.ofBootSector device fat32) entry).StoresAtMost buffer size.toNat offset.toNat
      ((FATFileSystem.ofBootSector device fat32).readBlocks ns)
      (entry.size.toNat - offset.toNat) := by
  intro stores
  have inside := stores File.twoClusterDevice File.oneSectorBoot shortEntry (by decide) [] 0x1000
    (-1) 1
  have readable : (FATFileSystem.ofBootSector File.twoClusterDevice File.oneSectorBoot).Readable :=
    ⟨⟨by decide, by decide, by decide⟩, by decide, by decide, fun _ => rfl⟩
  have sized := FATFileSystem.ofBootSector_sized File.twoClusterDevice File.oneSectorBoot
  have faithful := FATFileSystem.readBlocks_faithful
    (FATFileSystem.ofBootSector File.twoClusterDevice File.oneSectorBoot) []
  obtain ⟨block, store', read, -⟩ := FATFileSystem.readClusterPoll_eq readable sized faithful
    (Nat.le_succ 2) (by decide)
  rcases (@storesAtMost_iff_of_faithful _ ⟨.ofBootSector _ _, shortEntry⟩ (readable.readsBlocks sized).positive sized
    faithful 0x1000 (-1) 1).1 inside with past | sum | sum | stops
  · exact absurd past (by decide)
  · exact absurd sum (by decide)
  · exact absurd sum (by decide)
  · refine stops ⟨3, _, store', rfl, ?_⟩
    change (do let _ ← FATFileSystem.readClusterPoll _ 3) _ = _
    simp only [bind, EStateM.bind, read]
    rfl

end FATInode

end MatteOS.FileSystem
