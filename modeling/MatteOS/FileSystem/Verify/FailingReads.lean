import MatteOS.FileSystem.Verify.EndOfFile
import MatteOS.FileSystem.Verify.FATRead

/-!
# Reads of a device that may fail

On a device whose reads may fail, each step of `FATInode::read` gives what it gives on a device
with the same bytes that does not fail, or it ends the read with an error. So a file never delivers
other bytes than its contents, and a read that ends with an error has touched nothing outside of
the buffer (`read_cases`).
-/

namespace MatteOS.FileSystem

open ByteMemory

/-- The volume on a device that does not fail. -/
def FATFileSystem.flawless (fs : FATFileSystem) : FATFileSystem :=
  { fs with device := { fs.device with failure := fun _ => none } }

def FATInode.flawless (inode : FATInode) : FATInode := { inode with fs := inode.fs.flawless }

section

variable {fs : FATFileSystem} {store store' : BlockStore} {α β : Type}

namespace FATFileSystem

theorem flawless_sized : fs.flawless.Sized ↔ fs.Sized :=
  ⟨fun h => ⟨h.block, h.perCluster, h.offset, h.fats, h.blocks⟩,
    fun h => ⟨h.block, h.perCluster, h.offset, h.fats, h.blocks⟩⟩

/-- From a faithful cache, a step gives what another gives, or it fails. Either way the cache stays
faithful. -/
def FailsOr (fs : FATFileSystem) (m m' : BlockM α) : Prop :=
  ∀ store, fs.Faithful store →
    (∃ a store', m store = .ok a store' ∧ m' store = .ok a store' ∧ fs.Faithful store') ∨
      ∃ error store', m store = .error error store' ∧ fs.Faithful store'

namespace FailsOr

theorem pure (a : α) : fs.FailsOr (Pure.pure a) (Pure.pure a) :=
  fun store faithful => .inl ⟨a, store, rfl, rfl, faithful⟩

theorem throw (error : String) (m' : BlockM α) : fs.FailsOr (MonadExcept.throw error) m' :=
  fun store faithful => .inr ⟨error, store, rfl, faithful⟩

theorem bind {m m' : BlockM α} {f f' : α → BlockM β} (h : fs.FailsOr m m')
    (hf : ∀ a, fs.FailsOr (f a) (f' a)) : fs.FailsOr (m >>= f) (m' >>= f') := by
  intro store faithful
  rcases h store faithful with ⟨a, store', ok, ok', kept⟩ | ⟨error, store', failed, kept⟩
  · have left : (m >>= f) store = f a store' := by simp only [Bind.bind, EStateM.bind, ok]
    have right : (m' >>= f') store = f' a store' := by simp only [Bind.bind, EStateM.bind, ok']
    rw [left, right]
    exact hf a store' kept
  · exact .inr ⟨error, store', by simp only [Bind.bind, EStateM.bind, failed], kept⟩

end FailsOr

theorem readBlockPoll_failsOr (n : Nat) :
    fs.FailsOr (fs.readBlockPoll n) (fs.flawless.readBlockPoll n) := by
  intro store faithful
  rcases readBlockPoll_cases faithful n with ⟨store', ok, kept, whole⟩ | ⟨error, -, failed⟩
  · refine .inl ⟨fs.block n, store', ok, ?_, kept⟩
    -- what is not in the cache is read from the device that does not fail
    unfold readBlockPoll at ok ⊢
    cases cached : store.getBlockFromCache n with
    | some block =>
      rw [cached] at ok
      exact ok
    | none =>
      have read : fs.flawless.device.readPoll fs.flawless.blockSize (fs.flawless.blockOffset n)
          store.reads = .ok (fs.block n).data :=
        BlockDevice.readPoll_ok_iff.2 ⟨whole, rfl, rfl⟩
      simp only [cached] at ok
      simp only [read]
      cases poll : fs.device.readPoll fs.blockSize (fs.blockOffset n) store.reads with
      | error error =>
        rw [poll] at ok
        cases ok
      | ok bytes =>
        obtain ⟨-, -, rfl⟩ := BlockDevice.readPoll_ok_iff.1 poll
        rw [poll] at ok
        exact ok
  · exact .inr ⟨error, _, failed, faithful⟩

theorem getFatEntry_failsOr (index : Nat) :
    fs.FailsOr (fs.getFatEntry index) (fs.flawless.getFatEntry index) :=
  (readBlockPoll_failsOr _).bind fun _ => .pure _

theorem readClusterPoll_failsOr (cluster : Nat) :
    fs.FailsOr (fs.readClusterPoll cluster) (fs.flawless.readClusterPoll cluster) :=
  readBlockPoll_failsOr _

end FATFileSystem

namespace FATInode

variable {inode : FATInode}

theorem skipClusters_failsOr (n cluster : Nat) :
    inode.fs.FailsOr (inode.skipClusters n cluster) (inode.flawless.skipClusters n cluster) := by
  induction n generalizing cluster with
  | zero => exact .pure _
  | succ n ih =>
    refine (FATFileSystem.getFatEntry_failsOr cluster).bind fun entry => ?_
    cases entry.isEndOfChain with
    | true => exact .throw _ _
    | false => exact ih entry.value

variable {memory : Memory} {buffer offset size : Nat} {s : Copying}

/-- A read that ends with an error may have written to the buffer. -/
structure GaveUp (inode : FATInode) (memory : Memory) (buffer size : Nat) (result : ReadResult) :
    Prop where
  error : ∃ error, result.1 = .error error
  outside : ∀ x, x < buffer ∨ buffer + size ≤ x → result.2.1 x = memory x
  faithful : inode.fs.Faithful result.2.2

/-- Writes to the buffer are not seen outside. -/
theorem storeBytes_outside {bytes : List (BitVec 8)} {start x : Nat}
    (room : start + bytes.length ≤ size) (outside : x < buffer ∨ buffer + size ≤ x) (m : Memory) :
    storeBytes m (buffer + start) bytes x = m x :=
  storeBytes_apply_of_outside m fun i hi => by omega

/-- **One turn of the second loop** is that of a device that does not fail, or ends the read. -/
theorem copyBody_failsOr (copied : Copied inode.flawless memory buffer offset size s) (start : Nat) :
    inode.copyBody buffer size start s = inode.flawless.copyBody buffer size start s ∨
      ∃ result, inode.copyBody buffer size start s = .done result ∧
        inode.GaveUp memory buffer size result := by
  obtain ⟨faithful, memory_eq, bounded, -, -⟩ := copied
  have before (x : Nat) (outside : x < buffer ∨ buffer + size ≤ x) : s.memory x = memory x := by
    have room : 0 + (bytesFrom inode.flawless offset s.bytesRead).length ≤ size := by simpa using bounded
    rw [memory_eq]
    exact storeBytes_outside room outside memory
  by_cases more : s.bytesRead < size
  swap
  · exact .inl (by rw [copyBody, copyBody, if_neg more, if_neg more])
  rcases @FATFileSystem.readClusterPoll_failsOr inode.fs s.currentCluster s.store faithful with
    ⟨block, store₁, read, read', kept⟩ | ⟨error, store₁, failed, kept⟩
  swap
  · refine .inr ⟨(.error error, s.memory, store₁), ?_, ⟨error, rfl⟩, before, kept⟩
    simp only [copyBody, if_pos more, failed]
  have perCluster : inode.flawless.fs.bytesPerCluster = inode.fs.bytesPerCluster := rfl
  have read'' : inode.flawless.fs.readClusterPoll s.currentCluster s.store = .ok block store₁ :=
    read'
  simp only [copyBody, if_pos more, read, read'', perCluster]
  generalize (if s.bytesRead = 0 then start else 0) = offsetInCluster
  generalize count : min (size - s.bytesRead) (inode.fs.bytesPerCluster - offsetInCluster) = n
  by_cases last : s.bytesRead + n < size
  swap
  · exact .inl (by simp only [if_neg last])
  simp only [if_pos last]
  rcases @FATFileSystem.getFatEntry_failsOr inode.fs s.currentCluster store₁ kept with
    ⟨entry, store₂, found, found', -⟩ | ⟨error, store₂, failed, kept'⟩
  · have found'' : inode.flawless.fs.getFatEntry s.currentCluster store₁ = .ok entry store₂ :=
      found'
    exact .inl (by simp only [found, found''])
  · refine .inr ⟨(.error error, storeBytes s.memory (buffer + s.bytesRead)
      ((block.data.drop offsetInCluster).take n), store₂), by simp only [failed], ⟨error, rfl⟩,
      fun x outside => ?_, kept'⟩
    have short : ((block.data.drop offsetInCluster).take n).length ≤ n := List.length_take_le _ _
    exact (storeBytes_outside (by omega) outside _).trans (before x outside)

/-- A read that is finalized has delivered the bytes from the offset on, as many as are left. -/
structure Delivered (inode : FATInode) (memory : Memory) (buffer size offset : Nat)
    (result : ReadResult) : Prop where
  value : result.1 = .ok (min size (inode.entry.size.toNat - offset))
  memory_eq : result.2.1 = storeBytes memory buffer
    ((inode.contents.drop offset).take (min size (inode.entry.size.toNat - offset)))
  faithful : inode.fs.Faithful result.2.2

/-- **A read** of a file whose clusters are chained returns. It delivers the bytes from the offset
on, or it ends with an error, which the device is the cause of. -/
theorem read_cases (readable : inode.fs.flawless.Readable) (sized : inode.fs.Sized)
    (chained : inode.flawless.Chained) (faithful : inode.fs.Faithful store) (memory : Memory)
    (buffer size offset : Nat) (bound : offset + size < 2 ^ 64) :
    ∃ result, (∀ fuel, size < fuel → inode.read fuel buffer size offset memory store = some result) ∧
      (inode.Delivered memory buffer size offset result ∨ inode.GaveUp memory buffer size result) := by
  by_cases past : inode.entry.size.toNat ≤ offset
  · refine ⟨(.ok 0, memory, store), fun fuel _ => by simp only [read, if_pos past], .inl ?_⟩
    have none : min size (inode.entry.size.toNat - offset) = 0 := by omega
    exact ⟨by rw [none], by rw [none, List.take_zero, storeBytes_nil], faithful⟩
  have capped : (if inode.entry.size.toNat < (offset + size) % 2 ^ 64 then
      inode.entry.size.toNat - offset else size) = min size (inode.entry.size.toNat - offset) := by
    rw [Nat.mod_eq_of_lt bound]
    split <;> omega
  have sized' : inode.flawless.fs.Sized := FATFileSystem.flawless_sized.2 sized
  have reached : (0 + offset / inode.fs.bytesPerCluster) * inode.fs.bytesPerCluster <
      inode.entry.size.toNat := by
    rw [Nat.zero_add]
    exact Nat.lt_of_le_of_lt (Nat.div_mul_le_self _ _) (by omega)
  obtain ⟨store', skipped, kept⟩ :=
    skipClusters_eq readable sized' chained faithful _ 0 reached
  rcases @skipClusters_failsOr inode (offset / inode.fs.bytesPerCluster)
      inode.entry.firstCluster.toNat store faithful with
    ⟨cluster, store₁, ok, ok', -⟩ | ⟨error, store₁, failed, kept'⟩
  swap
  · refine ⟨(.error error, memory, store₁), fun fuel _ => ?_, .inr ⟨⟨error, rfl⟩, fun _ _ => rfl, kept'⟩⟩
    simp only [read, if_neg past, failed]
  have agree : (EStateM.Result.ok cluster store₁ : EStateM.Result String BlockStore Nat) =
      .ok (inode.flawless.cluster (0 + offset / inode.fs.bytesPerCluster)) store' :=
    ok'.symm.trans skipped
  cases agree
  have start : Copied inode.flawless memory buffer offset (min size (inode.entry.size.toNat - offset))
      { memory, store := store', bytesRead := 0,
        currentCluster := inode.flawless.cluster (0 + offset / inode.fs.bytesPerCluster) } := {
    faithful := kept
    memory_eq := by simp [bytesFrom]
    bounded := Nat.zero_le _
    current := fun _ => by simp; rfl
    boundary := fun positive => absurd positive (by simp) }
  have inside : offset + min size (inode.entry.size.toNat - offset) ≤ inode.entry.size.toNat := by
    omega
  have enough : min size (inode.entry.size.toNat - offset) - 0 < size + 1 := by omega
  obtain ⟨whole, ran, all⟩ := run_copyBody readable sized' chained inside start enough
  obtain ⟨result, ran', ends⟩ := Loop.run_of_abort
    (I := Copied inode.flawless memory buffer offset (min size (inode.entry.size.toNat - offset)))
    (P := inode.GaveUp memory buffer (min size (inode.entry.size.toNat - offset)))
    (fun s copied => copyBody_failsOr copied (offset % inode.fs.bytesPerCluster))
    (fun s s' copied again => by
      rcases copyBody_cases readable sized' chained inside copied with
        ⟨s'', turn, copied', -⟩ | ⟨result', turn, -⟩
      · cases again.symm.trans turn
        exact copied'
      · cases again.symm.trans turn)
    start ran
  refine ⟨result, fun fuel enough => ?_, ?_⟩
  · simp only [read, if_neg past, capped, ok]
    exact Loop.run_mono ran' (by omega)
  · rcases ends with rfl | gaveUp
    · refine .inl ⟨all.value, ?_, all.faithful⟩
      rw [all.memory_eq, ← @take_drop_contents inode.flawless _ _ inside]
      rfl
    · exact .inr ⟨gaveUp.error, fun x outside => gaveUp.outside x (by omega), gaveUp.faithful⟩

end FATInode

end

end MatteOS.FileSystem
