import MatteOS.FileSystem.Verify.Listing

/-!
# The slots of a directory

Both loops over a directory read a run of slots at a slot that is in use and read-only: up to the
next slot with bit 0x40 in its first byte, wherever that is. They stay inside the cluster exactly if
every run ends in it and is followed by one more slot (`staysInside_iff`). Slots behind one
whose first byte is 0 are read like those before it (`endsAtMarker_iff`).
-/

namespace MatteOS.FileSystem

/-- The name that a run of slots holds. -/
def nameOf (run : List DirectoryEntry) : Name := run.reverse.flatMap DirectoryEntry.longCharacters

/-! ## The loops as functions of the slots that are left -/

section

variable {entries : List DirectoryEntry} {entry : DirectoryEntry}

theorem listEntries_eq_drop (skip : Nat) (entries : List DirectoryEntry) :
    listEntries skip entries = listEntries 0 (entries.drop skip) := by
  induction entries generalizing skip with
  | nil => cases skip <;> rfl
  | cons entry entries ih =>
    cases skip with
    | zero => rfl
    | succ skip => exact ih skip

theorem findEntry_eq_drop (name : Name) (skip : Nat) (entries : List DirectoryEntry) :
    findEntry name skip entries = findEntry name 0 (entries.drop skip) := by
  induction entries generalizing skip with
  | nil => cases skip <;> rfl
  | cons entry entries ih =>
    cases skip with
    | zero => rfl
    | succ skip => exact ih skip

theorem DirectoryEntry.isFreeLong_eq : entry.isFreeLong = false := by
  have zero : entry.byte 0 &&& 0x00 = 0 := BitVec.and_zero
  rw [isFreeLong, zero]
  rfl

/-- A run up to the first slot with bit 0x40. -/
theorem DirectoryEntry.longName_run {longs after : List DirectoryEntry} {last : DirectoryEntry}
    (inner : ∀ long ∈ longs, long.isFinalEntry = false) (final : last.isFinalEntry = true)
    (run : entry :: entries = longs ++ last :: after) (name : Name) :
    longName name entry entries = some (nameOf (longs ++ [last]) ++ name, longs.length + 1) := by
  induction longs generalizing entry entries name with
  | nil =>
    obtain ⟨rfl, rfl⟩ := List.cons.inj run
    simp [longName.eq_def, final, nameOf]
  | cons long longs ih =>
    obtain ⟨rfl, rest⟩ := List.cons.inj run
    have more : entry.isFinalEntry = false := inner entry List.mem_cons_self
    cases entries with
    | nil => exact absurd rest.symm (List.append_ne_nil_of_right_ne_nil _ (List.cons_ne_nil _ _))
    | cons next entries =>
      have tail := ih (fun long mem => inner long (List.mem_cons_of_mem _ mem)) rest
        (entry.longCharacters ++ name)
      rw [longName.eq_def]
      simp only [more, isFreeLong_eq, Bool.or_false, Bool.false_eq_true, if_false, tail]
      simp [nameOf]

/-- A run that leaves the cluster. -/
theorem DirectoryEntry.longName_none (inner : ∀ long ∈ entry :: entries, long.isFinalEntry = false)
    (name : Name) : longName name entry entries = none := by
  induction entries generalizing entry name with
  | nil =>
    have more : entry.isFinalEntry = false := inner entry List.mem_cons_self
    rw [longName.eq_def]
    simp [more, isFreeLong_eq]
  | cons next entries ih =>
    have more : entry.isFinalEntry = false := inner entry List.mem_cons_self
    have tail := ih (fun long mem => inner long (List.mem_cons_of_mem _ mem))
      (entry.longCharacters ++ name)
    rw [longName.eq_def]
    simp [more, isFreeLong_eq, tail]

/-- The run at the first of some slots ends inside, or leaves them. -/
theorem run_cases (entries : List DirectoryEntry) :
    (∀ long ∈ entries, long.isFinalEntry = false) ∨ ∃ longs last after,
      entries = longs ++ last :: after ∧ (∀ long ∈ longs, long.isFinalEntry = false) ∧
        last.isFinalEntry = true := by
  induction entries with
  | nil => exact Or.inl fun _ mem => absurd mem List.not_mem_nil
  | cons entry entries ih =>
    cases final : entry.isFinalEntry with
    | true => exact Or.inr ⟨[], entry, entries, rfl, fun _ mem => absurd mem List.not_mem_nil, final⟩
    | false =>
      rcases ih with inner | ⟨longs, last, after, rfl, inner, ends⟩
      · exact Or.inl (List.forall_mem_cons.2 ⟨final, inner⟩)
      · exact Or.inr ⟨entry :: longs, last, after, rfl, List.forall_mem_cons.2 ⟨final, inner⟩, ends⟩

/-- A run of slots, from one that is in use and read-only to the next one with bit 0x40. -/
structure Run (entry : DirectoryEntry) (entries longs : List DirectoryEntry) (last : DirectoryEntry)
    (after : List DirectoryEntry) : Prop where
  used : entry.isFree = false
  marked : entry.isLongName = true
  split : entry :: entries = longs ++ last :: after
  inner : ∀ long ∈ longs, long.isFinalEntry = false
  final : last.isFinalEntry = true

namespace Run

variable {longs after : List DirectoryEntry} {last : DirectoryEntry}

theorem longName (run : Run entry entries longs last after) :
    entry.longName [] entries = some (nameOf (longs ++ [last]), longs.length + 1) := by
  rw [DirectoryEntry.longName_run run.inner run.final run.split, List.append_nil]

theorem drop (run : Run entry entries longs last after) :
    entries.drop (longs.length + 1) = after.drop 1 := by
  have same := congrArg (List.drop (longs.length + 2)) run.split
  rw [List.drop_succ_cons, List.drop_append, List.drop_of_length_le (Nat.le_add_right _ 2),
    List.nil_append, Nat.add_sub_cancel_left, List.drop_succ_cons] at same
  exact same

theorem getElem? (run : Run entry entries longs last after) :
    entries[longs.length]? = after.head? := by
  have same := congrArg (fun l => l[longs.length + 1]?) run.split
  simpa [List.getElem?_append_right, List.head?_eq_getElem?] using same

/-- `list_dir` skips the slot behind a run. -/
theorem listEntries (run : Run entry entries longs last after) : listEntries 0 (entry :: entries) =
    (listEntries 0 (after.drop 1)).map (nameOf (longs ++ [last]) :: ·) := by
  simp only [FileSystem.listEntries, run.used, run.marked, run.longName, Bool.false_eq_true,
    if_false, if_true]
  rw [listEntries_eq_drop (longs.length + 1), run.drop]

/-- `get_child` takes the slot behind a run for the one that the run is about. -/
theorem findEntry (run : Run entry entries longs last after) (name : Name) :
    findEntry name 0 (entry :: entries) =
    match after with
    | [] => none
    | next :: after =>
      if next.isLongName then
        some (.error "Corrupt directory: Last Long name entry not followed by standard entry")
      else if Utils.Strings.equals (nameOf (longs ++ [last])) name then
        some (.ok (next.filledFrom (nameOf (longs ++ [last]))))
      else FileSystem.findEntry name 0 after := by
  simp only [FileSystem.findEntry, run.used, run.marked, run.longName, Bool.false_eq_true, if_false,
    if_true, Nat.add_sub_cancel, run.getElem?]
  cases after with
  | nil => rfl
  | cons next after =>
    rw [findEntry_eq_drop name (longs.length + 1), run.drop]
    rfl

end Run

theorem listEntries_none (used : entry.isFree = false) (marked : entry.isLongName = true)
    (inner : ∀ long ∈ entry :: entries, long.isFinalEntry = false) :
    listEntries 0 (entry :: entries) = none := by
  simp [listEntries, used, marked, DirectoryEntry.longName_none inner]

/-! ## Single slots -/

theorem listEntries_free (free : entry.isFree = true) :
    listEntries 0 (entry :: entries) = listEntries 0 entries := by
  simp [listEntries, free]

theorem findEntry_free (free : entry.isFree = true) (name : Name) :
    findEntry name 0 (entry :: entries) = findEntry name 0 entries := by
  simp [findEntry, free]

theorem listEntries_append_free {frees : List DirectoryEntry}
    (free : ∀ entry ∈ frees, entry.isFree = true) (entries : List DirectoryEntry) :
    listEntries 0 (frees ++ entries) = listEntries 0 entries := by
  induction frees with
  | nil => rfl
  | cons entry frees ih =>
    rw [List.cons_append, listEntries_free (free entry List.mem_cons_self)]
    exact ih fun entry mem => free entry (List.mem_cons_of_mem _ mem)

theorem findEntry_append_free {frees : List DirectoryEntry}
    (free : ∀ entry ∈ frees, entry.isFree = true) (name : Name) (entries : List DirectoryEntry) :
    findEntry name 0 (frees ++ entries) = findEntry name 0 entries := by
  induction frees with
  | nil => rfl
  | cons entry frees ih =>
    rw [List.cons_append, findEntry_free (free entry List.mem_cons_self)]
    exact ih fun entry mem => free entry (List.mem_cons_of_mem _ mem)

theorem listEntries_short (used : entry.isFree = false) (short : entry.isLongName = false) :
    listEntries 0 (entry :: entries) = (listEntries 0 entries).map (entry.shortName :: ·) := by
  simp [listEntries, used, short]

theorem findEntry_short (used : entry.isFree = false) (short : entry.isLongName = false)
    (name : Name) : findEntry name 0 (entry :: entries) =
      if Utils.Strings.equals entry.shortName name then some (.ok (entry.filledFrom entry.shortName))
      else findEntry name 0 entries := by
  simp [findEntry, used, short]

end

/-! ## Directories -/

/-- A directory whose cluster is read as these slots. -/
structure FATInode.Shows (inode : FATInode) (store store' : BlockStore)
    (entries : List DirectoryEntry) : Prop where
  directory : inode.entry.isDirectory
  read : ∃ block,
    inode.fs.readClusterPoll inode.entry.firstCluster.toNat store = .ok block store' ∧
      block.data.length = inode.fs.blockSize ∧ block.directoryEntries inode.fs.blockSize = entries

/-- Neither call reads past the cluster. -/
structure FATInode.StaysInside (inode : FATInode) (store : BlockStore) : Prop where
  listDir : ∀ store', inode.listDir store ≠ .ok none store'
  getChild : ∀ name store', inode.getChild name store ≠ .ok none store'

/-- The slots are free ones, short entries, and runs with one slot more behind them. Behind a run at
which lookups have stopped, the last one may end with the cluster. -/
inductive Contained : Bool → List DirectoryEntry → Prop where
  | nil {stopped : Bool} : Contained stopped []
  | free {stopped : Bool} {entry : DirectoryEntry} {entries : List DirectoryEntry}
      (free : entry.isFree = true) (rest : Contained stopped entries) :
      Contained stopped (entry :: entries)
  | short {stopped : Bool} {entry : DirectoryEntry} {entries : List DirectoryEntry}
      (used : entry.isFree = false) (short : entry.isLongName = false)
      (rest : Contained stopped entries) : Contained stopped (entry :: entries)
  | run {stopped : Bool} {entry last next : DirectoryEntry}
      {entries longs after : List DirectoryEntry}
      (run : Run entry entries longs last (next :: after))
      (rest : Contained (stopped || next.isLongName) after) : Contained stopped (entry :: entries)
  | last {entry last : DirectoryEntry} {entries longs : List DirectoryEntry}
      (run : Run entry entries longs last []) : Contained true (entry :: entries)

section

variable {inode : FATInode} {store store' : BlockStore} {entries : List DirectoryEntry}

theorem FATInode.Shows.listDir (shows : inode.Shows store store' entries) :
    inode.listDir store = .ok (listEntries 0 entries) store' := by
  obtain ⟨block, read, -, rfl⟩ := shows.read
  exact FATInode.listDir_eq shows.directory read

theorem FATInode.Shows.getChild (shows : inode.Shows store store' entries) (name : Name) :
    inode.getChild name store =
      match findEntry name 0 entries with
      | none => .ok none store'
      | some (.error error) => .error error store'
      | some (.ok entry) => .ok (some ⟨inode.fs, entry⟩) store' := by
  obtain ⟨block, read, -, rfl⟩ := shows.read
  simp only [FATInode.getChild, shows.directory, Bool.not_true, Bool.false_eq_true, if_false, bind,
    EStateM.bind, read]
  cases findEntry name 0 (block.directoryEntries inode.fs.blockSize) with
  | none => rfl
  | some result => cases result <;> rfl

theorem staysInside_iff_loops (shows : inode.Shows store store' entries) :
    inode.StaysInside store ↔
      listEntries 0 entries ≠ none ∧ ∀ name, findEntry name 0 entries ≠ none := by
  constructor
  · rintro ⟨list, find⟩
    refine ⟨fun none => list store' ?_, fun name none => find name store' ?_⟩
    · rw [shows.listDir, none]
    · rw [shows.getChild, none]
  · rintro ⟨list, find⟩
    refine ⟨fun store'' none => ?_, fun name store'' none => ?_⟩
    · rw [shows.listDir] at none
      exact list (EStateM.Result.ok.inj none).1
    · rw [shows.getChild] at none
      cases found : findEntry name 0 entries with
      | none => exact find name found
      | some result => cases result <;> simp [found] at none

theorem Contained.listEntries {stopped : Bool} (contained : Contained stopped entries) :
    listEntries 0 entries ≠ none := by
  induction contained with
  | nil => exact nofun
  | free free _ ih =>
    rw [listEntries_free free]
    exact ih
  | short used short _ ih =>
    rw [listEntries_short used short]
    simpa using ih
  | run run _ ih =>
    rw [run.listEntries]
    simpa using ih
  | last run =>
    rw [run.listEntries]
    simp [FileSystem.listEntries]

theorem Contained.findEntry {stopped : Bool} (contained : Contained stopped entries)
    (going : stopped = false) (name : Name) : findEntry name 0 entries ≠ none := by
  induction contained with
  | nil => exact nofun
  | free free _ ih =>
    rw [findEntry_free free]
    exact ih going
  | short used short _ ih =>
    rw [findEntry_short used short]
    split
    · exact nofun
    · exact ih going
  | @run _ _ _ next _ _ _ run _ ih =>
    rw [run.findEntry]
    cases marked : next.isLongName with
    | true => simp [marked]
    | false =>
      have rest := ih (by rw [going, marked]; rfl)
      simp only [marked, Bool.false_eq_true, if_false]
      split
      · simp
      · exact rest
  | last run => cases going

/-! ## Names that are not there -/

theorem DirectoryEntry.longCharacters_length_le (entry : DirectoryEntry) :
    entry.longCharacters.length ≤ 13 := by
  have le (start count : Nat) : (entry.characters start count).length ≤ count := by
    rw [characters, List.length_map]
    exact Nat.le_trans (List.takeWhile_sublist _).length_le (by simp)
  have h1 := le 1 5
  have h2 := le 14 6
  have h3 := le 28 2
  simp only [longCharacters, List.length_append]
  omega

theorem nameOf_length_le (run : List DirectoryEntry) : (nameOf run).length ≤ 13 * run.length := by
  induction run with
  | nil => exact Nat.le_refl _
  | cons entry run ih =>
    have le := entry.longCharacters_length_le
    have cons : nameOf (entry :: run) = nameOf run ++ entry.longCharacters := by simp [nameOf]
    rw [cons, List.length_append, List.length_cons]
    omega

/-- A name that is too long for any slots of this number. -/
def absentName (slots : Nat) : Name := .replicate (13 * slots + 12) 1

theorem not_equals_absentName {name : Name} {slots : Nat} (less : name.length < 13 * slots + 12) :
    Utils.Strings.equals name (absentName slots) = false := by
  rw [Bool.eq_false_iff]
  intro same
  have noNul : 0 ∉ absentName slots := fun mem => absurd (List.eq_of_mem_replicate mem) (by decide)
  rw [Utils.Strings.equals_iff_of_noNul noNul] at same
  have := congrArg List.length same
  rw [absentName, List.length_replicate] at this
  omega

/-- Slots on which the loops end inside are contained. -/
theorem contained_of_loops (slots : Nat) {stopped : Bool} {entries : List DirectoryEntry}
    (few : entries.length ≤ slots) (list : listEntries 0 entries ≠ none)
    (find : stopped = true ∨ findEntry (absentName slots) 0 entries ≠ none) :
    Contained stopped entries := by
  match entries with
  | [] => exact .nil
  | entry :: entries =>
    rw [List.length_cons] at few
    cases free : entry.isFree with
    | true =>
      rw [listEntries_free free] at list
      rw [findEntry_free free] at find
      exact .free free (contained_of_loops slots (by omega) list find)
    | false =>
      cases marked : entry.isLongName with
      | false =>
        rw [listEntries_short free marked] at list
        have other : Utils.Strings.equals entry.shortName (absentName slots) = false := by
          apply not_equals_absentName
          rw [DirectoryEntry.shortName, List.length_map, List.length_range]
          omega
        rw [findEntry_short free marked, other, if_neg Bool.false_ne_true] at find
        exact .short free marked (contained_of_loops slots (by omega) (by simpa using list) find)
      | true =>
        rcases run_cases (entry :: entries) with inner | ⟨longs, last, after, split, inner, final⟩
        · exact absurd (listEntries_none free marked inner) list
        · have run : Run entry entries longs last after := ⟨free, marked, split, inner, final⟩
          have length := congrArg List.length split
          simp only [List.length_cons, List.length_append] at length
          match after with
          | [] =>
            rcases find with rfl | find
            · exact .last run
            · rw [run.findEntry] at find
              exact absurd rfl find
          | next :: after =>
            rw [List.length_cons] at length
            rw [run.listEntries] at list
            have short := nameOf_length_le (longs ++ [last])
            rw [List.length_append, List.length_singleton] at short
            have other : Utils.Strings.equals (nameOf (longs ++ [last])) (absentName slots) = false :=
              not_equals_absentName (by omega)
            have less : after.length < entries.length := by omega
            refine .run run (contained_of_loops slots (by omega) (by simpa using list) ?_)
            rcases find with rfl | find
            · exact Or.inl rfl
            · rw [run.findEntry] at find
              cases marked : next.isLongName with
              | true => exact Or.inl (Bool.or_true _)
              | false =>
                refine Or.inr ?_
                simpa [marked, other] using find
termination_by entries.length
decreasing_by
  all_goals
    simp only [List.length_cons]
    omega

/-- **Inside the cluster.** `list_dir` and `get_child` read no byte past the cluster of a directory, for
any name, if and only if its slots are free ones, short entries and runs of slots up to one with bit
0x40, each followed by one slot more; only behind a run that a read-only slot follows, at which
lookups stop, the last run may end with the cluster. -/
theorem staysInside_iff (shows : inode.Shows store store' entries) :
    inode.StaysInside store ↔ Contained false entries := by
  rw [staysInside_iff_loops shows]
  constructor
  · rintro ⟨list, find⟩
    exact contained_of_loops _ (Nat.le_refl _) list (Or.inr (find _))
  · exact fun contained => ⟨contained.listEntries, contained.findEntry rfl⟩

end

theorem rootDirectory_shows {entries slots : List DirectoryEntry}
    (same : (rootBlock entries).directoryEntries 512 = slots) :
    ∃ store', (rootDirectory entries).Shows .empty store' slots := by
  obtain ⟨store', read⟩ := rootDirectory_read entries
  have size : (rootBlock entries).data.length = 512 := by
    simp [rootBlock, FATFileSystem.block, BlockDevice.bytes, rootDirectory,
      FATFileSystem.ofBootSector]
  have directory : (rootDirectory entries).entry.isDirectory = true := by
    simp [rootDirectory, FullDirectoryEntry.isDirectory]
  exact ⟨store', directory, _, read, size, same⟩

theorem staysInside_iff_notes : (rootDirectory [notesEntry]).StaysInside .empty := by
  have slots : (rootBlock [notesEntry]).directoryEntries 512 =
      notesEntry :: .replicate 15 freeEntry :=
    rootBlock_slots (by decide) (by decide)
  obtain ⟨store', shows⟩ := rootDirectory_shows slots
  have free (n : Nat) : Contained false (.replicate n freeEntry) := by
    induction n with
    | zero => exact .nil
    | succ n ih => exact .free (by decide) ih
  exact (staysInside_iff shows).2 (.short (by decide) (by decide) (free 15))

/-- A run that no slot of the cluster ends. -/
theorem not_staysInside_run : ¬ (rootDirectory [firstPart]).StaysInside .empty := by
  have slots : (rootBlock [firstPart]).directoryEntries 512 =
      firstPart :: .replicate 15 freeEntry :=
    rootBlock_slots (by decide) (by decide)
  obtain ⟨store', shows⟩ := rootDirectory_shows slots
  rw [staysInside_iff_loops shows]
  rintro ⟨list, -⟩
  revert list
  decide

/-! ## Behind the end marker -/

/-- As many slots, each of them whole. -/
structure Slots (count : Nat) (entries : List DirectoryEntry) : Prop where
  length : entries.length = count
  whole : ∀ entry ∈ entries, entry.bytes.length = DIRECTORY_ENTRY_SIZE

/-- The calls make the same of all slots behind these. -/
def EndsAt (front : List DirectoryEntry) (count : Nat) : Prop :=
  ∀ rest rest', Slots count rest → Slots count rest' →
    listEntries 0 (front ++ rest) = listEntries 0 (front ++ rest') ∧
    ∀ name, findEntry name 0 (front ++ rest) = findEntry name 0 (front ++ rest')

/-- `A`, which is in use and has bit 0x40. -/
def staleEntry : DirectoryEntry := ⟨0x41 :: .replicate 31 0⟩

theorem listEntries_replicate_free (n : Nat) : listEntries 0 (.replicate n freeEntry) = some [] := by
  induction n with
  | zero => rfl
  | succ n ih =>
    rw [List.replicate_succ, listEntries_free (by decide)]
    exact ih

/-- A used slot behind the marker changes the list. -/
theorem listEntries_ne_of_marker {front : List DirectoryEntry} {marker : DirectoryEntry}
    (inUse : ∀ entry ∈ front, entry.byte 0 ≠ 0) (zero : marker.byte 0 = 0) (n : Nat) :
    listEntries 0 (front ++ marker :: .replicate (n + 1) freeEntry) ≠
      listEntries 0 (front ++ marker :: staleEntry :: .replicate n freeEntry) := by
  have free : marker.isFree = true := by
    rw [DirectoryEntry.isFree, zero]
    decide
  have final : marker.isFinalEntry = false := by
    rw [DirectoryEntry.isFinalEntry, zero]
    decide
  have aligned : listEntries 0 (.replicate (n + 1) freeEntry) ≠
      listEntries 0 (staleEntry :: .replicate n freeEntry) := by
    rw [listEntries_replicate_free, listEntries_short (by decide) (by decide),
      listEntries_replicate_free]
    simp
  induction size : front.length using Nat.strong_induction_on generalizing front with
  | _ m ih =>
    subst size
    cases front with
    | nil => simpa only [List.nil_append, listEntries_free free] using aligned
    | cons entry front =>
      have inUse' : ∀ entry ∈ front, entry.byte 0 ≠ 0 :=
        fun entry mem => inUse entry (List.mem_cons_of_mem _ mem)
      rw [List.cons_append, List.cons_append]
      cases unused : entry.isFree with
      | true =>
        rw [listEntries_free unused, listEntries_free unused]
        exact ih _ (Nat.lt_succ_self _) inUse' rfl
      | false =>
        cases marked : entry.isLongName with
        | false =>
          rw [listEntries_short unused marked, listEntries_short unused marked]
          intro same
          have injective : Function.Injective (entry.shortName :: ·) :=
            fun _ _ => List.tail_eq_of_cons_eq
          exact ih _ (Nat.lt_succ_self _) inUse' rfl (Option.map_injective injective same)
        | true =>
          rcases run_cases (entry :: front) with inner | ⟨longs, last, after, split, inner, ends⟩
          · -- the run goes on behind the marker
            have leaves : ∀ long ∈ entry :: (front ++ marker :: .replicate (n + 1) freeEntry),
                long.isFinalEntry = false := by
              intro long mem
              rw [← List.cons_append] at mem
              rcases List.mem_append.1 mem with mem | mem
              · exact inner long mem
              rcases List.mem_cons.1 mem with rfl | mem
              · exact final
              · rw [List.eq_of_mem_replicate mem]
                decide
            have run : Run entry (front ++ marker :: staleEntry :: .replicate n freeEntry)
                (entry :: front ++ [marker]) staleEntry (.replicate n freeEntry) := by
              refine ⟨unused, marked, by simp, fun long mem => ?_, by decide⟩
              rcases List.mem_append.1 mem with mem | mem
              · exact inner long mem
              · rw [List.mem_singleton.1 mem]
                exact final
            rw [listEntries_none unused marked leaves, run.listEntries, List.drop_replicate,
              listEntries_replicate_free]
            intro same
            cases same
          · have run (rest : List DirectoryEntry) : Run entry (front ++ marker :: rest) longs last
                (after ++ marker :: rest) := by
              refine ⟨unused, marked, ?_, inner, ends⟩
              rw [← List.cons_append, split, List.append_assoc, List.cons_append]
            rw [(run _).listEntries, (run _).listEntries]
            intro same
            have injective : Function.Injective (nameOf (longs ++ [last]) :: ·) :=
              fun _ _ => List.tail_eq_of_cons_eq
            have same := Option.map_injective injective same
            cases after with
            | nil => exact aligned same
            | cons next after =>
              have length := congrArg List.length split
              simp only [List.length_cons, List.length_append] at length
              have inUse'' : ∀ entry ∈ after, entry.byte 0 ≠ 0 := by
                intro e mem
                apply inUse e
                rw [split]
                simp [mem]
              have less : after.length < front.length := by omega
              exact ih _ (Nat.lt_succ_of_lt less) inUse'' rfl same
/-- **The end marker.** Behind the first slot whose first byte is 0, `list_dir` and `get_child` do not
depend on the slots if and only if there are none. -/
theorem endsAtMarker_iff (front : List DirectoryEntry) (marker : DirectoryEntry) (count : Nat)
    (inUse : ∀ entry ∈ front, entry.byte 0 ≠ 0) (zero : marker.byte 0 = 0) :
    EndsAt (front ++ [marker]) count ↔ count = 0 := by
  constructor
  · intro ends
    by_contra more
    obtain ⟨n, rfl⟩ := Nat.exists_eq_succ_of_ne_zero more
    have unused : Slots (n + 1) (.replicate (n + 1) freeEntry) := by
      refine ⟨List.length_replicate, fun entry mem => ?_⟩
      rw [List.eq_of_mem_replicate mem]
      rfl
    have stale : Slots (n + 1) (staleEntry :: .replicate n freeEntry) := by
      refine ⟨by simp, fun entry mem => ?_⟩
      rcases List.mem_cons.1 mem with rfl | mem
      · rfl
      · rw [List.eq_of_mem_replicate mem]
        rfl
    have same := (ends _ _ unused stale).1
    rw [List.append_assoc, List.append_assoc] at same
    exact listEntries_ne_of_marker inUse zero n same
  · rintro rfl rest rest' none none'
    rw [List.length_eq_zero_iff.1 none.length, List.length_eq_zero_iff.1 none'.length]
    exact ⟨rfl, fun _ => rfl⟩

theorem endsAtMarker_iff_last : EndsAt ([notesEntry] ++ [freeEntry]) 0 := by
  refine (endsAtMarker_iff [notesEntry] freeEntry 0 ?_ (by decide)).2 rfl
  intro entry mem
  rw [List.mem_singleton.1 mem]
  decide

/-- A stale entry behind the marker is listed. -/
theorem not_endsAtMarker : ¬ EndsAt ([notesEntry] ++ [freeEntry]) 1 := by
  intro ends
  have whole (entry : DirectoryEntry) (size : entry.bytes.length = DIRECTORY_ENTRY_SIZE) :
      Slots 1 [entry] := by
    refine ⟨rfl, fun e mem => ?_⟩
    rw [List.mem_singleton.1 mem]
    exact size
  have same := (ends [freeEntry] [staleEntry] (whole _ rfl) (whole _ rfl)).1
  revert same
  decide

end MatteOS.FileSystem
