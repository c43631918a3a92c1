import MatteOS.FileSystem.Verify.DirectorySlots

/-!
# Short entries

`is_long_name` tests the read-only attribute alone, so a read-only entry is read as the start of a
long name. A cluster is listed and searched slot by slot exactly if none of its entries in use is
read-only, up to entries that nothing can tell from their own misreading (`listsShort_iff`).
-/

namespace MatteOS.FileSystem

/-- The names in the slots in use. -/
def shortNames (entries : List DirectoryEntry) : List Name :=
  (entries.filter fun entry => !entry.isFree).map DirectoryEntry.shortName

/-- What a slot says of its file. -/
def DirectoryEntry.described (entry : DirectoryEntry) : FullDirectoryEntry where
  name := entry.shortName
  size := entry.word 30 ++ entry.word 28
  firstCluster := (entry.word 20).setWidth 32 <<< 16 ||| (entry.word 26).setWidth 32
  attributes := entry.attributes

/-- The first slot in use with a name. -/
def lookup (name : Name) (entries : List DirectoryEntry) : Except String FullDirectoryEntry :=
  match entries.find? fun entry => !entry.isFree && entry.shortName == name with
  | some entry => .ok entry.described
  | none => .error "Child not found"

/-- Each slot in use is listed, and looked up by its name. -/
structure FATInode.ListsShort (inode : FATInode) (store store' : BlockStore)
    (entries : List DirectoryEntry) : Prop where
  listDir : inode.listDir store = .ok (some (shortNames entries)) store'
  getChild : ∀ name, 0 ∉ name → inode.getChild name store =
    match lookup name entries with
    | .error error => .error error store'
    | .ok entry => .ok (some ⟨inode.fs, entry⟩) store'

/-- A read-only entry that is not seen to be misread: its name has a NUL or is one of an earlier
entry, so that it is never looked up; it reads as its own name; and the run at it and the slot behind
are free slots but for itself. -/
def Harmless (before : List DirectoryEntry) (entry : DirectoryEntry)
    (rest : List DirectoryEntry) : Prop :=
  (0 ∈ entry.shortName ∨ entry.shortName ∈ shortNames before) ∧
    ∃ longs last next after, Run entry rest longs last (next :: after) ∧
      nameOf (longs ++ [last]) = entry.shortName ∧
      (∀ skipped ∈ (longs ++ [last]).tail ++ [next], skipped.isFree = true) ∧
      next.isLongName = false

section

variable {entries before rest : List DirectoryEntry} {entry : DirectoryEntry} {name : Name}

theorem append_eq_or (high low : BitVec 16) :
    high ++ low = high.setWidth 32 <<< 16 ||| low.setWidth 32 := by
  ext i less
  rw [BitVec.getElem_append]
  simp only [BitVec.getElem_or, BitVec.getElem_shiftLeft, BitVec.getElem_setWidth]
  by_cases small : i < 16
  · simp [small]
  · have above : low.getLsbD i = false := BitVec.getLsbD_of_ge _ _ (by omega)
    have inside : i - 16 < 16 := by omega
    simp [small, above, BitVec.getLsbD_eq_getElem inside]

theorem DirectoryEntry.filledFrom_shortName :
    entry.filledFrom entry.shortName = entry.described := by
  rw [filledFrom, described, append_eq_or (entry.word 20)]

/-! ## Names and lookups slot by slot -/

theorem shortNames_free (free : entry.isFree = true) :
    shortNames (entry :: entries) = shortNames entries := by
  simp [shortNames, free]

theorem shortNames_used (used : entry.isFree = false) :
    shortNames (entry :: entries) = entry.shortName :: shortNames entries := by
  simp [shortNames, used]

theorem shortNames_append (entries rest : List DirectoryEntry) :
    shortNames (entries ++ rest) = shortNames entries ++ shortNames rest := by
  simp [shortNames]

theorem shortNames_eq_nil_iff :
    shortNames entries = [] ↔ ∀ entry ∈ entries, entry.isFree = true := by
  simp [shortNames]

theorem lookup_free (free : entry.isFree = true) :
    lookup name (entry :: entries) = lookup name entries := by
  simp [lookup, free]

theorem lookup_used (used : entry.isFree = false) : lookup name (entry :: entries) =
    if entry.shortName = name then .ok entry.described else lookup name entries := by
  by_cases same : entry.shortName = name
  · simp [lookup, used, same]
  · simp [lookup, used, same, beq_false_of_ne same]

theorem length_shortNames_drop_le (n : Nat) :
    (shortNames (entries.drop n)).length ≤ (shortNames entries).length := by
  have cut := shortNames_append (entries.take n) (entries.drop n)
  rw [List.take_append_drop] at cut
  rw [cut, List.length_append]
  exact Nat.le_add_left _ _

/-- `list_dir` lists no more names than there are slots in use. -/
theorem length_le_of_listEntries {entries : List DirectoryEntry} {names : List Name}
    (list : listEntries 0 entries = some names) : names.length ≤ (shortNames entries).length := by
  match entries with
  | [] =>
    rw [← Option.some.inj list]
    exact Nat.le_refl _
  | entry :: entries =>
    cases free : entry.isFree with
    | true =>
      rw [listEntries_free free] at list
      rw [shortNames_free free]
      exact length_le_of_listEntries list
    | false =>
      rw [shortNames_used free, List.length_cons]
      cases marked : entry.isLongName with
      | false =>
        rw [listEntries_short free marked] at list
        obtain ⟨names, rest, rfl⟩ := Option.map_eq_some_iff.1 list
        exact Nat.succ_le_succ (length_le_of_listEntries rest)
      | true =>
        rcases run_cases (entry :: entries) with inner | ⟨longs, last, after, split, inner, final⟩
        · rw [listEntries_none free marked inner] at list
          cases list
        · have run : Run entry entries longs last after := ⟨free, marked, split, inner, final⟩
          rw [run.listEntries, ← run.drop] at list
          obtain ⟨names, rest, rfl⟩ := Option.map_eq_some_iff.1 list
          exact Nat.succ_le_succ
            (Nat.le_trans (length_le_of_listEntries rest) (length_shortNames_drop_le _))
termination_by entries.length
decreasing_by
  all_goals
    simp only [List.length_cons, List.length_drop]
    omega

theorem shortName_length : entry.shortName.length = 11 := by
  rw [DirectoryEntry.shortName, List.length_map, List.length_range]

/-- A name that no slot has. -/
theorem absentName_not_mem : absentName 0 ∉ shortNames entries := by
  intro mem
  obtain ⟨entry, -, same⟩ := List.mem_map.1 mem
  have := congrArg List.length same
  rw [shortName_length, absentName, List.length_replicate] at this
  omega

theorem lookup_of_not_mem (absent : name ∉ shortNames entries) :
    lookup name entries = .error "Child not found" := by
  have none : (entries.find? fun entry => !entry.isFree && entry.shortName == name) = none := by
    rw [List.find?_eq_none]
    intro entry mem
    simp only [Bool.and_eq_true, Bool.not_eq_true', beq_iff_eq]
    rintro ⟨used, rfl⟩
    exact absent (List.mem_map_of_mem (List.mem_filter.2 ⟨mem, by rw [used]; rfl⟩))
  rw [lookup, none]

/-! ## One slot more -/

/-- The loops list and find what is in use in these slots; names of slots before them are left
out. -/
structure Exact (before entries : List DirectoryEntry) : Prop where
  list : listEntries 0 entries = some (shortNames entries)
  find : ∀ name, 0 ∉ name → name ∉ shortNames before →
    findEntry name 0 entries = some (lookup name entries)

/-- No read-only entry is seen to be misread. -/
def AllHarmless (before entries : List DirectoryEntry) : Prop :=
  ∀ front entry rest, entries = front ++ entry :: rest → entry.isFree = false →
    entry.isLongName = true → Harmless (before ++ front) entry rest

theorem allHarmless_cons : AllHarmless before (entry :: rest) ↔
    (entry.isFree = false → entry.isLongName = true → Harmless before entry rest) ∧
      AllHarmless (before ++ [entry]) rest := by
  constructor
  · intro harmless
    refine ⟨fun used marked => ?_, fun front entry' rest' split used marked => ?_⟩
    · have first := harmless [] entry rest rfl used marked
      rwa [List.append_nil] at first
    · have later := harmless (entry :: front) entry' rest' (by rw [split]; rfl) used marked
      rwa [List.append_assoc, List.singleton_append]
  · rintro ⟨first, later⟩ front entry' rest' split used marked
    cases front with
    | nil =>
      obtain ⟨rfl, rfl⟩ := List.cons.inj split
      rw [List.append_nil]
      exact first used marked
    | cons entry'' front =>
      obtain ⟨rfl, inside⟩ := List.cons.inj split
      have := later front entry' rest' inside used marked
      rwa [List.append_assoc, List.singleton_append] at this

theorem Run.tail {longs after : List DirectoryEntry} {last : DirectoryEntry}
    (run : Run entry entries longs last after) : entries = (longs ++ [last]).tail ++ after := by
  have split := run.split
  cases longs with
  | nil => exact (List.cons.inj split).2
  | cons long longs =>
    rw [(List.cons.inj split).2]
    simp

theorem mem_shortNames_concat (used : entry.isFree = false) :
    name ∈ shortNames (before ++ [entry]) ↔ name ∈ shortNames before ∨ name = entry.shortName := by
  rw [shortNames_append, shortNames_used used, List.mem_append, List.mem_cons]
  exact or_congr_right (or_iff_left List.not_mem_nil)

theorem exact_cons_other (other : entry.isFree = true ∨ entry.isLongName = false) :
    Exact before (entry :: rest) ↔ Exact (before ++ [entry]) rest := by
  cases free : entry.isFree with
  | true =>
    have same : shortNames (before ++ [entry]) = shortNames before := by
      rw [shortNames_append, shortNames_free free]
      exact List.append_nil _
    constructor
    · rintro ⟨list, find⟩
      rw [listEntries_free free, shortNames_free free] at list
      refine ⟨list, fun name noNul new => ?_⟩
      have found := find name noNul (same ▸ new)
      rwa [findEntry_free free, lookup_free free] at found
    · rintro ⟨list, find⟩
      refine ⟨?_, fun name noNul new => ?_⟩
      · rw [listEntries_free free, shortNames_free free, list]
      · rw [findEntry_free free, lookup_free free]
        exact find name noNul (same ▸ new)
  | false =>
    have short : entry.isLongName = false := by
      rcases other with used | short
      · rw [free] at used
        cases used
      · exact short
    constructor
    · rintro ⟨list, find⟩
      rw [listEntries_short free short, shortNames_used free] at list
      refine ⟨?_, fun name noNul new => ?_⟩
      · obtain ⟨names, rest', same⟩ := Option.map_eq_some_iff.1 list
        rw [rest', (List.cons.inj same).2]
      · rw [mem_shortNames_concat free, not_or] at new
        have found := find name noNul new.1
        have ne : ¬ Utils.Strings.equals entry.shortName name = true := by
          rw [Utils.Strings.equals_iff_of_noNul noNul]
          exact Ne.symm new.2
        rwa [findEntry_short free short, if_neg ne, lookup_used free, if_neg (Ne.symm new.2)] at found
    · rintro ⟨list, find⟩
      refine ⟨?_, fun name noNul new => ?_⟩
      · rw [listEntries_short free short, shortNames_used free, list]
        rfl
      · rw [findEntry_short free short, lookup_used free]
        by_cases here : entry.shortName = name
        · rw [if_pos ((Utils.Strings.equals_iff_of_noNul noNul).2 here), if_pos here,
            DirectoryEntry.filledFrom_shortName]
        · rw [if_neg (mt (Utils.Strings.equals_iff_of_noNul noNul).1 here), if_neg here]
          refine find name noNul ?_
          rw [mem_shortNames_concat free, not_or]
          exact ⟨new, Ne.symm here⟩

/-- A read-only entry in use must be harmless. -/
theorem Exact.harmless (exact' : Exact before (entry :: rest)) (used : entry.isFree = false)
    (marked : entry.isLongName = true) :
    Harmless before entry rest ∧ Exact (before ++ [entry]) rest := by
  obtain ⟨list, find⟩ := exact'
  rcases run_cases (entry :: rest) with inner | ⟨longs, last, after, split, inner, final⟩
  · rw [listEntries_none used marked inner] at list
    cases list
  have run : Run entry rest longs last after := ⟨used, marked, split, inner, final⟩
  rw [run.listEntries, shortNames_used used] at list
  obtain ⟨names, listed, same⟩ := Option.map_eq_some_iff.1 list
  obtain ⟨name_eq, rfl⟩ := List.cons.inj same
  -- the slots that the run skips are free, since they are not listed
  have free : ∀ skipped ∈ rest.take (longs.length + 1), skipped.isFree = true := by
    have few := length_le_of_listEntries listed
    have cut := shortNames_append (rest.take (longs.length + 1)) (rest.drop (longs.length + 1))
    rw [List.take_append_drop, run.drop] at cut
    rw [cut, List.length_append] at few
    exact shortNames_eq_nil_iff.1 (List.length_eq_zero_iff.1 (by omega))
  -- an absent name is looked for behind the run
  have noNul : 0 ∉ absentName 0 := by decide
  have absent := find (absentName 0) noNul absentName_not_mem
  rw [lookup_of_not_mem absentName_not_mem] at absent
  match after with
  | [] =>
    rw [run.findEntry] at absent
    cases absent
  | next :: after =>
    rw [run.findEntry] at absent
    have tail : rest = (longs ++ [last]).tail ++ [next] ++ after := by
      rw [List.append_assoc]
      exact run.tail
    have size : ((longs ++ [last]).tail ++ [next]).length = longs.length + 1 := by simp
    have front : rest.take (longs.length + 1) = (longs ++ [last]).tail ++ [next] := by
      rw [tail, ← size, List.take_left]
    rw [front] at free
    cases standard : next.isLongName with
    | true =>
      simp only [standard, if_true] at absent
      exact absurd (Except.error.inj (Option.some.inj absent)) (by decide)
    | false =>
      have found {name : Name} (noNul : 0 ∉ name) (new : name ∉ shortNames before) :
          (if entry.shortName = name then some (.ok (next.filledFrom entry.shortName))
            else findEntry name 0 after) = some (lookup name (entry :: rest)) := by
        have found := find name noNul new
        simp only [run.findEntry, standard, name_eq, Bool.false_eq_true, if_false,
          Utils.Strings.equals_iff_of_noNul noNul] at found
        exact found
      refine ⟨⟨?_, longs, last, next, after, run, name_eq, free, standard⟩, ?_, ?_⟩
      · by_contra seen
        rw [not_or] at seen
        have wrong := found seen.1 seen.2
        rw [if_pos rfl, lookup_used used, if_pos rfl] at wrong
        have attributes : next.attributes = entry.attributes :=
          congrArg FullDirectoryEntry.attributes (Except.ok.inj (Option.some.inj wrong))
        rw [DirectoryEntry.isLongName, attributes] at standard
        rw [DirectoryEntry.isLongName, standard] at marked
        cases marked
      · rw [tail, listEntries_append_free free]
        rw [tail] at listed
        exact listed
      · intro name noNul new
        rw [mem_shortNames_concat used, not_or] at new
        have later := found noNul new.1
        rw [if_neg (Ne.symm new.2), lookup_used used, if_neg (Ne.symm new.2)] at later
        rw [tail, findEntry_append_free free, ← tail]
        exact later

theorem Exact.of_harmless (used : entry.isFree = false)
    (harmless : Harmless before entry rest) (later : Exact (before ++ [entry]) rest) :
    Exact before (entry :: rest) := by
  obtain ⟨unseen, longs, last, next, after, run, name_eq, free, standard⟩ := harmless
  have tail : rest = (longs ++ [last]).tail ++ [next] ++ after := by
    rw [List.append_assoc]
    exact run.tail
  constructor
  · have list := later.list
    rw [tail, listEntries_append_free free, ← tail] at list
    rw [run.listEntries, name_eq, shortNames_used used, List.drop_one, List.tail_cons, list]
    rfl
  · intro name noNul new
    have ne : entry.shortName ≠ name := by
      rintro rfl
      exact unseen.elim noNul new
    have found := later.find name noNul (by
      rw [mem_shortNames_concat used, not_or]
      exact ⟨new, ne.symm⟩)
    rw [tail, findEntry_append_free free, ← tail] at found
    simp only [run.findEntry, standard, name_eq, Bool.false_eq_true, if_false,
      Utils.Strings.equals_iff_of_noNul noNul, ne]
    rw [lookup_used used, if_neg ne]
    exact found

theorem exact_iff_allHarmless : Exact before entries ↔ AllHarmless before entries := by
  induction entries generalizing before with
  | nil =>
    refine iff_of_true ⟨rfl, fun _ _ _ => rfl⟩ fun front entry rest split => ?_
    exact absurd split.symm (List.append_ne_nil_of_right_ne_nil _ (List.cons_ne_nil _ _))
  | cons entry entries ih =>
    rw [allHarmless_cons, ← ih]
    by_cases misread : entry.isFree = false ∧ entry.isLongName = true
    · obtain ⟨used, marked⟩ := misread
      constructor
      · intro exact'
        obtain ⟨harmless, later⟩ := exact'.harmless used marked
        exact ⟨fun _ _ => harmless, later⟩
      · rintro ⟨harmless, later⟩
        exact .of_harmless used (harmless used marked) later
    · rw [not_and_or, Bool.not_eq_false, Bool.not_eq_true] at misread
      rw [exact_cons_other misread]
      refine (and_iff_right fun used marked => ?_).symm
      rcases misread with free | short
      · rw [used] at free
        cases free
      · rw [marked] at short
        cases short

end

/-- **Short entries.** `list_dir` gives the 11 name bytes of each slot in use, in order, and `get_child`
finds for each name without NUL the first of them that has it, with its size, first cluster and
attributes, if and only if no slot in use is read-only, or only harmless ones are. -/
theorem listsShort_iff {inode : FATInode} {store store' : BlockStore}
    {entries : List DirectoryEntry} (shows : inode.Shows store store' entries) :
    inode.ListsShort store store' entries ↔
      ∀ before entry rest, entries = before ++ entry :: rest → entry.isFree = false →
        entry.isLongName = true → Harmless before entry rest := by
  have same : inode.ListsShort store store' entries ↔ Exact [] entries := by
    constructor
    · rintro ⟨list, find⟩
      refine ⟨?_, fun name noNul _ => ?_⟩
      · rw [shows.listDir] at list
        exact (EStateM.Result.ok.inj list).1
      · have found := find name noNul
        rw [shows.getChild] at found
        cases here : findEntry name 0 entries with
        | none => cases there : lookup name entries <;> simp [here, there] at found
        | some result =>
          cases result <;> cases there : lookup name entries <;> simp_all
    · rintro ⟨list, find⟩
      refine ⟨by rw [shows.listDir, list], fun name noNul => ?_⟩
      rw [shows.getChild, find name noNul List.not_mem_nil]
      cases lookup name entries <;> rfl
  rw [same, exact_iff_allHarmless]
  rfl

theorem listsShort_iff_notes : ∃ store',
    (rootDirectory [notesEntry]).ListsShort .empty store'
      (notesEntry :: .replicate 15 freeEntry) := by
  have slots : (rootBlock [notesEntry]).directoryEntries 512 =
      notesEntry :: .replicate 15 freeEntry :=
    rootBlock_slots (by decide) (by decide)
  obtain ⟨store', shows⟩ := rootDirectory_shows slots
  refine ⟨store', (listsShort_iff shows).2 fun before entry rest split used marked => ?_⟩
  have mem : entry ∈ notesEntry :: .replicate 15 freeEntry := by
    rw [split]
    simp
  rcases List.mem_cons.1 mem with rfl | mem
  · cases marked
  · rw [List.eq_of_mem_replicate mem] at used
    cases used

/-- `NOTES.TXT`, read-only -/
def readOnlyEntry : DirectoryEntry :=
  ⟨[0x4e, 0x4f, 0x54, 0x45, 0x53, 0x20, 0x20, 0x20, 0x54, 0x58, 0x54, 0x21] ++ .replicate 20 0⟩

/-- A read-only file is not listed by its name. -/
theorem not_listsShort_readOnly : ∃ store' slots,
    (rootDirectory [readOnlyEntry]).Shows .empty store' slots ∧
    (∀ entry ∈ slots, entry.isFree = false → entry.attributes &&& 0x0F ≠ 0x0F) ∧
    ¬ (rootDirectory [readOnlyEntry]).ListsShort .empty store' slots := by
  have slots : (rootBlock [readOnlyEntry]).directoryEntries 512 =
      readOnlyEntry :: .replicate 15 freeEntry :=
    rootBlock_slots (by decide) (by decide)
  obtain ⟨store', shows⟩ := rootDirectory_shows slots
  refine ⟨store', _, shows, ?_, fun lists => ?_⟩
  · intro entry mem used
    rcases List.mem_cons.1 mem with rfl | mem
    · decide
    · rw [List.eq_of_mem_replicate mem] at used
      cases used
  · have list := lists.listDir
    rw [shows.listDir] at list
    have := (EStateM.Result.ok.inj list).1
    revert this
    decide

end MatteOS.FileSystem
