import MatteOS.FileSystem.Verify.ShortEntries

/-!
# Long names

The last part of a long name, which is stored first, has bit 0x40, and `is_final_entry` ends the loop
over the parts at it. So a name is decoded whole if it needs one part only, and if no run before it
takes its slots away (`decodesName_iff`).
-/

namespace MatteOS.FileSystem

/-- The characters of a part of a name. -/
def DirectoryEntry.nameWords (entry : DirectoryEntry) : List (BitVec 16) :=
  (List.range 5).map (fun i => entry.word (1 + 2 * i)) ++
    (List.range 6).map (fun i => entry.word (14 + 2 * i)) ++
    (List.range 2).map fun i => entry.word (28 + 2 * i)

/-- A name with what fills the part it ends in. -/
def paddedName (name : Name) : List (BitVec 16) :=
  name.map (BitVec.setWidth 16) ++ 0 :: .replicate 12 0xFFFF

/-- The long entries of a name, 13 characters in each, the last part first. -/
structure Stores (longs : List DirectoryEntry) (name : Name) : Prop where
  complete : LongSet longs
  parts : longs.length = (name.length + 12) / 13
  words : longs.reverse.flatMap DirectoryEntry.nameWords = (paddedName name).take (13 * longs.length)

/-- The slots before the name are listed, then the name, then the slots behind its entry, and the name
is that of its entry. -/
structure FATInode.DecodesName (inode : FATInode) (store store' : BlockStore)
    (before : List DirectoryEntry) (name : Name) (entry : DirectoryEntry)
    (after : List DirectoryEntry) : Prop where
  listDir : ∃ names ∈ listEntries 0 before, ∃ names' ∈ listEntries 0 after,
    inode.listDir store = .ok (some (names ++ name :: names')) store'
  getChild : inode.getChild name store = .ok (some ⟨inode.fs, entry.filledFrom name⟩) store'

/-- No run in these slots goes on behind them or takes the slot behind them, and none of the slots
behind a run is read-only. -/
inductive Passed : List DirectoryEntry → Prop where
  | nil : Passed []
  | free {entry : DirectoryEntry} {entries : List DirectoryEntry} (free : entry.isFree = true)
      (rest : Passed entries) : Passed (entry :: entries)
  | short {entry : DirectoryEntry} {entries : List DirectoryEntry} (used : entry.isFree = false)
      (short : entry.isLongName = false) (rest : Passed entries) : Passed (entry :: entries)
  | run {entry last next : DirectoryEntry} {entries longs after : List DirectoryEntry}
      (run : Run entry entries longs last (next :: after)) (standard : next.isLongName = false)
      (rest : Passed after) : Passed (entry :: entries)

/-! ## One part -/

section

variable {longs before entries : List DirectoryEntry} {long entry : DirectoryEntry} {name : Name}

/-- The characters up to a terminator, as bytes. -/
def decoded (words : List (BitVec 16)) : Name :=
  (words.takeWhile fun c => c != 0 && c != 0xFFFF).map fun c =>
    (c &&& (0xFF00 : BitVec 16) >>> 8).setWidth 8

theorem DirectoryEntry.longCharacters_eq_decoded : entry.longCharacters =
    decoded (entry.nameWords.take 5) ++ decoded ((entry.nameWords.drop 5).take 6) ++
      decoded (entry.nameWords.drop 11) := rfl

theorem decoded_cons {c : BitVec 8} (nonzero : c ≠ 0) (words : List (BitVec 16)) :
    decoded (c.setWidth 16 :: words) = c :: decoded words := by
  have mask : (0xFF00 : BitVec 16) >>> 8 = (BitVec.allOnes 8).setWidth 16 := by decide
  have byte : (c.setWidth 16 &&& (0xFF00 : BitVec 16) >>> 8).setWidth 8 = c := by
    rw [mask, ← BitVec.setWidth_and, BitVec.and_allOnes, BitVec.setWidth_setWidth_of_le _ (by decide),
      BitVec.setWidth_eq]
  have character : (c.setWidth 16 != 0 && c.setWidth 16 != 0xFFFF) = true := by
    rw [Bool.and_eq_true, bne_iff_ne, bne_iff_ne]
    constructor <;> bv_omega
  rw [decoded, List.takeWhile_cons, if_pos character, List.map_cons, byte]
  rfl

theorem decoded_padding (drop take : Nat) :
    decoded (((0 :: .replicate 12 0xFFFF : List (BitVec 16)).drop drop).take take) = [] := by
  have stops : ∀ c ∈ ((0 :: .replicate 12 0xFFFF : List (BitVec 16)).drop drop).take take,
      (c != 0 && c != 0xFFFF) = false := by
    intro c mem
    rcases List.mem_cons.1 (List.mem_of_mem_drop (List.mem_of_mem_take mem)) with rfl | mem
    · rfl
    · rw [List.eq_of_mem_replicate mem]
      rfl
  cases words : ((0 :: .replicate 12 0xFFFF : List (BitVec 16)).drop drop).take take with
  | nil => rfl
  | cons c words =>
    rw [words] at stops
    rw [decoded, List.takeWhile_cons, stops c List.mem_cons_self]
    rfl

/-- A piece of a padded name is the piece of the name. -/
theorem decoded_paddedName (noNul : 0 ∉ name) (drop take : Nat) :
    decoded (((paddedName name).drop drop).take take) = (name.drop drop).take take := by
  induction name generalizing drop take with
  | nil => rw [paddedName, List.map_nil, List.nil_append, decoded_padding, List.drop_nil, List.take_nil]
  | cons c name ih =>
    rw [List.mem_cons, not_or] at noNul
    obtain ⟨first, rest⟩ := noNul
    cases drop with
    | succ drop => exact ih rest drop take
    | zero =>
      cases take with
      | zero => rfl
      | succ take =>
        have tail := ih rest 0 take
        exact (decoded_cons (Ne.symm first) _).trans (congrArg (c :: ·) tail)

/-- A name in one part is decoded whole. -/
theorem nameOf_of_stores (stored : Stores [long] name) (noNul : 0 ∉ name) : nameOf [long] = name := by
  have few := stored.parts
  have words := stored.words
  rw [List.length_singleton] at few words
  have whole : long.nameWords = (paddedName name).take 13 := by simpa using words
  have last : name.drop 13 = [] := List.drop_of_length_le (by omega)
  have three : long.longCharacters = name.take 5 ++ (name.drop 5).take 6 ++ (name.drop 11).take 2 := by
    rw [DirectoryEntry.longCharacters_eq_decoded, whole, List.take_take, List.drop_take, List.take_take,
      List.drop_take]
    have front := decoded_paddedName noNul 0 5
    have middle := decoded_paddedName noNul 5 6
    have back := decoded_paddedName noNul 11 2
    rw [List.drop_zero, List.drop_zero] at front
    rw [show min 5 13 = 5 from rfl, show min 6 (13 - 5) = 6 from rfl, front, middle, back]
  have end' : (name.drop 11).take 2 = name.drop 11 := by
    refine List.take_of_length_le ?_
    rw [List.length_drop]
    omega
  have tail : (name.drop 5).take 6 ++ name.drop 11 = name.drop 5 := by
    rw [← List.drop_drop (i := 6) (j := 5)]
    exact List.take_append_drop 6 _
  simp only [nameOf, List.reverse_singleton, List.flatMap_singleton, three, end', List.append_assoc]
  rw [tail, List.take_append_drop]

/-! ## The first slot of a name -/

/-- The first byte of the last part: its number with bit 0x40. -/
theorem order_bits {n : Nat} (few : n ≤ 20) :
    (0x40 ||| .ofNat 8 n == (0xE5 : BitVec 8) || 0x40 ||| .ofNat 8 n == (0x00 : BitVec 8)) = false ∧
      ((0x40 ||| .ofNat 8 n) &&& (0x40 : BitVec 8) != 0) = true := by
  have sum : (0x40 ||| .ofNat 8 n : BitVec 8) = .ofNat 8 (0x40 + n) := by
    apply BitVec.eq_of_toNat_eq
    have or := Nat.two_pow_add_eq_or_of_lt (i := 6) (b := n) (by omega) 1
    rw [BitVec.toNat_or, BitVec.toNat_ofNat, BitVec.toNat_ofNat,
      Nat.mod_eq_of_lt (by omega : n < 2 ^ 8), Nat.mod_eq_of_lt (by omega : 64 + n < 2 ^ 8)]
    exact or.symm
  have bit : (0x40 ||| .ofNat 8 n) &&& (0x40 : BitVec 8) = 0x40 := by
    ext i inside
    simp only [BitVec.getElem_and, BitVec.getElem_or]
    grind
  rw [bit, sum, Bool.or_eq_false_iff, beq_eq_false_iff_ne, beq_eq_false_iff_ne]
  refine ⟨?_, rfl⟩
  constructor <;> bv_omega

theorem LongSet.head {longs : List DirectoryEntry} (complete : LongSet (long :: longs)) :
    long.isFree = false ∧ long.isLongName = true ∧ long.isFinalEntry = true := by
  obtain ⟨few, parts⟩ := complete
  obtain ⟨attributes, order⟩ := parts 0 (Nat.zero_lt_succ _)
  simp only [List.get_eq_getElem, List.getElem_cons_zero, if_pos, List.length_cons,
    Nat.sub_zero] at attributes order few
  obtain ⟨inUse, final⟩ := order_bits few
  refine ⟨?_, ?_, ?_⟩
  · rw [DirectoryEntry.isFree, order]
    exact inUse
  · rw [DirectoryEntry.isLongName, attributes]
    rfl
  · rw [DirectoryEntry.isFinalEntry, order]
    exact final

theorem LongSet.second {next : DirectoryEntry} {longs : List DirectoryEntry}
    (complete : LongSet (long :: next :: longs)) : next.isLongName = true := by
  obtain ⟨attributes, -⟩ := complete.2 1 (Nat.succ_lt_succ (Nat.zero_lt_succ _))
  simp only [List.get_eq_getElem, List.getElem_cons_succ, List.getElem_cons_zero] at attributes
  rw [DirectoryEntry.isLongName, attributes]
  rfl

/-- The loops end the run of a name at its first slot. -/
theorem LongSet.run {longs entries : List DirectoryEntry} (complete : LongSet (long :: longs)) :
    Run long entries [] long entries where
  used := complete.head.1
  marked := complete.head.2.1
  split := rfl
  inner _ mem := absurd mem List.not_mem_nil
  final := complete.head.2.2

/-! ## The slots before a name -/

theorem Run.append {longs after : List DirectoryEntry} {last : DirectoryEntry}
    (run : Run entry entries longs last after) (behind : List DirectoryEntry) :
    Run entry (entries ++ behind) longs last (after ++ behind) where
  used := run.used
  marked := run.marked
  split := by rw [← List.cons_append, run.split, List.append_assoc, List.cons_append]
  inner := run.inner
  final := run.final

/-- The loops come to the slots behind those that they pass. -/
theorem Passed.listEntries (passed : Passed before) : ∃ names, listEntries 0 before = some names ∧
    ∀ entries, listEntries 0 (before ++ entries) = (listEntries 0 entries).map (names ++ ·) := by
  induction passed with
  | nil => exact ⟨[], rfl, fun entries => (congrFun Option.map_id _).symm⟩
  | free free _ ih =>
    obtain ⟨names, list, more⟩ := ih
    refine ⟨names, by rw [listEntries_free free, list], fun entries => ?_⟩
    rw [List.cons_append, listEntries_free free, more]
  | @short entry _ used short _ ih =>
    obtain ⟨names, list, more⟩ := ih
    refine ⟨entry.shortName :: names, by rw [listEntries_short used short, list]; rfl,
      fun entries => ?_⟩
    rw [List.cons_append, listEntries_short used short, more, Option.map_map]
    rfl
  | @run entry last next entries longs after run _ _ ih =>
    obtain ⟨names, list, more⟩ := ih
    refine ⟨nameOf (longs ++ [last]) :: names, ?_, fun behind => ?_⟩
    · rw [run.listEntries, List.drop_one, List.tail_cons, list]
      rfl
    · rw [List.cons_append, (run.append behind).listEntries, List.cons_append, List.drop_one,
        List.tail_cons, more, Option.map_map]
      rfl

theorem Passed.findEntry (passed : Passed before) (noNul : 0 ∉ name)
    (new : ∀ names ∈ FileSystem.listEntries 0 before, name ∉ names) (entries : List DirectoryEntry) :
    findEntry name 0 (before ++ entries) = findEntry name 0 entries := by
  induction passed with
  | nil => rfl
  | free free _ ih =>
    rw [listEntries_free free] at new
    rw [List.cons_append, findEntry_free free, ih new]
  | @short entry before used short rest ih =>
    obtain ⟨names, list, -⟩ := rest.listEntries
    rw [listEntries_short used short, list] at new
    obtain ⟨other, later⟩ := not_or.1 (mt List.mem_cons.2 (new _ rfl))
    rw [List.cons_append, findEntry_short used short,
      if_neg (mt (Utils.Strings.equals_iff_of_noNul noNul).1 (Ne.symm other))]
    refine ih fun names' list' => ?_
    rw [← Option.some.inj (list.symm.trans list')]
    exact later
  | @run entry last next before longs after run standard rest ih =>
    obtain ⟨names, list, -⟩ := rest.listEntries
    rw [run.listEntries, List.drop_one, List.tail_cons, list] at new
    obtain ⟨other, later⟩ := not_or.1 (mt List.mem_cons.2 (new _ rfl))
    rw [List.cons_append, (run.append entries).findEntry]
    simp only [List.cons_append, standard, Bool.false_eq_true, if_false,
      mt (Utils.Strings.equals_iff_of_noNul noNul).1 (Ne.symm other)]
    refine ih fun names' list' => ?_
    rw [← Option.some.inj (list.symm.trans list')]
    exact later

/-- Where a lookup comes to a read-only slot behind some slots, it has passed them. -/
theorem passed_of_loops {before : List DirectoryEntry} {names : List Name} (noNul : 0 ∉ name)
    (marked : long.isLongName = true) (list : listEntries 0 before = some names)
    (new : name ∉ names)
    (find : ∃ found, findEntry name 0 (before ++ long :: entries) = some (.ok found)) :
    Passed before := by
  match before with
  | [] => exact .nil
  | entry :: before =>
    rw [List.cons_append] at find
    cases free : entry.isFree with
    | true =>
      rw [listEntries_free free] at list
      rw [findEntry_free free] at find
      exact .free free (passed_of_loops noNul marked list new find)
    | false =>
      cases short : entry.isLongName with
      | false =>
        rw [listEntries_short free short] at list
        obtain ⟨names, inside, rfl⟩ := Option.map_eq_some_iff.1 list
        obtain ⟨other, later⟩ := not_or.1 (mt List.mem_cons.2 new)
        rw [findEntry_short free short,
          if_neg (mt (Utils.Strings.equals_iff_of_noNul noNul).1 (Ne.symm other))] at find
        exact .short free short (passed_of_loops noNul marked inside later find)
      | true =>
        rcases run_cases (entry :: before) with inner | ⟨longs, last, after, split, inner, final⟩
        · rw [listEntries_none free short inner] at list
          cases list
        · have run : Run entry before longs last after := ⟨free, short, split, inner, final⟩
          rw [run.listEntries] at list
          obtain ⟨names, inside, rfl⟩ := Option.map_eq_some_iff.1 list
          obtain ⟨other, later⟩ := not_or.1 (mt List.mem_cons.2 new)
          rw [(run.append _).findEntry] at find
          match after with
          | [] => simp [marked] at find
          | next :: after =>
            cases standard : next.isLongName with
            | true => simp [standard] at find
            | false =>
              simp only [List.cons_append, standard, Bool.false_eq_true, if_false,
                mt (Utils.Strings.equals_iff_of_noNul noNul).1 (Ne.symm other)] at find
              have length := congrArg List.length split
              simp only [List.length_cons, List.length_append] at length
              have less : after.length < before.length := by omega
              exact .run run standard (passed_of_loops noNul marked inside later find)
termination_by before.length
decreasing_by
  all_goals
    simp only [List.length_cons]
    omega

end

/-- The characters of a name that FAT calls ASCII. -/
def Ascii (name : Name) : Prop := ∀ c ∈ name, 0 < c ∧ c < 0x80

section

variable {inode : FATInode} {store store' : BlockStore} {before longs after : List DirectoryEntry}
  {entry : DirectoryEntry} {name : Name}

/-- What a lookup makes of the slots of a name. -/
theorem findEntry_stored (stored : Stores longs name) (noNul : 0 ∉ name) (nonempty : 1 ≤ name.length) :
    findEntry name 0 (longs ++ entry :: after) =
      if name.length ≤ 13 ∧ entry.isLongName = false then some (.ok (entry.filledFrom name))
      else some (.error
        "Corrupt directory: Last Long name entry not followed by standard entry") := by
  have parts := stored.parts
  match longs with
  | [] =>
    rw [List.length_nil] at parts
    omega
  | [long] =>
    rw [List.length_singleton] at parts
    have few : name.length ≤ 13 := by omega
    rw [List.singleton_append, stored.complete.run.findEntry, List.nil_append,
      nameOf_of_stores stored noNul, Utils.Strings.equals_self noNul]
    cases short : entry.isLongName <;> simp [few, short]
  | long :: next :: longs =>
    have many : ¬ name.length ≤ 13 := by
      rw [List.length_cons, List.length_cons] at parts
      omega
    rw [List.cons_append, stored.complete.run.findEntry, List.cons_append]
    simp only [stored.complete.second, if_true, many, false_and, if_false]

theorem listEntries_stored (stored : Stores longs name) (noNul : 0 ∉ name)
    (nonempty : 1 ≤ name.length) (few : name.length ≤ 13) :
    listEntries 0 (longs ++ entry :: after) = (listEntries 0 after).map (name :: ·) := by
  obtain ⟨long, rfl⟩ := List.length_eq_one_iff.1 (show longs.length = 1 by
    rw [stored.parts]
    omega)
  rw [List.singleton_append, stored.complete.run.listEntries, List.nil_append,
    nameOf_of_stores stored noNul]
  rfl

/-- **Long names.** For a name that the slots before it do not have, its long entries are listed as this
name and looked up by it, with the size, first cluster and attributes of its entry, if and only if the
name has 13 characters at most, its entry is not read-only, no run before it is misread to go on here,
and the slots behind are listed without leaving the cluster. -/
theorem decodesName_iff (shows : inode.Shows store store' (before ++ (longs ++ entry :: after)))
    (stored : Stores longs name) (ascii : Ascii name)
    (length : 1 ≤ name.length ∧ name.length ≤ 255)
    (new : ∀ names ∈ listEntries 0 before, name ∉ names) :
    inode.DecodesName store store' before name entry after ↔
      Passed before ∧ name.length ≤ 13 ∧ entry.attributes &&& 1 = 0 ∧ Contained true after := by
  have noNul : 0 ∉ name := fun mem => absurd (ascii 0 mem).1 (by decide)
  have writable : entry.isLongName = false ↔ entry.attributes &&& 1 = 0 := by
    simp [DirectoryEntry.isLongName]
  rw [← writable]
  constructor
  · rintro ⟨⟨names, list, names', list', -⟩, find⟩
    have found : findEntry name 0 (before ++ (longs ++ entry :: after)) =
        some (.ok (entry.filledFrom name)) := by
      rw [shows.getChild] at find
      cases found : findEntry name 0 (before ++ (longs ++ entry :: after)) with
      | none => simp [found] at find
      | some result => cases result <;> simp_all
    have passed : Passed before := by
      cases longs with
      | nil =>
        have parts := stored.parts
        rw [List.length_nil] at parts
        omega
      | cons long longs =>
        exact passed_of_loops noNul stored.complete.head.2.1 list (new names list) ⟨_, found⟩
    rw [passed.findEntry noNul new, findEntry_stored stored noNul length.1] at found
    have one : name.length ≤ 13 ∧ entry.isLongName = false := by
      by_contra other
      rw [if_neg other] at found
      cases found
    have contained : Contained true after :=
      contained_of_loops after.length (Nat.le_refl _) (list' ▸ Option.some_ne_none _) (Or.inl rfl)
    exact ⟨passed, one.1, one.2, contained⟩
  · rintro ⟨passed, few, short, contained⟩
    obtain ⟨names, list, more⟩ := passed.listEntries
    obtain ⟨names', list'⟩ := Option.ne_none_iff_exists'.1 contained.listEntries
    refine ⟨⟨names, list, names', list', ?_⟩, ?_⟩
    · rw [shows.listDir, more, listEntries_stored stored noNul length.1 few, list']
      rfl
    · rw [shows.getChild, passed.findEntry noNul new, findEntry_stored stored noNul length.1,
        if_pos ⟨few, short⟩]

end

/-- `notes.txt` -/
def notesName : Name := [0x6e, 0x6f, 0x74, 0x65, 0x73, 0x2e, 0x74, 0x78, 0x74]

/-- The long entry of `notes.txt` -/
def notesPart : DirectoryEntry :=
  ⟨[0x41, 0x6e, 0, 0x6f, 0, 0x74, 0, 0x65, 0, 0x73, 0, 0x0f, 0, 0x5a, 0x2e, 0, 0x74, 0, 0x78, 0,
    0x74, 0, 0, 0, 0xff, 0xff, 0, 0, 0xff, 0xff, 0xff, 0xff]⟩

theorem decodesName_iff_notes : ∃ store',
    (rootDirectory [notesPart, notesEntry]).DecodesName .empty store' [] notesName notesEntry
      (.replicate 14 freeEntry) := by
  have slots : (rootBlock [notesPart, notesEntry]).directoryEntries 512 =
      [] ++ ([notesPart] ++ notesEntry :: .replicate 14 freeEntry) :=
    rootBlock_slots (by decide) (by decide)
  obtain ⟨store', shows⟩ := rootDirectory_shows slots
  have stored : Stores [notesPart] notesName := by
    refine ⟨⟨by decide, fun i h => ?_⟩, rfl, rfl⟩
    obtain rfl := Nat.lt_one_iff.1 h
    exact ⟨rfl, rfl⟩
  have free : ∀ n, Contained true (.replicate n freeEntry) := by
    intro n
    induction n with
    | zero => exact .nil
    | succ n ih => exact .free rfl ih
  refine ⟨store', (decodesName_iff shows stored (by simp [Ascii, notesName]) (by decide) ?_).2
    ⟨.nil, by decide, rfl, free 14⟩⟩
  rintro names ⟨⟩
  exact List.not_mem_nil

/-- `abcdefghijklmn` -/
def alphabetName : Name :=
  [0x61, 0x62, 0x63, 0x64, 0x65, 0x66, 0x67, 0x68, 0x69, 0x6a, 0x6b, 0x6c, 0x6d, 0x6e]

/-- A name in two parts is not decoded. -/
theorem not_decodesName_alphabet : ∃ store',
    (rootDirectory [lastPart, firstPart, aliasEntry]).Shows .empty store'
      ([] ++ ([lastPart, firstPart] ++ aliasEntry :: .replicate 13 freeEntry)) ∧
    Stores [lastPart, firstPart] alphabetName ∧ Ascii alphabetName ∧
    ¬ (rootDirectory [lastPart, firstPart, aliasEntry]).DecodesName .empty store' [] alphabetName
      aliasEntry (.replicate 13 freeEntry) := by
  have slots : (rootBlock [lastPart, firstPart, aliasEntry]).directoryEntries 512 =
      [] ++ ([lastPart, firstPart] ++ aliasEntry :: .replicate 13 freeEntry) :=
    rootBlock_slots (by decide) (by decide)
  obtain ⟨store', shows⟩ := rootDirectory_shows slots
  have stored : Stores [lastPart, firstPart] alphabetName := by
    refine ⟨⟨by decide, fun i h => ?_⟩, rfl, rfl⟩
    match i, h with
    | 0, _ => exact ⟨rfl, rfl⟩
    | 1, _ => exact ⟨rfl, rfl⟩
  refine ⟨store', shows, stored, by simp [Ascii, alphabetName], ?_⟩
  rintro ⟨-, find⟩
  rw [shows.getChild, List.nil_append, findEntry_stored stored (by decide) (by decide),
    if_neg (by decide)] at find
  cases find

end MatteOS.FileSystem
