import MatteOS.Processes.Loader

/-!
# The language of module properties

A section of module properties is a row of records `key=value`, each with a NUL. What the parser has
read is at any time the records that it has appended, and the part of a record that it has in its
variables (`Reads`). The end of the section is looked at in a value only, so that the parser
accepts the records, and records with the start of a key behind them (`parsesRecords_iff`).
-/

namespace MatteOS.Processes.Loader

open Utils

/-! ## Records -/

/-- A printable character, which a `char` without sign is. -/
def Printable (c : BitVec 8) : Prop := isPrintable (c.setWidth 32) = true

instance : DecidablePred Printable := fun _ => inferInstanceAs (Decidable (_ = _))

def IsKey (key : List (BitVec 8)) : Prop := ∀ c ∈ key, Printable c ∧ c ≠ 0x3D

def IsValue (value : List (BitVec 8)) : Prop := ∀ c ∈ value, Printable c

/-- A property that can be written as a record. -/
def IsProperty (property : ModuleProperty) : Prop := IsKey property.1 ∧ IsValue property.2

/-- The record of a property. -/
def record (property : ModuleProperty) : List (BitVec 8) :=
  property.1 ++ 0x3D :: property.2 ++ [0]

/-- The bytes are the records of the properties, in their order. -/
def AreRecords (bytes : List (BitVec 8)) (properties : List ModuleProperty) : Prop :=
  (∀ property ∈ properties, IsProperty property) ∧ bytes = properties.flatMap record

theorem not_printable_nul : ¬Printable 0 := by decide

/-- Records end with a NUL, which a key does not have. -/
theorem AreRecords.key_eq_nil {bytes key : List (BitVec 8)} {properties : List ModuleProperty}
    (records : AreRecords (bytes ++ key) properties) (isKey : IsKey key) : key = [] := by
  rcases List.eq_nil_or_concat key with rfl | ⟨init, c, rfl⟩
  · rfl
  exfalso
  rcases List.eq_nil_or_concat properties with rfl | ⟨front, property, rfl⟩
  · simpa using records.2
  · have ends : bytes ++ init ++ [c] =
        front.flatMap record ++ property.1 ++ 0x3D :: property.2 ++ [0] := by
      simpa [record] using records.2
    obtain rfl := List.singleton_inj.1 (List.append_inj' ends rfl).2
    exact not_printable_nul (isKey 0 (by simp)).1

/-! ## What has been read -/

/-- The part of a record that is in the variables. -/
def ModinfoParser.pending (p : ModinfoParser) : List (BitVec 8) :=
  match p.state with
  | .key => p.currentString
  | .value => p.currentProperty.1 ++ 0x3D :: p.currentString

/-- What is in the variables is the start of a record. -/
def ModinfoParser.Started (p : ModinfoParser) : Prop :=
  match p.state with
  | .key => IsKey p.currentString
  | .value => IsKey p.currentProperty.1 ∧ IsValue p.currentString

/-- The parser has read `bytes`: it has appended their records to `out`, and has the rest in its
variables. -/
def Reads (out : List ModuleProperty) (bytes : List (BitVec 8)) (p : ModinfoParser) : Prop :=
  p.Started ∧ ∃ properties front, AreRecords front properties ∧
    p.outProperties = out ++ properties ∧ bytes = front ++ p.pending

section

variable {out : List ModuleProperty} {bytes : List (BitVec 8)} {p p' : ModinfoParser}
  {c : BitVec 8}

theorem AreRecords.concat {properties : List ModuleProperty} {property : ModuleProperty}
    (records : AreRecords bytes properties) (proper : IsProperty property) :
    AreRecords (bytes ++ record property) (properties ++ [property]) := by
  obtain ⟨all, rfl⟩ := records
  exact ⟨List.forall_mem_append.2 ⟨all, List.forall_mem_singleton.2 proper⟩, by simp⟩

theorem IsKey.concat {key : List (BitVec 8)} (isKey : IsKey key) (printable : Printable c)
    (other : c ≠ 0x3D) : IsKey (key ++ [c]) :=
  List.forall_mem_append.2 ⟨isKey, List.forall_mem_singleton.2 ⟨printable, other⟩⟩

theorem IsValue.concat {value : List (BitVec 8)} (isValue : IsValue value)
    (printable : Printable c) : IsValue (value ++ [c]) :=
  List.forall_mem_append.2 ⟨isValue, List.forall_mem_singleton.2 printable⟩

/-- A round that does not fail reads one more character. -/
theorem Reads.round (reads : Reads out bytes p) (round : p.round c = .ok p') :
    Reads out (bytes ++ [c]) p' := by
  obtain ⟨started, properties, front, records, appended, rfl⟩ := reads
  cases state : p.state with
  | key =>
    simp only [ModinfoParser.Started, state] at started
    simp only [ModinfoParser.round, state] at round
    split_ifs at round with equals nul printable
    · obtain rfl := Except.ok.inj round
      refine ⟨⟨started, by simp [IsValue]⟩, properties, front, records, appended, ?_⟩
      simp [ModinfoParser.pending, state, equals]
    · obtain rfl := Except.ok.inj round
      refine ⟨?_, properties, front, records, appended, ?_⟩
      · simp only [ModinfoParser.append, ModinfoParser.Started, state]
        exact started.concat printable equals
      · simp [ModinfoParser.pending, ModinfoParser.append, state]
  | value =>
    simp only [ModinfoParser.Started, state] at started
    simp only [ModinfoParser.round, state] at round
    split_ifs at round with nul printable
    · obtain rfl := Except.ok.inj round
      refine ⟨by simp [ModinfoParser.Started, IsKey],
        properties ++ [(p.currentProperty.1, p.currentString)], _, records.concat started, ?_, ?_⟩
      · simp [appended]
      · simp [ModinfoParser.pending, state, record, nul]
    · obtain rfl := Except.ok.inj round
      refine ⟨?_, properties, front, records, appended, ?_⟩
      · simp only [ModinfoParser.append, ModinfoParser.Started, state]
        exact ⟨started.1, started.2.concat printable⟩
      · simp [ModinfoParser.pending, ModinfoParser.append, state]

/-- What is read without failing. -/
theorem Reads.foldlM {later : List (BitVec 8)} (reads : Reads out bytes p)
    (rounds : later.foldlM ModinfoParser.round p = .ok p') : Reads out (bytes ++ later) p' := by
  induction later generalizing bytes p with
  | nil =>
    obtain rfl := Except.ok.inj rounds
    rwa [List.append_nil]
  | cons c later ih =>
    rw [List.foldlM_cons] at rounds
    cases first : p.round c with
    | error text =>
      rw [first] at rounds
      cases rounds
    | ok next =>
      rw [first] at rounds
      have read := ih (reads.round first) rounds
      rwa [List.append_assoc] at read

end

/-! ## What is accepted -/

/-- The parser at the start of a record. -/
def atRecord (out : List ModuleProperty) : ModinfoParser where
  state := .key
  currentString := []
  currentProperty := ([], [])
  outProperties := out

/-- The parser behind a key. -/
def atValue (key : List (BitVec 8)) (out : List ModuleProperty) : ModinfoParser where
  state := .value
  currentString := []
  currentProperty := (key, [])
  outProperties := out

section

variable {p : ModinfoParser} {chars : List (BitVec 8)}

theorem round_append {c : BitVec 8} (printable : Printable c)
    (other : p.state = .key → c ≠ 0x3D) : p.round c = .ok (p.append c) := by
  have notNul : c ≠ 0 := fun nul => not_printable_nul (nul ▸ printable)
  cases state : p.state with
  | key =>
    simp only [ModinfoParser.round, state]
    rw [if_neg (other state), if_neg notNul]
    exact if_pos printable
  | value =>
    simp only [ModinfoParser.round, state]
    rw [if_neg notNul]
    exact if_pos printable

/-- The characters of a key or a value are collected. -/
theorem foldlM_append (printable : ∀ c ∈ chars, Printable c)
    (other : p.state = .key → ∀ c ∈ chars, c ≠ 0x3D) :
    chars.foldlM ModinfoParser.round p =
      .ok { p with currentString := p.currentString ++ chars } := by
  induction chars generalizing p with
  | nil => simp [pure, Except.pure]
  | cons c chars ih =>
    have first := round_append (printable c List.mem_cons_self)
      fun state => other state c List.mem_cons_self
    have rest := ih (p := p.append c) (fun c' mem => printable c' (List.mem_cons_of_mem c mem))
      fun state c' mem => other state c' (List.mem_cons_of_mem c mem)
    rw [List.foldlM_cons, first]
    refine Eq.trans rest ?_
    simp [ModinfoParser.append]

/-- A record is read, and its property appended. -/
theorem foldlM_record {property : ModuleProperty} (proper : IsProperty property)
    (out : List ModuleProperty) :
    (record property).foldlM ModinfoParser.round (atRecord out) =
      .ok (atRecord (out ++ [property])) := by
  have key := foldlM_append (p := atRecord out) (fun c mem => (proper.1 c mem).1)
    fun _ c mem => (proper.1 c mem).2
  have value := foldlM_append (p := atValue property.1 out) proper.2 fun state => by cases state
  rw [record, List.foldlM_append, List.foldlM_append, key]
  exact congrArg (· >>= fun p => [0].foldlM ModinfoParser.round p) value

theorem foldlM_records {bytes : List (BitVec 8)} {properties : List ModuleProperty}
    (records : AreRecords bytes properties) (out : List ModuleProperty) :
    bytes.foldlM ModinfoParser.round (atRecord out) = .ok (atRecord (out ++ properties)) := by
  obtain ⟨proper, rfl⟩ := records
  induction properties generalizing out with
  | nil =>
    rw [List.append_nil]
    rfl
  | cons property properties ih =>
    rw [List.flatMap_cons, List.foldlM_append, foldlM_record (proper property List.mem_cons_self)]
    refine Eq.trans (ih _ fun other mem => proper other (List.mem_cons_of_mem _ mem)) ?_
    rw [List.append_assoc, List.singleton_append]

end

/-! ## The loop -/

/-- Inside the buffer the loop is its rounds, and what follows them unless one fails. -/
theorem loop_eq {buffer : Bytes64} {p : ModinfoParser} {place rounds : Nat}
    (inside : place + rounds ≤ buffer.val.length) :
    match ((buffer.val.drop place).take rounds).foldlM ModinfoParser.round p with
    | .ok p' => p.loop buffer place rounds = .ok p'.finish
    | .error text => ∃ out, p.loop buffer place rounds = .ok (.error text, out) := by
  induction rounds generalizing p place with
  | zero => exact rfl
  | succ rounds ih =>
    have bound : place < buffer.val.length := by omega
    rw [List.drop_eq_getElem_cons bound, List.take_succ_cons, List.foldlM_cons,
      ModinfoParser.loop, List.getElem?_eq_getElem bound, orUndefined_some, ok_bind]
    cases first : p.round buffer.val[place] with
    | error text => exact ⟨p.outProperties, rfl⟩
    | ok p' => exact ih (by omega)

/-! ## The grammar -/

/-- The bytes of a section. -/
def SectionHeader.bytes (sectionHeader : SectionHeader) (buffer : Bytes64) : List (BitVec 8) :=
  (buffer.val.drop sectionHeader.offset.toNat).take sectionHeader.size.toNat

def SectionHeader.Within (sectionHeader : SectionHeader) (buffer : Bytes64) : Prop :=
  sectionHeader.offset.toNat + sectionHeader.size.toNat ≤ buffer.val.length

/-- The parser returns; it succeeds if and only if the section is a row of records, and then
appends exactly their properties. -/
def ParsesRecords (buffer : Bytes64) (sectionHeader : SectionHeader)
    (out : List ModuleProperty) : Prop :=
  Returns (parseModinfo buffer sectionHeader out) fun result =>
    (result.1 = .ok () ↔ ∃ properties, AreRecords (sectionHeader.bytes buffer) properties) ∧
      ∀ properties, AreRecords (sectionHeader.bytes buffer) properties →
        result.2 = out ++ properties

/-- The bytes are records with the start of a key behind them. -/
def EndInKey (bytes : List (BitVec 8)) : Prop :=
  ∃ properties front key, AreRecords front properties ∧ IsKey key ∧ key ≠ [] ∧
    bytes = front ++ key

theorem parseModinfo_eq {buffer : Bytes64} {sectionHeader : SectionHeader}
    (out : List ModuleProperty) (within : sectionHeader.Within buffer) :
    match (sectionHeader.bytes buffer).foldlM ModinfoParser.round (atRecord out) with
    | .ok p => parseModinfo buffer sectionHeader out = .ok p.finish
    | .error text => ∃ out', parseModinfo buffer sectionHeader out = .ok (.error text, out') :=
  loop_eq within

theorem reads_nil (out : List ModuleProperty) : Reads out [] (atRecord out) := by
  refine ⟨?_, [], [], ⟨?_, rfl⟩, (List.append_nil out).symm, rfl⟩
  · intro c mem
    cases mem
  · intro property mem
    cases mem

/-- The start of a key at the end is not noticed. -/
theorem foldlM_of_endInKey {bytes : List (BitVec 8)} (ends : EndInKey bytes)
    (out : List ModuleProperty) :
    ∃ p, bytes.foldlM ModinfoParser.round (atRecord out) = .ok p ∧ p.state = .key := by
  obtain ⟨properties, front, key, records, isKey, -, rfl⟩ := ends
  have rest := foldlM_append (p := atRecord (out ++ properties)) (fun c mem => (isKey c mem).1)
    fun _ c mem => (isKey c mem).2
  refine ⟨{ atRecord (out ++ properties) with currentString := key }, ?_, rfl⟩
  rw [List.foldlM_append, foldlM_records records]
  exact rest

theorem EndInKey.not_records {bytes : List (BitVec 8)} (ends : EndInKey bytes)
    (properties : List ModuleProperty) : ¬AreRecords bytes properties := by
  obtain ⟨-, front, key, -, isKey, some, rfl⟩ := ends
  exact fun records => some (records.key_eq_nil isKey)

/-- Where the parser would succeed, there are records, and perhaps the start of a key. -/
theorem Reads.records {out : List ModuleProperty} {bytes : List (BitVec 8)} {p : ModinfoParser}
    (reads : Reads out bytes p) (state : p.state = .key) :
    EndInKey bytes ∨ ∃ properties, AreRecords bytes properties := by
  obtain ⟨started, properties, front, records, -, rfl⟩ := reads
  simp only [ModinfoParser.Started, state] at started
  simp only [ModinfoParser.pending, state]
  rcases eq_or_ne p.currentString [] with empty | some
  · rw [empty, List.append_nil]
    exact .inr ⟨properties, records⟩
  · exact .inl ⟨properties, front, p.currentString, records, started, some, rfl⟩

section

variable {buffer : Bytes64} {sectionHeader : SectionHeader} {out : List ModuleProperty}

/-- A section in which a round fails is no row of records. -/
theorem parsesRecords_of_error {text : String} (within : sectionHeader.Within buffer)
    (rounds : (sectionHeader.bytes buffer).foldlM ModinfoParser.round (atRecord out) =
      .error text) : ParsesRecords buffer sectionHeader out := by
  have none : ∀ properties, ¬AreRecords (sectionHeader.bytes buffer) properties := by
    intro properties records
    rw [foldlM_records records out] at rounds
    cases rounds
  have parsed := parseModinfo_eq out within
  simp only [rounds] at parsed
  obtain ⟨out', parsed⟩ := parsed
  rw [ParsesRecords, parsed, returns_ok]
  refine ⟨iff_of_false (fun success => ?_) ?_, fun properties records => ?_⟩
  · cases success
  · rintro ⟨properties, records⟩
    exact none properties records
  · exact absurd records (none properties)

/-- The last state of the parser decides. -/
theorem parsesRecords_of_ok {p : ModinfoParser} (within : sectionHeader.Within buffer)
    (rounds : (sectionHeader.bytes buffer).foldlM ModinfoParser.round (atRecord out) = .ok p) :
    ParsesRecords buffer sectionHeader out ↔
      (p.state = .key ↔ ∃ properties, AreRecords (sectionHeader.bytes buffer) properties) := by
  have parsed := parseModinfo_eq out within
  simp only [rounds] at parsed
  have success : p.finish.1 = .ok () ↔ p.state = .key := by
    cases state : p.state <;> simp [ModinfoParser.finish, state]
  have appended : p.finish.2 = p.outProperties := by
    rw [ModinfoParser.finish]
    split <;> rfl
  rw [ParsesRecords, parsed, returns_ok, success, appended, and_iff_left]
  intro properties records
  rw [foldlM_records records out] at rounds
  rw [← Except.ok.inj rounds]
  rfl

end

/-- **The language of the parser.** It is the grammar but for the sections that end in a key. -/
theorem parsesRecords_iff (buffer : Bytes64) (sectionHeader : SectionHeader)
    (out : List ModuleProperty) (within : sectionHeader.Within buffer) :
    ParsesRecords buffer sectionHeader out ↔ ¬EndInKey (sectionHeader.bytes buffer) := by
  cases rounds : (sectionHeader.bytes buffer).foldlM ModinfoParser.round (atRecord out) with
  | error text =>
    refine iff_of_true (parsesRecords_of_error within rounds) fun ends => ?_
    obtain ⟨p, rounds', -⟩ := foldlM_of_endInKey ends out
    rw [rounds] at rounds'
    cases rounds'
  | ok p =>
    rw [parsesRecords_of_ok within rounds]
    constructor
    · intro accepts ends
      obtain ⟨p', rounds', state⟩ := foldlM_of_endInKey ends out
      obtain rfl := Except.ok.inj (rounds.symm.trans rounds')
      obtain ⟨properties, records⟩ := accepts.1 state
      exact ends.not_records properties records
    · intro complete
      constructor
      · intro state
        exact ((reads_nil out).foldlM rounds |>.records state).resolve_left complete
      · rintro ⟨properties, records⟩
        rw [foldlM_records records out] at rounds
        rw [← Except.ok.inj rounds]
        rfl

/-- The record `a=b`. -/
theorem parsesRecords_iff_record :
    ParsesRecords ⟨[0x61, 0x3D, 0x62, 0], by decide⟩ ⟨0, 4⟩ [] := by
  have proper : IsProperty ([0x61], [0x62]) :=
    ⟨List.forall_mem_singleton.2 (by decide), List.forall_mem_singleton.2 (by decide)⟩
  have records : AreRecords [0x61, 0x3D, 0x62, 0] [([0x61], [0x62])] :=
    ⟨List.forall_mem_singleton.2 proper, rfl⟩
  exact (parsesRecords_iff ⟨[0x61, 0x3D, 0x62, 0], by decide⟩ ⟨0, 4⟩ [] (Nat.le_refl 4)).2
    fun ends => ends.not_records _ records

/-- The byte `a` alone is accepted, and no property is read. -/
theorem not_parsesRecords_key : ¬ParsesRecords ⟨[0x61], by decide⟩ ⟨0, 1⟩ [] := by
  have isKey : IsKey [0x61] := List.forall_mem_singleton.2 (by decide)
  have ends : EndInKey [0x61] :=
    ⟨[], [], [0x61], ⟨by simp, rfl⟩, isKey, List.cons_ne_nil _ _, rfl⟩
  have within : SectionHeader.Within ⟨0, 1⟩ ⟨[0x61], by decide⟩ := Nat.le_refl 1
  have rounds : (SectionHeader.bytes ⟨0, 1⟩ ⟨[0x61], by decide⟩).foldlM ModinfoParser.round
      (atRecord []) = .ok ((atRecord []).append 0x61) := rfl
  rw [parsesRecords_of_ok within rounds]
  intro accepts
  obtain ⟨properties, records⟩ := accepts.1 rfl
  exact ends.not_records properties records

end MatteOS.Processes.Loader
