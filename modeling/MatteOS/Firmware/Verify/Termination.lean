import Mathlib.Logic.Relation
import MatteOS.Firmware.Verify.FDTParser

/-!
# Termination of the parser

An iteration of `parse_node` leads to a later position, or to a state nearer to the next read at
the same one. Only where a name or a value is read can it lead back: the padding after it ends at
an address of which `align_to` keeps 32 bits.
-/

namespace MatteOS.Firmware

open ByteMemory FDTNodeType Relation

/-- Every string in memory has its NUL. -/
def StringsEnd (m : Memory) : Prop := ∀ a, ∃ n, m (a + n) = 0

section Iterations

variable (m : Memory) (header : FDTHeader)

/-- The state and `current_offset` of an iteration of `parse_node`, and those of an iteration after
it: the next one, which may be after a recursive call, or the first one of the call. -/
inductive Leads : ParserState × Nat → ParserState × Nat → Prop
  | begin {p} (inside : InBlock header p) (type : word m p = FDT_BEGIN_NODE) :
      Leads (.none, p) (.beginNode, p + 4)
  | name {p name} (inside : InBlock header p) (nameAt : CStringAt m p name) :
      Leads (.beginNode, p) (.nodeName, alignTo 4 (p + name.length))
  | skip {p} (inside : InBlock header p) (type : word m p = 0 ∨ word m p = FDT_NOP) :
      Leads (.nodeName, p) (.nodeName, p + 4)
  | prop {p} (inside : InBlock header p) (type : word m p = FDT_PROP) :
      Leads (.nodeName, p) (.prop, p + 4)
  | call {p} (inside : InBlock header p) (type : word m p = FDT_BEGIN_NODE) :
      Leads (.nodeName, p) (.none, p)
  | afterCall {p stop childNode} (inside : InBlock header p) (type : word m p = FDT_BEGIN_NODE)
      (run : Parses m header .none .empty p p (childNode, stop)) :
      Leads (.nodeName, p) (.nodeName, stop + 4)
  | endNode {p} (inside : InBlock header p) (type : word m p = FDT_END_NODE) :
      Leads (.nodeName, p) (.endNode, p)
  | ending {p} (inside : InBlock header p) (type : word m p = FDT_END) :
      Leads (.nodeName, p) (.ending, p + 4)
  | property {p} (inside : InBlock header p) :
      Leads (.prop, p) (.nodeName, alignTo 4 (p + 8 + (word m p).toNat))
  | afterEnd {p} (inside : InBlock header p) : Leads (.ending, p) (.ending, p + 4)

/-- The iterations of a run of `parse_nodes`, those of the recursive calls among them. -/
def Visits : ParserState × Nat → Prop :=
  ReflTransGen (Leads m header) (.none, header.address + header.offDtStruct.toNat)

/-- What is read in this state ends, with its padding, at an address that is not behind the
position after it is cut to 32 bits. -/
def Kept : ParserState × Nat → Prop
  | (.beginNode, p) => ∀ name, InBlock header p → CStringAt m p name →
      p ≤ nextWord (p + name.length) % 2 ^ 32
  | (.prop, p) => InBlock header p → p ≤ nextWord (p + 8 + (word m p).toNat) % 2 ^ 32
  | _ => True

end Iterations

/-- How many iterations may stay at one position. -/
def ParserState.rank : ParserState → Nat
  | .beginNode | .prop => 2
  | .nodeName => 1
  | .none | .endNode | .ending => 0

/-- Progress: the position moves on, or only the state does. -/
def Advances (x y : ParserState × Nat) : Prop :=
  x.2 < y.2 ∨ x.2 = y.2 ∧ y.1.rank < x.1.rank

/-! ## Iterations left -/

section Measure

variable {m : Memory} {header : FDTHeader}

/-- More than the iterations left, as long as all make progress. -/
def iterationsLeft (header : FDTHeader) (x : ParserState × Nat) : Nat :=
  if InBlock header x.2 then 3 * (header.address + 2 ^ 32 - x.2) + x.1.rank + 1 else 0

theorem ParserState.rank_le (state : ParserState) : state.rank ≤ 2 := by
  cases state <;> decide

theorem Advances.le {x y : ParserState × Nat} (advances : Advances x y) : x.2 ≤ y.2 := by
  rcases advances with lt | ⟨eq, -⟩ <;> omega

theorem Advances.iterationsLeft_lt {x y : ParserState × Nat} (advances : Advances x y)
    (behind : header.address ≤ x.2) (inside : InBlock header x.2) :
    iterationsLeft header y < iterationsLeft header x := by
  have le := advances.le
  have small := y.1.rank_le
  unfold iterationsLeft
  rw [if_pos inside]
  split
  case isFalse => omega
  case isTrue inside' =>
    rw [inBlock_iff (by omega)] at inside'
    have size := header.sizeDtStruct.isLt
    rcases advances with lt | ⟨eq, lower⟩ <;> omega

/-! ## Every iteration ends -/

theorem StringsEnd.exists_cString (stringsEnd : StringsEnd m) (a : Nat) :
    ∃ name, CStringAt m a name := by
  obtain ⟨n, nul⟩ := stringsEnd a
  induction n generalizing a with
  | zero => exact ⟨[], trivial, nul, List.not_mem_nil⟩
  | succ n ih =>
    by_cases here : m a = 0
    · exact ⟨[], trivial, here, List.not_mem_nil⟩
    rw [Nat.add_comm n, ← Nat.add_assoc] at nul
    obtain ⟨name, bytes, ends, noNul⟩ := ih (a + 1) nul
    refine ⟨m a :: name, ⟨rfl, bytes⟩, ?_, ?_⟩
    · rwa [List.length_cons, Nat.add_comm name.length, ← Nat.add_assoc]
    · rw [List.mem_cons, not_or]
      exact ⟨fun zero => here zero.symm, noNul⟩

theorem bytesAt_stringOfLength (m : Memory) (a n : Nat) :
    BytesAt m a (stringOfLength m a n) := by
  induction n generalizing a with
  | zero => trivial
  | succ n ih =>
    rw [stringOfLength, List.range_succ_eq_map, List.map_cons, List.map_map]
    refine ⟨rfl, ?_⟩
    have tail := ih (a + 1)
    simpa only [stringOfLength, Function.comp_def, Nat.succ_eq_add_one, Nat.add_assoc,
      Nat.add_comm 1] using tail

attribute [local simp] parseLoop

section Rules

variable {node : FDTNode} {offset cur : Nat} {r : Option FDTNode × Nat}

theorem Parses.unknown (inside : InBlock header cur)
    (skipped : ¬(word m cur = 0 ∨ word m cur = FDT_NOP)) (prop : word m cur ≠ FDT_PROP)
    (begins : word m cur ≠ FDT_BEGIN_NODE) (ends : word m cur ≠ FDT_END_NODE)
    (ending : word m cur ≠ FDT_END) :
    Parses m header .nodeName node offset cur (none, offset) :=
  ⟨1, by simp only [parseLoop, if_pos (show _ < _ from inside), if_neg skipped, if_neg prop,
    if_neg begins, if_neg ends, if_neg ending]⟩

theorem Parses.ended (inside : InBlock header cur) :
    Parses m header .endNode node offset cur (some node, cur) :=
  ⟨1, by simp only [parseLoop, if_pos (show _ < _ from inside)]⟩

end Rules

/-- The padding leaves the position where it was or moves it on. -/
theorem Advances.of_kept (state : ParserState) {p n : Nat} (reads : state.rank = 2)
    (kept : p ≤ nextWord (p + n) % 2 ^ 32) :
    Advances (state, p) (.nodeName, alignTo 4 (p + n)) := by
  rw [← alignTo_eq_mod] at kept
  rcases Nat.eq_or_lt_of_le kept with eq | lt
  · refine .inr ⟨eq, ?_⟩
    rw [reads]
    exact Nat.lt_succ_self 1
  · exact .inl lt

/-- **Every run whose reads are kept returns**, and not before where it began. -/
theorem Parses.exists_of_kept (stringsEnd : StringsEnd m) {n : Nat} {x : ParserState × Nat}
    (small : iterationsLeft header x ≤ n) (behind : header.address ≤ x.2)
    (kept : ∀ y, ReflTransGen (Leads m header) x y → Kept m header y) (node : FDTNode)
    {offset : Nat} (le : offset ≤ x.2) :
    ∃ r, Parses m header x.1 node offset x.2 r ∧ offset ≤ r.2 := by
  induction n generalizing x node offset with
  | zero =>
    by_cases inside : InBlock header x.2
    · rw [iterationsLeft, if_pos inside] at small
      omega
    · exact ⟨_, .past inside, le⟩
  | succ n ih =>
    by_cases inside : InBlock header x.2
    case neg => exact ⟨_, .past inside, le⟩
    have next {y : ParserState × Nat} (leads : Leads m header x y) (advances : Advances x y)
        (node : FDTNode) {offset : Nat} (le : offset ≤ y.2) :
        ∃ r, Parses m header y.1 node offset y.2 r ∧ offset ≤ r.2 := by
      have fewer := advances.iterationsLeft_lt behind inside
      have further := advances.le
      exact ih (by omega) (by omega) (fun z after => kept z (.head leads after)) node le
    have here := kept x .refl
    obtain ⟨state, p⟩ := x
    have word4 : p < p + 4 := by omega
    cases state with
    | none =>
      by_cases type : word m p = FDT_BEGIN_NODE
      · obtain ⟨r, parses, le⟩ :=
          next (.begin inside type) (.inl word4) node (le.trans word4.le)
        exact ⟨r, .begin inside type parses, le⟩
      · exact ⟨_, .noNode inside type, Nat.le_refl _⟩
    | beginNode =>
      obtain ⟨name, nameAt⟩ := stringsEnd.exists_cString p
      have advances := Advances.of_kept .beginNode rfl (here name inside nameAt)
      obtain ⟨r, parses, le⟩ :=
        next (.name inside nameAt) advances (node.setName name) (le.trans advances.le)
      exact ⟨r, .name inside nameAt parses, le⟩
    | nodeName =>
      by_cases skipped : word m p = 0 ∨ word m p = FDT_NOP
      · obtain ⟨r, parses, le⟩ :=
          next (.skip inside skipped) (.inl word4) node (le.trans word4.le)
        exact ⟨r, .skip inside skipped parses, le⟩
      by_cases prop : word m p = FDT_PROP
      · obtain ⟨r, parses, le⟩ := next (.prop inside prop) (.inl word4) node (le.trans word4.le)
        exact ⟨r, .prop inside prop parses, le⟩
      by_cases begins : word m p = FDT_BEGIN_NODE
      · obtain ⟨⟨childNode, stop⟩, inner, further⟩ :=
          next (.call inside begins) (.inr ⟨rfl, Nat.one_pos⟩) .empty (Nat.le_refl p)
        -- A null pointer leaves `*offset` at `p`, and a child has moved it on.
        have further : p ≤ stop := further
        have after : p < stop + 4 := by omega
        obtain ⟨r, parses, le⟩ :=
          next (.afterCall inside begins inner) (.inl after) (childNode.elim node node.addChild)
            (le.trans after.le)
        exact ⟨r, .child inside begins inner parses, le⟩
      by_cases ends : word m p = FDT_END_NODE
      · exact ⟨_, .endNode inside ends, le⟩
      by_cases ending : word m p = FDT_END
      · obtain ⟨stop, further, -, parses⟩ := Parses.ending behind inside ending
        exact ⟨_, parses, le.trans further⟩
      · exact ⟨_, .unknown inside skipped prop begins ends ending, Nat.le_refl _⟩
    | endNode => exact ⟨_, .ended inside, le⟩
    | prop =>
      obtain ⟨name, nameAt⟩ :=
        stringsEnd.exists_cString
          (header.address + header.offDtStrings.toNat + (word m (p + 4)).toNat)
      let property : FDTProperty := ⟨name, stringOfLength m (p + 8) (word m p).toNat⟩
      have len : (word m p).toNat = property.value.length := by
        simp [property, stringOfLength]
      have advances := Advances.of_kept .prop rfl
        (show p ≤ nextWord (p + (8 + (word m p).toNat)) % 2 ^ 32 from
          Nat.add_assoc p 8 _ ▸ here inside)
      rw [← Nat.add_assoc] at advances
      obtain ⟨r, parses, le⟩ :=
        next (.property inside) advances (node.addProperty property) (le.trans advances.le)
      refine ⟨r, .property inside len nameAt (bytesAt_stringOfLength m _ _) ?_, le⟩
      rwa [← len]
    | ending =>
      obtain ⟨stop, further, -, parses⟩ : ∃ stop, p ≤ stop ∧ ¬InBlock header stop ∧
          Parses m header .ending node offset p (some node, stop) :=
        @Parses.ending_aux _ _ _ _ _ (header.address + header.sizeDtStruct.toNat) behind (by omega)
      exact ⟨_, parses, le.trans further⟩

section

variable {p : Nat} {y : ParserState × Nat} (leads : Leads m header (.nodeName, p) y)

include leads

theorem Leads.of_padding (type : word m p = 0 ∨ word m p = FDT_NOP) : y = (.nodeName, p + 4) := by
  cases leads with
  | skip => rfl
  | prop _ other | call _ other | afterCall _ other | endNode _ other | ending _ other =>
    rw [other] at type
    exact absurd type (by decide)

theorem Leads.of_prop (type : word m p = FDT_PROP) : y = (.prop, p + 4) := by
  cases leads with
  | prop => rfl
  | skip _ other | call _ other | afterCall _ other | endNode _ other | ending _ other =>
    rw [type] at other
    exact absurd other (by decide)

theorem Leads.of_endNode (type : word m p = FDT_END_NODE) : y = (.endNode, p) := by
  cases leads with
  | endNode => rfl
  | skip _ other | prop _ other | call _ other | afterCall _ other | ending _ other =>
    rw [type] at other
    exact absurd other (by decide)

end

theorem Leads.advances (stringsEnd : StringsEnd m) {x y : ParserState × Nat}
    (leads : Leads m header x y) (behind : header.address ≤ x.2)
    (kept : ∀ z, ReflTransGen (Leads m header) x z → Kept m header z) : Advances x y := by
  have here := kept x .refl
  cases leads with
  | begin | skip | prop | ending | afterEnd => exact .inl (Nat.lt_add_of_pos_right (by decide))
  | call | endNode => exact .inr ⟨rfl, Nat.one_pos⟩
  | name inside nameAt => exact Advances.of_kept .beginNode rfl (here _ inside nameAt)
  | @property p inside =>
    rw [Nat.add_assoc]
    exact Advances.of_kept .prop rfl (Nat.add_assoc p 8 _ ▸ here inside)
  | @afterCall p stop childNode inside type run =>
    obtain ⟨r, parses, le⟩ := Parses.exists_of_kept stringsEnd (x := (.none, p)) (Nat.le_refl _)
      behind (fun z after => kept z (.head (.call inside type) after)) .empty (Nat.le_refl p)
    obtain rfl := parses.unique run
    have le : p ≤ stop := le
    exact .inl (show p < stop + 4 by omega)

/-- **Parsing makes progress and returns** exactly where no name and no value that is read has
padding that ends behind it. -/
theorem parseNode_progress_iff (stringsEnd : StringsEnd m) :
    ((∀ x y, Visits m header x → Leads m header x y → Advances x y) ∧
      ∃ fuel result,
        parseNode m header fuel (header.address + header.offDtStruct.toNat) = some result) ↔
    ∀ x, Visits m header x → Kept m header x := by
  constructor
  · rintro ⟨advances, -⟩ ⟨state, p⟩ visits
    cases state with
    | beginNode =>
      intro name inside nameAt
      rw [← alignTo_eq_mod]
      exact (advances _ _ visits (.name inside nameAt)).le
    | prop =>
      intro inside
      rw [← alignTo_eq_mod]
      exact (advances _ _ visits (.property inside)).le
    | none | nodeName | endNode | ending => trivial
  · intro kept
    have from_visited {x : ParserState × Nat} (visits : Visits m header x) :
        ∀ y, ReflTransGen (Leads m header) x y → Kept m header y :=
      fun y after => kept y (visits.trans after)
    have behind {x : ParserState × Nat} (visits : Visits m header x) : header.address ≤ x.2 := by
      induction visits with
      | refl => exact Nat.le_add_right _ _
      | tail visits leads behind =>
        exact behind.trans (leads.advances stringsEnd behind (from_visited visits)).le
    refine ⟨?_, ?_⟩
    · intro x y visits leads
      exact leads.advances stringsEnd (behind visits) (from_visited visits)
    · obtain ⟨result, ⟨fuel, run⟩, -⟩ := Parses.exists_of_kept stringsEnd (Nat.le_refl _)
        (behind .refl) (from_visited .refl) .empty (Nat.le_refl _)
      exact ⟨fuel, result, run⟩

/-! ## A value that ends at its own token -/

/-- A property whose padding is cut to the address of its own `FDT_PROP` is read for ever. -/
theorem parseLoop_repeats {p : Nat} (inside : InBlock header p) (lenInside : InBlock header (p + 4))
    (type : word m p = FDT_PROP) (back : alignTo 4 (p + 12 + (word m (p + 4)).toNat) = p)
    (fuel : Nat) (node : FDTNode) (offset : Nat) :
    parseLoop m header fuel .nodeName node offset p = none ∧
      parseLoop m header fuel .prop node offset (p + 4) = none := by
  induction fuel generalizing node with
  | zero => exact ⟨rfl, rfl⟩
  | succ fuel ih =>
    constructor
    · simpa [parseLoop, show _ < _ from inside, type, FDT_PROP, FDT_NOP] using (ih node).2
    · simp only [parseLoop, if_pos (show _ < _ from lenInside), bind,
        Option.bind_eq_none_iff, show p + 4 + 8 = p + 12 by omega, back]
      exact fun name _ => (ih _).1

end Measure

/-- A blob whose structure block begins with a root of one property, of `2 ^ 32 - 12` bytes. -/
def endlessBlob : Bytes :=
  [0xd0, 0x0d, 0xfe, 0xed, 0, 0, 0, 84, 0, 0, 0, 56, 0, 0, 0, 80,
    0, 0, 0, 40, 0, 0, 0, 17, 0, 0, 0, 16, 0, 0, 0, 0, 0, 0, 0, 4, 0, 0, 0, 80] ++
  List.replicate 16 0 ++
  [0, 0, 0, 1, 0, 0, 0, 0, 0, 0, 0, 3, 0xff, 0xff, 0xff, 0xf4, 0, 0, 0, 0]

def endlessMemory : Memory := fun a => endlessBlob.getD (a - 4096) 0

theorem endlessMemory_stringsEnd : StringsEnd endlessMemory := by
  intro a
  refine ⟨5000, ?_⟩
  have length : endlessBlob.length = 76 := by decide
  rw [endlessMemory, List.getD_eq_getElem?_getD, List.getElem?_eq_none (by omega)]
  rfl

/-- What the memory holds at the addresses that the parser reads. -/
theorem endlessMemory_reads :
    FDTHeader.at endlessMemory 4096 = ⟨4096, 56, 80, 40, 80⟩ ∧
    word endlessMemory 4152 = FDT_BEGIN_NODE ∧ endlessMemory 4156 = 0 ∧
    word endlessMemory 4156 = 0 ∧ word endlessMemory 4160 = FDT_PROP ∧
    (word endlessMemory 4164).toNat = 2 ^ 32 - 12 := by
  decide +kernel

theorem endlessMemory_endless (fuel : Nat) :
    parseNode endlessMemory (FDTHeader.at endlessMemory 4096) fuel
      (4096 + (FDTHeader.at endlessMemory 4096).offDtStruct.toNat) = none := by
  obtain ⟨header, begins, nul, noName, prop, len⟩ := endlessMemory_reads
  have inside {a : Nat} (low : 4096 ≤ a) (high : a < 4176) :
      InBlock (FDTHeader.at endlessMemory 4096) a := by
    rw [header]
    apply (inBlock_iff (show 4096 ≤ a from low)).2
    show a - 4096 < 80
    omega
  have fromProp (fuel : Nat) (node : FDTNode) :
      parseLoop endlessMemory (FDTHeader.at endlessMemory 4096) fuel .nodeName node 4152 4160 =
        none := by
    refine (parseLoop_repeats (inside (by omega) (by omega)) (inside (by omega) (by omega)) prop ?_
      fuel node 4152).1
    rw [len]
    decide +kernel
  have fromPadding (fuel : Nat) (node : FDTNode) :
      parseLoop endlessMemory (FDTHeader.at endlessMemory 4096) fuel .nodeName node 4152 4156 =
        none := by
    cases fuel with
    | zero => rfl
    | succ fuel =>
      simpa only [parseLoop, if_pos (show _ < _ from inside (a := 4156) (by omega) (by omega)),
        noName, true_or, if_true] using fromProp fuel node
  have fromName (fuel : Nat) (node : FDTNode) :
      parseLoop endlessMemory (FDTHeader.at endlessMemory 4096) fuel .beginNode node 4152 4156 =
        none := by
    cases fuel with
    | zero => rfl
    | succ fuel =>
      simp only [parseLoop, if_pos (show _ < _ from inside (a := 4156) (by omega) (by omega)), bind,
        Option.bind_eq_none_iff]
      intro name read
      cases fuel with
      | zero => rfl
      | succ fuel =>
        rw [cString, if_pos nul, Option.some.injEq] at read
        rw [← read, show alignTo 4 (4156 + ([] : Bytes).length) = 4156 by decide]
        exact fromPadding _ _
  have start : 4096 + (FDTHeader.at endlessMemory 4096).offDtStruct.toNat = 4152 := by
    rw [header]
    rfl
  rw [parseNode, start]
  cases fuel with
  | zero => rfl
  | succ fuel =>
    simpa only [parseLoop, if_pos (show _ < _ from inside (a := 4152) (by omega) (by omega)),
      begins, if_true] using fromName fuel .empty

/-- With a length of `2 ^ 32 - 12` the parser does not return. -/
theorem parseNode_not_returns : ∃ m address, StringsEnd m ∧ ∀ fuel,
    parseNode m (FDTHeader.at m address) fuel
      (address + (FDTHeader.at m address).offDtStruct.toNat) = none :=
  ⟨endlessMemory, 4096, endlessMemory_stringsEnd, endlessMemory_endless⟩

/-! ## A value that ends behind its token -/

/-- The same blob with a property of four bytes, and with the end of its root. -/
def quietBlob : Bytes :=
  [0xd0, 0x0d, 0xfe, 0xed, 0, 0, 0, 92, 0, 0, 0, 56, 0, 0, 0, 88,
    0, 0, 0, 40, 0, 0, 0, 17, 0, 0, 0, 16, 0, 0, 0, 0, 0, 0, 0, 4, 0, 0, 0, 88] ++
  List.replicate 16 0 ++
  [0, 0, 0, 1, 0, 0, 0, 0, 0, 0, 0, 3, 0, 0, 0, 4, 0, 0, 0, 0, 1, 2, 3, 4, 0, 0, 0, 2, 0, 0, 0, 9]

def quietMemory : Memory := fun a => quietBlob.getD (a - 4096) 0

theorem quietMemory_stringsEnd : StringsEnd quietMemory := by
  intro a
  refine ⟨5000, ?_⟩
  have length : quietBlob.length = 88 := by decide
  rw [quietMemory, List.getD_eq_getElem?_getD, List.getElem?_eq_none (by omega)]
  rfl

/-- The iterations on it. -/
def quietVisits : List (ParserState × Nat) :=
  [(.none, 4152), (.beginNode, 4156), (.nodeName, 4156), (.nodeName, 4160), (.prop, 4164),
    (.nodeName, 4176), (.endNode, 4176)]

/-- The name of its root is empty. -/
theorem quietMemory_name {name : Bytes} (nameAt : CStringAt quietMemory 4156 name) : name = [] := by
  cases name with
  | nil => rfl
  | cons byte rest =>
    have here : quietMemory 4156 = byte := nameAt.bytes.1
    have nul : byte = 0 := here.symm.trans (by decide +kernel)
    exact absurd (nul ▸ List.mem_cons_self) nameAt.noNul

theorem quietMemory_words : word quietMemory 4156 = 0 ∧ word quietMemory 4160 = FDT_PROP ∧
    (word quietMemory 4164).toNat = 4 ∧ word quietMemory 4176 = FDT_END_NODE := by
  decide +kernel

theorem quietMemory_next {header : FDTHeader} {x y : ParserState × Nat} (mem : x ∈ quietVisits)
    (leads : Leads quietMemory header x y) : y ∈ quietVisits := by
  obtain ⟨padding, prop, len, ends⟩ := quietMemory_words
  simp only [quietVisits, List.mem_cons, List.not_mem_nil, or_false] at mem
  rcases mem with rfl | rfl | rfl | rfl | rfl | rfl | rfl
  · cases leads
    decide
  · cases leads with
    | name inside nameAt =>
      rw [quietMemory_name nameAt]
      decide
  · rw [leads.of_padding (.inl padding)]
    decide
  · rw [leads.of_prop prop]
    decide
  · cases leads with
    | property inside =>
      rw [len]
      decide
  · rw [leads.of_endNode ends]
    decide
  · cases leads

/-- All that is read of it is kept. -/
theorem quietMemory_kept : ∀ x, Visits quietMemory (FDTHeader.at quietMemory 4096) x →
    Kept quietMemory (FDTHeader.at quietMemory 4096) x := by
  intro x visits
  have start : (FDTHeader.at quietMemory 4096).address +
      (FDTHeader.at quietMemory 4096).offDtStruct.toNat = 4152 := by decide +kernel
  have mem : x ∈ quietVisits := by
    unfold Visits at visits
    rw [start] at visits
    induction visits with
    | refl => decide
    | tail _ leads ih => exact quietMemory_next ih leads
  obtain ⟨-, -, len, -⟩ := quietMemory_words
  simp only [quietVisits, List.mem_cons, List.not_mem_nil, or_false] at mem
  rcases mem with rfl | rfl | rfl | rfl | rfl | rfl | rfl
  case inr.inl =>
    intro name _ nameAt
    rw [quietMemory_name nameAt]
    decide
  case inr.inr.inr.inr.inl =>
    intro _
    rw [len]
    decide
  all_goals trivial

/-- The parser makes progress on the value that ends behind its token, and not on the other. -/
theorem parseNode_progress_iff_quiet :
    ((∀ x y, Visits quietMemory (FDTHeader.at quietMemory 4096) x →
        Leads quietMemory (FDTHeader.at quietMemory 4096) x y → Advances x y) ∧
      ∃ fuel result, parseNode quietMemory (FDTHeader.at quietMemory 4096) fuel
        (4096 + (FDTHeader.at quietMemory 4096).offDtStruct.toNat) = some result) ∧
    ¬∀ x, Visits endlessMemory (FDTHeader.at endlessMemory 4096) x →
      Kept endlessMemory (FDTHeader.at endlessMemory 4096) x := by
  refine ⟨(parseNode_progress_iff quietMemory_stringsEnd).2 quietMemory_kept, fun kept => ?_⟩
  obtain ⟨-, fuel, result, run⟩ := (parseNode_progress_iff endlessMemory_stringsEnd).2 kept
  exact absurd ((endlessMemory_endless fuel).symm.trans run) (by simp)

end MatteOS.Firmware
