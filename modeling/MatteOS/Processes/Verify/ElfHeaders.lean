import MatteOS.Processes.Loader

/-!
# Which ELF headers the loader accepts

`validate_elf_header` takes the result of `memcmp` for that of the C function, so that it rejects
the magic of ELF files and no other bytes in its place (`validateElfHeader_eq`). A file is treated
rightly only where another check rejects it (`acceptsElf_iff`). The bounds of the tables are checked
with sums that wrap around, and the tables of an accepted file are inside it unless one did
(`keepsTables_iff`).
-/

namespace MatteOS.Processes

open Utils

namespace ELF

/-! ## What a header says -/

/-- Class, encoding, machine and version are supported, and the type is the expected one. -/
def ElfHeader.Fits (h : ElfHeader) (expectedType : FileType) : Prop :=
  h.ident[4] = ELFCLASS64 ∧ h.ident[5] = ELFDATA2LSB ∧ h.machine = machineRISCV ∧
    h.version = EV_CURRENT ∧
    (h.type = expectedType ∨ expectedType = .executable ∧ h.type = .dynamic)

/-- The buffer starts with the header of an ELF file of the expected type. -/
def IsElf (buffer : Bytes64) (expectedType : FileType) : Prop :=
  64 ≤ buffer.val.length ∧ buffer.val.take 4 = [0x7F, 0x45, 0x4C, 0x46] ∧
    (ElfHeader.ofBytes buffer.val).Fits expectedType

namespace Table

variable (table : Table)

/-- All bytes of the table are among the first `n`. -/
def Within (n : Nat) : Prop := table.offset.toNat + table.size ≤ n

/-- Every entry of the table is among the first `n` bytes. -/
def EntriesWithin (n : Nat) : Prop :=
  ∀ i < table.entryCount.toNat, table.offset.toNat + (i + 1) * table.entrySize.toNat ≤ n

/-- What 64 bits keep of the end of the table. -/
def wrappedEnd : Nat := (table.offset.toNat + table.size) % 2 ^ 64

variable {table}

theorem toNat_computedEnd (table : Table) :
    (table.offset + BitVec.ofNat 64 table.size).toNat = table.wrappedEnd := by
  rw [BitVec.toNat_add, BitVec.toNat_ofNat, Nat.add_mod_mod, wrappedEnd]

/-- The last entry ends where the table does. -/
theorem Within.entries {n : Nat} (within : table.Within n) : table.EntriesWithin n := by
  intro i lt
  have last : (i + 1) * table.entrySize.toNat ≤ table.size := Nat.mul_le_mul_right _ lt
  have all : table.offset.toNat + table.size ≤ n := within
  omega

theorem EntriesWithin.within {n : Nat} (entries : table.EntriesWithin n)
    (some : 0 < table.entryCount.toNat) : table.Within n := by
  have last := entries (table.entryCount.toNat - 1) (by omega)
  rwa [Nat.sub_add_cancel some] at last

end Table

end ELF

namespace Loader

open ELF

variable {buffer : Bytes64} {h : ElfHeader} {expectedType : FileType}

/-! ## What the checks amount to -/

theorem take_ident (long : 64 ≤ buffer.val.length) :
    (ElfHeader.ofBytes buffer.val).ident.toList.take 4 = buffer.val.take 4 := by
  refine List.ext_getElem (by simp; omega) fun i lt lt' => ?_
  have small : i < 4 := by
    rw [List.length_take] at lt'
    omega
  simp only [List.getElem_take, ElfHeader.ofBytes, Vector.getElem_toList, Vector.getElem_ofFn]
  rw [List.getD_eq_getElem?_getD, List.getElem?_eq_getElem (by omega), Option.getD_some]

/-- **The magic.** A buffer with the magic of ELF files is rejected for it; all others go on to
the next check. -/
theorem validateElfHeader_eq (long : 64 ≤ buffer.val.length) :
    validateElfHeader buffer expectedType =
      if buffer.val.take 4 = [0x7F, 0x45, 0x4C, 0x46] then reject "Invalid ELF magic"
      else validateFields buffer (.ofBytes buffer.val) expectedType := by
  have enough : ¬buffer.val.length < sizeofElfHeader := Nat.not_lt.2 long
  have inside : SELFMAG ≤ (ElfHeader.ofBytes buffer.val).ident.toList.length := by simp [SELFMAG]
  rw [validateElfHeader, if_neg enough]
  dsimp only
  rw [memcmp_eq inside (by decide), ok_bind, SELFMAG, take_ident long]
  by_cases magic : buffer.val.take 4 = [0x7F, 0x45, 0x4C, 0x46]
  · rw [if_pos magic, magic]
    exact if_pos (by decide)
  · have differ : decide (buffer.val.take 4 = ELFMAG.take 4) = false := decide_eq_false magic
    rw [if_neg magic, differ]
    exact if_neg (by decide)

theorem validateFields_eq (fits : h.Fits expectedType) :
    validateFields buffer h expectedType = validateTables buffer h := by
  obtain ⟨fileClass, encoding, machine, version, type⟩ := fits
  rw [validateFields, if_neg (not_not.2 fileClass), if_neg (not_not.2 encoding),
    if_neg (not_not.2 machine), if_neg (not_not.2 version), if_neg]
  rintro ⟨other, notDynamic⟩
  exact type.elim other notDynamic

theorem validateFields_reject (buffer : Bytes64) (unfit : ¬h.Fits expectedType) :
    ∃ text, validateFields buffer h expectedType = reject text := by
  rw [validateFields]
  split_ifs with h1 h2 h3 h4 h5
  · exact ⟨_, rfl⟩
  · exact ⟨_, rfl⟩
  · exact ⟨_, rfl⟩
  · exact ⟨_, rfl⟩
  · exact ⟨_, rfl⟩
  · refine absurd ⟨not_not.1 h1, not_not.1 h2, not_not.1 h3, not_not.1 h4, ?_⟩ unfit
    by_contra neither
    rw [not_or] at neither
    exact h5 neither

theorem validateElfHeader_short (short : buffer.val.length < 64) :
    validateElfHeader buffer expectedType =
      reject "ELF buffer too small to contain ELF header" := if_pos short

/-! ## The tables -/

theorem returns_computedEnd {table : Table} {P : BitVec 64 → Prop} :
    Returns table.computedEnd P ↔
      table.size < 2 ^ 31 ∧ P (table.offset + BitVec.ofNat 64 table.size) := by
  rw [Table.computedEnd]
  split
  · rename_i small
    rw [returns_ok, and_iff_right small]
  · rename_i large
    exact iff_of_false not_returns_error fun ⟨small, _⟩ => large small

/-- What the checks of the tables need to return something that satisfies `P`. -/
theorem returns_validateTables {P : ErrorOr ElfHeader → Prop} :
    Returns (validateTables buffer h) P ↔
      h.programHeaders.size < 2 ^ 31 ∧
        if buffer.val.length < h.programHeaders.wrappedEnd then
          P (.error "ELF program headers exceed ELF buffer size")
        else
          h.sectionHeaders.size < 2 ^ 31 ∧
            if buffer.val.length < h.sectionHeaders.wrappedEnd then
              P (.error "ELF section headers exceed ELF buffer size")
            else P (.ok h) := by
  rw [validateTables, returns_bind, returns_computedEnd, Table.toNat_computedEnd]
  refine and_congr_right fun _ => ?_
  split
  · exact returns_ok
  · rw [returns_bind, returns_computedEnd, Table.toNat_computedEnd]
    refine and_congr_right fun _ => ?_
    split
    · exact returns_ok
    · exact returns_ok

/-! ## The accepted files -/

/-- The loader returns, and accepts the buffer if and only if it is an ELF file of the expected
type. -/
def AcceptsElf (buffer : Bytes64) (expectedType : FileType) : Prop :=
  Returns (validateElfHeader buffer expectedType) fun result =>
    (∃ header, result = .ok header) ↔ IsElf buffer expectedType

/-- The two tables that the header describes are inside the buffer. -/
def TablesWithin (buffer : Bytes64) : Prop :=
  64 ≤ buffer.val.length →
    (ElfHeader.ofBytes buffer.val).programHeaders.Within buffer.val.length ∧
      (ElfHeader.ofBytes buffer.val).sectionHeaders.Within buffer.val.length

/-- To reject is right for what is not acceptable. -/
theorem returns_reject {text : String} {acceptable : Prop} :
    Returns (reject text : Except Fault (ErrorOr ElfHeader))
        (fun result => (∃ header, result = .ok header) ↔ acceptable) ↔ ¬acceptable := by
  refine returns_ok.trans ⟨fun same acceptable => ?_, iff_of_false ?_⟩
  · obtain ⟨header, accepted⟩ := same.2 acceptable
    cases accepted
  · rintro ⟨header, accepted⟩
    cases accepted

theorem wrappedEnd_le {table : Table} {n : Nat} (within : table.Within n) :
    table.wrappedEnd ≤ n := Nat.le_trans (Nat.mod_le _ _) within

/-- **Only files that are no ELF files for another reason are treated right**: those of the others
that have the magic are rejected, and those that do not have it are accepted. -/
theorem acceptsElf_iff (buffer : Bytes64) (expectedType : FileType)
    (tables : TablesWithin buffer) :
    AcceptsElf buffer expectedType ↔
      buffer.val.length < 64 ∨ ¬(ElfHeader.ofBytes buffer.val).Fits expectedType := by
  by_cases short : buffer.val.length < 64
  · rw [AcceptsElf, validateElfHeader_short short, returns_reject]
    exact iff_of_true (fun elf => Nat.not_le.2 short elf.1) (.inl short)
  have long := Nat.not_lt.1 short
  rw [AcceptsElf, validateElfHeader_eq long, or_iff_right short]
  by_cases fits : (ElfHeader.ofBytes buffer.val).Fits expectedType
  · refine iff_of_false ?_ (not_not.2 fits)
    split
    · rename_i magic
      rw [returns_reject, not_not]
      exact ⟨long, magic, fits⟩
    · rename_i other
      obtain ⟨programs, sections⟩ := tables long
      rw [validateFields_eq fits, returns_validateTables,
        if_neg (Nat.not_lt.2 (wrappedEnd_le programs)),
        if_neg (Nat.not_lt.2 (wrappedEnd_le sections))]
      rintro ⟨-, -, accepted⟩
      exact other (accepted.1 ⟨_, rfl⟩).2.1
  · refine iff_of_true ?_ fits
    obtain ⟨text, rejected⟩ := validateFields_reject buffer fits
    split
    · exact returns_reject.2 fun elf => fits elf.2.2
    · rw [rejected]
      exact returns_reject.2 fun elf => fits elf.2.2

/-- A file that is no more than the header of a relocatable file, with the given magic and program
headers. -/
def relocatableHeader (magic offset entrySize entryCount : List (BitVec 8)) : List (BitVec 8) :=
  magic ++ [2, 1] ++ List.replicate 10 0 ++ [1, 0] ++ [243, 0] ++ [1, 0, 0, 0] ++
    List.replicate 8 0 ++ offset ++ List.replicate 14 0 ++ entrySize ++ entryCount ++
    List.replicate 6 0

/-- A file with the magic of ELF files. -/
def elfFile : Bytes64 :=
  ⟨relocatableHeader [0x7F, 0x45, 0x4C, 0x46] (List.replicate 8 0) [0, 0] [0, 0], by decide⟩

/-- An executable is asked for, and a file that is one but for its type is rejected. -/
theorem acceptsElf_iff_type : AcceptsElf elfFile .executable :=
  (acceptsElf_iff elfFile .executable fun _ => by constructor <;> simp only [Table.Within] <;> decide).2
    (.inr fun fits => absurd fits.2.2.2.2 (by decide))

/-- The same without the magic. -/
def otherFile : Bytes64 :=
  ⟨relocatableHeader [0, 0, 0, 0] (List.replicate 8 0) [0, 0] [0, 0], by decide⟩

/-- The file with the magic is rejected, and the file without it is accepted. -/
theorem not_acceptsElf_magic :
    (TablesWithin elfFile ∧ ¬AcceptsElf elfFile .relocatable) ∧
      (TablesWithin otherFile ∧ ¬AcceptsElf otherFile .relocatable) := by
  have fits : (ElfHeader.ofBytes elfFile.val).Fits .relocatable := by
    refine ⟨?_, ?_, ?_, ?_, .inl ?_⟩ <;> decide
  have fits' : (ElfHeader.ofBytes otherFile.val).Fits .relocatable := by
    refine ⟨?_, ?_, ?_, ?_, .inl ?_⟩ <;> decide
  refine ⟨⟨fun _ => by constructor <;> simp only [Table.Within] <;> decide, ?_⟩,
    ⟨fun _ => by constructor <;> simp only [Table.Within] <;> decide, ?_⟩⟩
  · rw [AcceptsElf, validateElfHeader_eq (by decide), if_pos (by decide), returns_reject, not_not]
    exact ⟨by decide, by decide, fits⟩
  · rw [AcceptsElf, validateElfHeader_eq (by decide), if_neg (by decide), validateFields_eq fits',
      returns_validateTables]
    rintro ⟨-, accepted⟩
    rw [if_neg (by decide), if_neg (by decide)] at accepted
    exact absurd (accepted.2.1 ⟨_, rfl⟩).2.1 (by decide)

/-! ## The tables of accepted files -/

/-- The loader returns, and all entries of both tables of a header that it accepts are inside the
buffer. -/
def KeepsTables (buffer : Bytes64) (expectedType : FileType) : Prop :=
  Returns (validateElfHeader buffer expectedType) fun result =>
    ∀ header, result = .ok header →
      header.programHeaders.EntriesWithin buffer.val.length ∧
        header.sectionHeaders.EntriesWithin buffer.val.length

/-- An `int` holds the sizes of the tables that are looked at, and where both wrapped ends are
inside the buffer, neither end has wrapped around. -/
def TablesFit (n : Nat) (h : ElfHeader) : Prop :=
  h.programHeaders.size < 2 ^ 31 ∧ (h.programHeaders.wrappedEnd ≤ n →
    h.sectionHeaders.size < 2 ^ 31 ∧ (h.sectionHeaders.wrappedEnd ≤ n →
      h.programHeaders.offset.toNat + h.programHeaders.size < 2 ^ 64 ∧
        h.sectionHeaders.offset.toNat + h.sectionHeaders.size < 2 ^ 64))

/-- A table whose wrapped end is inside the buffer is inside if and only if its end is not
wrapped. -/
theorem entriesWithin_iff {table : Table} {n : Nat} (bounded : n < 2 ^ 64)
    (inside : table.wrappedEnd ≤ n) :
    table.EntriesWithin n ↔ table.offset.toNat + table.size < 2 ^ 64 := by
  constructor
  · intro entries
    rcases Nat.eq_zero_or_pos table.entryCount.toNat with none | some
    · have empty : table.size = 0 := by rw [Table.size, none, Nat.zero_mul]
      have := table.offset.isLt
      omega
    · exact Nat.lt_of_le_of_lt (entries.within some) bounded
  · intro unwrapped
    rw [Table.wrappedEnd, Nat.mod_eq_of_lt unwrapped] at inside
    exact Table.Within.entries inside

theorem keeps_error {text : String} {P : ElfHeader → Prop} (header : ElfHeader)
    (accepted : (.error text : ErrorOr ElfHeader) = .ok header) : P header := by
  cases accepted

theorem keeps_of_reject {text : String} {P : ElfHeader → Prop} :
    Returns (reject text) fun result => ∀ header, result = .ok header → P header :=
  returns_ok.2 keeps_error

theorem validateTables_keeps :
    Returns (validateTables buffer h) (fun result => ∀ header, result = .ok header →
      header.programHeaders.EntriesWithin buffer.val.length ∧
        header.sectionHeaders.EntriesWithin buffer.val.length) ↔
      TablesFit buffer.val.length h := by
  rw [returns_validateTables, TablesFit]
  refine and_congr_right fun _ => ?_
  split
  · rename_i outside
    exact iff_of_true keeps_error fun inside => absurd inside (Nat.not_le.2 outside)
  rename_i programs
  rw [forall_prop_of_true (Nat.not_lt.1 programs)]
  refine and_congr_right fun _ => ?_
  split
  · rename_i outside
    exact iff_of_true keeps_error fun inside => absurd inside (Nat.not_le.2 outside)
  rename_i sections
  rw [forall_prop_of_true (Nat.not_lt.1 sections),
    ← entriesWithin_iff buffer.property (Nat.not_lt.1 programs),
    ← entriesWithin_iff buffer.property (Nat.not_lt.1 sections)]
  constructor
  · intro kept
    exact kept h rfl
  · intro kept header accepted
    obtain rfl := Except.ok.inj accepted
    exact kept

/-- **The tables of accepted files** are inside the buffer if and only if their ends do not wrap
around. -/
theorem keepsTables_iff (buffer : Bytes64) (expectedType : FileType) :
    KeepsTables buffer expectedType ↔
      (64 ≤ buffer.val.length → buffer.val.take 4 ≠ [0x7F, 0x45, 0x4C, 0x46] →
        (ElfHeader.ofBytes buffer.val).Fits expectedType →
          TablesFit buffer.val.length (ElfHeader.ofBytes buffer.val)) := by
  by_cases short : buffer.val.length < 64
  · rw [KeepsTables, validateElfHeader_short short]
    exact iff_of_true keeps_of_reject fun long => absurd short (Nat.not_lt.2 long)
  have long := Nat.not_lt.1 short
  rw [KeepsTables, validateElfHeader_eq long, forall_prop_of_true long]
  by_cases magic : buffer.val.take 4 = [0x7F, 0x45, 0x4C, 0x46]
  · rw [if_pos magic]
    exact iff_of_true keeps_of_reject fun other => absurd magic other
  rw [if_neg magic, forall_prop_of_true magic]
  by_cases fits : (ElfHeader.ofBytes buffer.val).Fits expectedType
  · rw [forall_prop_of_true fits, validateFields_eq fits]
    exact validateTables_keeps
  · obtain ⟨text, rejected⟩ := validateFields_reject buffer fits
    rw [rejected]
    exact iff_of_true keeps_of_reject fun fits' => absurd fits' fits

/-- A file whose only program header is 64 bytes before the end of the address space. -/
def wrappingFile : Bytes64 :=
  ⟨relocatableHeader [0, 0, 0, 0] (0xC0 :: List.replicate 7 0xFF) [64, 0] [1, 0], by decide⟩

theorem not_keepsTables_wrapping : ¬KeepsTables wrappingFile .relocatable := by
  have fits : (ElfHeader.ofBytes wrappingFile.val).Fits .relocatable := by
    refine ⟨?_, ?_, ?_, ?_, .inl ?_⟩ <;> decide
  rw [KeepsTables, validateElfHeader_eq (by decide), if_neg (by decide), validateFields_eq fits,
    validateTables_keeps]
  rintro ⟨-, programs⟩
  exact absurd ((programs (by decide)).2 (by decide)).1 (by decide)

end Loader

end MatteOS.Processes
