import MatteOS.Utils.Memory

/-!
# The loader

`Loader`, which checks the header of an ELF file and reads the properties of a kernel module from
its section `.modinfo`. The words of an ELF file are little-endian.
-/

namespace MatteOS.Processes

open Utils

/-! ## ELF headers -/

namespace ELF

/-- `ELF::FileType`: any value of 16 bits can be read from a file. -/
abbrev FileType := BitVec 16

namespace FileType

def none : FileType := 0
def relocatable : FileType := 1
def executable : FileType := 2
def dynamic : FileType := 3
def core : FileType := 4

end FileType

/-- `ELF::Machine::RISCV` -/
def machineRISCV : BitVec 16 := 243

/-- `ELFMAG`, with the NUL of the literal. -/
def ELFMAG : List (BitVec 8) := [0x7F, 0x45, 0x4C, 0x46, 0]

def SELFMAG : Nat := 4

def ELFCLASS64 : BitVec 8 := 2

def ELFDATA2LSB : BitVec 8 := 1

def EV_CURRENT : BitVec 32 := 1

/-- `ELF::ElfHeader` -/
structure ElfHeader where
  ident : Vector (BitVec 8) 16
  type : FileType
  machine : BitVec 16
  version : BitVec 32
  entry : BitVec 64
  programHeaderOffset : BitVec 64
  sectionHeaderOffset : BitVec 64
  flags : BitVec 32
  elfHeaderSize : BitVec 16
  programHeaderEntrySize : BitVec 16
  programHeaderEntryCount : BitVec 16
  sectionHeaderEntrySize : BitVec 16
  sectionHeaderEntryCount : BitVec 16
  sectionHeaderStringTableIndex : BitVec 16

/-- `sizeof(ELF::ElfHeader)` -/
def sizeofElfHeader : Nat := 64

/-- The fields at their places in the packed structure. -/
def ElfHeader.ofBytes (bytes : List (BitVec 8)) : ElfHeader :=
  let u8 i := bytes.getD i 0
  let u16 i := u8 (i + 1) ++ u8 i
  let u32 i := u16 (i + 2) ++ u16 i
  let u64 i := u32 (i + 4) ++ u32 i
  { ident := Vector.ofFn fun i => u8 i
    type := u16 16
    machine := u16 18
    version := u32 20
    entry := u64 24
    programHeaderOffset := u64 32
    sectionHeaderOffset := u64 40
    flags := u32 48
    elfHeaderSize := u16 52
    programHeaderEntrySize := u16 54
    programHeaderEntryCount := u16 56
    sectionHeaderEntrySize := u16 58
    sectionHeaderEntryCount := u16 60
    sectionHeaderStringTableIndex := u16 62 }

/-- A table of equal entries in a file. -/
structure Table where
  offset : BitVec 64
  entryCount : BitVec 16
  entrySize : BitVec 16

def ElfHeader.programHeaders (elfHeader : ElfHeader) : Table where
  offset := elfHeader.programHeaderOffset
  entryCount := elfHeader.programHeaderEntryCount
  entrySize := elfHeader.programHeaderEntrySize

def ElfHeader.sectionHeaders (elfHeader : ElfHeader) : Table where
  offset := elfHeader.sectionHeaderOffset
  entryCount := elfHeader.sectionHeaderEntryCount
  entrySize := elfHeader.sectionHeaderEntrySize

/-- How many bytes the entries have. -/
def Table.size (table : Table) : Nat := table.entryCount.toNat * table.entrySize.toNat

/-- The end of a table. The product of the two fields is an `int`, and the sum wraps around. -/
def Table.computedEnd (table : Table) : Except Fault (BitVec 64) :=
  if table.size < 2 ^ 31 then .ok (table.offset + BitVec.ofNat 64 table.size)
  else .error .undefined

end ELF

namespace Loader

open ELF

/-- A value, or the text of an error. -/
abbrev ErrorOr (α : Type) := Except String α

/-- `Error::create_from_string` -/
def reject {α : Type} (text : String) : Except Fault (ErrorOr α) := .ok (.error text)

/-- The checks of `validate_elf_header` from the tables on. -/
def validateTables (elfBuffer : Bytes64) (elfHeader : ElfHeader) :
    Except Fault (ErrorOr ElfHeader) := do
  let programEnd ← elfHeader.programHeaders.computedEnd
  if programEnd.toNat > elfBuffer.val.length then
    reject "ELF program headers exceed ELF buffer size"
  else
    let sectionEnd ← elfHeader.sectionHeaders.computedEnd
    if sectionEnd.toNat > elfBuffer.val.length then
      reject "ELF section headers exceed ELF buffer size"
    else return .ok elfHeader

/-- The checks of `validate_elf_header` behind the magic. -/
def validateFields (elfBuffer : Bytes64) (elfHeader : ElfHeader) (expectedType : FileType) :
    Except Fault (ErrorOr ElfHeader) :=
  if elfHeader.ident[4] ≠ ELFCLASS64 then reject "Unsupported ELF class"
  else if elfHeader.ident[5] ≠ ELFDATA2LSB then reject "Unsupported ELF data encoding"
  else if elfHeader.machine ≠ machineRISCV then reject "Unsupported ELF machine type"
  else if elfHeader.version ≠ EV_CURRENT then reject "Unsupported ELF version"
  else if elfHeader.type ≠ expectedType ∧
      ¬(expectedType = .executable ∧ elfHeader.type = .dynamic) then
    reject "Unexpected ELF type"
  else validateTables elfBuffer elfHeader

/-- `Loader::validate_elf_header` -/
def validateElfHeader (elfBuffer : Bytes64) (expectedType : FileType) :
    Except Fault (ErrorOr ElfHeader) :=
  if elfBuffer.val.length < sizeofElfHeader then
    reject "ELF buffer too small to contain ELF header"
  else do
    let elfHeader := ElfHeader.ofBytes elfBuffer.val
    let equal ← memcmp elfHeader.ident.toList ELFMAG SELFMAG
    if equal.toNat ≠ 0 then reject "Invalid ELF magic"
    else validateFields elfBuffer elfHeader expectedType

/-! ## Module properties -/

/-- `Character::is_printable` -/
def isPrintable (codePoint : BitVec 32) : Bool :=
  (0x20 ≤ codePoint && codePoint ≤ 0x7E) || (0xA0 ≤ codePoint && codePoint ≤ 0xD7FF) ||
    (0xE000 ≤ codePoint && codePoint ≤ 0xFFFD) || (0x10000 ≤ codePoint && codePoint ≤ 0x10FFFF)

/-- `ELF::SectionHeader`, of which the parser uses where the section is. -/
structure SectionHeader where
  offset : BitVec 64
  size : BitVec 64

/-- A key and a value. -/
abbrev ModuleProperty := List (BitVec 8) × List (BitVec 8)

inductive ParseState where
  | key
  | value
deriving DecidableEq

/-- The variables of `parse_modinfo`, and its `out_properties`. -/
structure ModinfoParser where
  state : ParseState
  currentString : List (BitVec 8)
  currentProperty : ModuleProperty
  outProperties : List ModuleProperty

namespace ModinfoParser

/-- `current_string += c` -/
def append (p : ModinfoParser) (c : BitVec 8) : ModinfoParser :=
  { p with currentString := p.currentString ++ [c] }

/-- One round of the loop of `parse_modinfo`. -/
def round (p : ModinfoParser) (c : BitVec 8) : ErrorOr ModinfoParser :=
  match p.state with
  | .key =>
    if c = 0x3D then
      .ok { p with
        currentProperty := (p.currentString, p.currentProperty.2)
        currentString := []
        state := .value }
    else if c = 0 then .error "Unexpected end of line. Expected '=' separator."
    else if isPrintable (c.setWidth 32) then .ok (p.append c)
    else .error "Invalid character in modinfo key."
  | .value =>
    if c = 0 then
      .ok { p with
        outProperties := p.outProperties ++ [(p.currentProperty.1, p.currentString)]
        currentString := []
        currentProperty := ([], [])
        state := .key }
    else if isPrintable (c.setWidth 32) then .ok (p.append c)
    else .error "Invalid character in modinfo value."

/-- What follows the loop. -/
def finish (p : ModinfoParser) : ErrorOr Unit × List ModuleProperty :=
  if p.state = .value then
    (.error "Unexpected end of modinfo. Expected null terminator after value.", p.outProperties)
  else (.ok (), p.outProperties)

/-- The loop of `parse_modinfo` from a character on, for `rounds` characters. -/
def loop (p : ModinfoParser) (elfBuffer : Bytes64) (place : Nat) :
    Nat → Except Fault (ErrorOr Unit × List ModuleProperty)
  | 0 => .ok p.finish
  | rounds + 1 => do
    let c ← orUndefined elfBuffer.val[place]?
    match p.round c with
    | .ok p => p.loop elfBuffer (place + 1) rounds
    | .error text => .ok (.error text, p.outProperties)

end ModinfoParser

/-- `Loader::parse_modinfo` -/
def parseModinfo (elfBuffer : Bytes64) (sectionHeader : SectionHeader)
    (outProperties : List ModuleProperty) :
    Except Fault (ErrorOr Unit × List ModuleProperty) :=
  let p : ModinfoParser :=
    { state := .key, currentString := [], currentProperty := ([], []), outProperties }
  p.loop elfBuffer sectionHeader.offset.toNat sectionHeader.size.toNat

end Loader

end MatteOS.Processes
