import MatteOS.Lib.ByteMemory

/-!
# Flattened device trees

`FDTParser::parse` on a blob in memory. A node of the result owns its properties and its children.
Loops and the recursion of `parse_node` run on fuel, and `none` stands for a lack of it.
-/

namespace MatteOS.Firmware

open ByteMemory

/-- A string, by its bytes. -/
abbrev Bytes := List (BitVec 8)

/-! ## The blob -/

/-- An `Endian<u32, Big>` -/
def word (m : Memory) (a : Nat) : BitVec 32 := m a ++ m (a + 1) ++ m (a + 2) ++ m (a + 3)

/-- An `Endian<u64, Big>` -/
def doubleWord (m : Memory) (a : Nat) : BitVec 64 := word m a ++ word m (a + 4)

/-- The fields of the `FDTHeader` at an address that the parser reads. -/
structure FDTHeader where
  address : Nat
  offDtStruct : BitVec 32
  offDtStrings : BitVec 32
  offMemRsvmap : BitVec 32
  sizeDtStruct : BitVec 32
deriving DecidableEq

def FDTHeader.at (m : Memory) (address : Nat) : FDTHeader where
  address := address
  offDtStruct := word m (address + 8)
  offDtStrings := word m (address + 12)
  offMemRsvmap := word m (address + 16)
  sizeDtStruct := word m (address + 36)

structure FDTReserveEntry where
  address : BitVec 64
  size : BitVec 64
deriving DecidableEq

namespace FDTNodeType

def FDT_BEGIN_NODE : BitVec 32 := 0x00000001
def FDT_END_NODE : BitVec 32 := 0x00000002
def FDT_PROP : BitVec 32 := 0x00000003
def FDT_NOP : BitVec 32 := 0x00000004
def FDT_END : BitVec 32 := 0x00000009

end FDTNodeType

open FDTNodeType

structure FDTProperty where
  name : Bytes
  value : Bytes
deriving DecidableEq

inductive FDTNode where
  | mk (name : Bytes) (properties : List FDTProperty) (children : List FDTNode)

namespace FDTNode

/-- `FDTNode()` -/
def empty : FDTNode := ⟨[], [], []⟩

def setName : FDTNode → Bytes → FDTNode
  | ⟨_, properties, children⟩, name => ⟨name, properties, children⟩

def addProperty : FDTNode → FDTProperty → FDTNode
  | ⟨name, properties, children⟩, property => ⟨name, properties ++ [property], children⟩

def addChild : FDTNode → FDTNode → FDTNode
  | ⟨name, properties, children⟩, child => ⟨name, properties, children ++ [child]⟩

end FDTNode

/-! ## Reading strings -/

/-- `String(const char*)`: the bytes up to the first NUL. -/
def cString (m : Memory) : Nat → Nat → Option Bytes
  | 0, _ => none
  | fuel + 1, a => if m a = 0 then some [] else (cString m fuel (a + 1)).map (m a :: ·)

/-- `String(const char*, size_t)` -/
def stringOfLength (m : Memory) (a length : Nat) : Bytes :=
  (List.range length).map fun i => m (a + i)

/-- `FDTParser::align_to`, whose mask is a `u32`. -/
def alignTo (alignment : BitVec 32) (address : Nat) : Nat :=
  ((BitVec.ofNat 64 address + alignment.setWidth 64 - 1) &&&
    (~~~(alignment - 1)).setWidth 64).toNat

/-! ## The parser -/

/-- The difference of two addresses as `uintptr_t`s. -/
def offsetFrom (address currentOffset : Nat) : Nat :=
  if address ≤ currentOffset then currentOffset - address else currentOffset + 2 ^ 64 - address

inductive ParserState where
  | none
  | beginNode
  | nodeName
  | endNode
  | prop
  | ending
deriving DecidableEq

/-- The loop of `FDTParser::parse_node`, with `offset` the value of `*offset` on entry and
`currentOffset` that of `current_offset`. The result is the node, or a null pointer, and
`*offset`. -/
def parseLoop (m : Memory) (header : FDTHeader) :
    Nat → ParserState → FDTNode → Nat → Nat → Option (Option FDTNode × Nat)
  | 0, _, _, _, _ => none
  | fuel + 1, state, currentNode, offset, currentOffset =>
    if offsetFrom header.address currentOffset < header.sizeDtStruct.toNat then
      let type := word m currentOffset
      match state with
      | .none =>
        if type = FDT_BEGIN_NODE then
          parseLoop m header fuel .beginNode currentNode offset (currentOffset + 4)
        else some (none, offset)
      | .beginNode => do
        let name ← cString m fuel currentOffset
        parseLoop m header fuel .nodeName (currentNode.setName name) offset
          (alignTo 4 (currentOffset + name.length))
      | .nodeName =>
        if type = 0 ∨ type = FDT_NOP then
          parseLoop m header fuel .nodeName currentNode offset (currentOffset + 4)
        else if type = FDT_PROP then
          parseLoop m header fuel .prop currentNode offset (currentOffset + 4)
        else if type = FDT_BEGIN_NODE then do
          let (childNode, currentOffset) ←
            parseLoop m header fuel .none .empty currentOffset currentOffset
          let currentNode :=
            match childNode with
            | some childNode => currentNode.addChild childNode
            | none => currentNode
          parseLoop m header fuel .nodeName currentNode offset (currentOffset + 4)
        else if type = FDT_END_NODE then
          parseLoop m header fuel .endNode currentNode offset currentOffset
        else if type = FDT_END then
          parseLoop m header fuel .ending currentNode offset (currentOffset + 4)
        else some (none, offset)
      | .prop => do
        let len := (word m currentOffset).toNat
        let nameOffset := (word m (currentOffset + 4)).toNat
        let currentOffset := currentOffset + 8
        let name ← cString m fuel (header.address + header.offDtStrings.toNat + nameOffset)
        let value := stringOfLength m currentOffset len
        parseLoop m header fuel .nodeName (currentNode.addProperty { name, value }) offset
          (alignTo 4 (currentOffset + len))
      | .endNode => some (some currentNode, currentOffset)
      | .ending => parseLoop m header fuel .ending currentNode offset (currentOffset + 4)
    else some (some currentNode, currentOffset)

/-- `FDTParser::parse_node` -/
def parseNode (m : Memory) (header : FDTHeader) (fuel offset : Nat) :
    Option (Option FDTNode × Nat) :=
  parseLoop m header fuel .none .empty offset offset

/-- The loop of `FDTParser::parse_reserve_entries`. -/
def parseReserveEntries (m : Memory) : Nat → Nat → Option (List FDTReserveEntry)
  | 0, _ => none
  | fuel + 1, reserveEntry =>
    let entry : FDTReserveEntry :=
      { address := doubleWord m reserveEntry, size := doubleWord m (reserveEntry + 8) }
    if entry.address ≠ 0 ∧ entry.size ≠ 0 then
      (parseReserveEntries m fuel (reserveEntry + 16)).map (entry :: ·)
    else some []

structure FDTParser where
  reserveEntries : List FDTReserveEntry
  rootNode : Option FDTNode

/-- `FDTParser::parse`. The root node stays unset where `parse_node` gives a null pointer. -/
def FDTParser.parse (m : Memory) (fuel address : Nat) : Option FDTParser := do
  let header := FDTHeader.at m address
  let reserveEntries ← parseReserveEntries m fuel (address + header.offMemRsvmap.toNat)
  let (rootNode, _) ← parseNode m header fuel (address + header.offDtStruct.toNat)
  return { reserveEntries, rootNode }

end MatteOS.Firmware
