import MatteOS.Firmware.FDTParser

/-!
# The encoding of device trees

What it means for a version 17 blob in memory to encode a tree: its structure block is the tree's
sequence of tokens, each where the last one and its padding end, with `FDT_NOP`s anywhere between.
-/

namespace MatteOS.Firmware

open ByteMemory FDTNodeType

/-- The end of the padding after `n` bytes. -/
def nextWord (n : Nat) : Nat := (n + 3) / 4 * 4

def BytesAt (m : Memory) : Nat → Bytes → Prop
  | _, [] => True
  | a, byte :: bytes => m a = byte ∧ BytesAt m (a + 1) bytes

instance BytesAt.decidable (m : Memory) : ∀ (a : Nat) (s : Bytes), Decidable (BytesAt m a s)
  | _, [] => isTrue trivial
  | a, byte :: bytes =>
    have := BytesAt.decidable m (a + 1) bytes
    inferInstanceAs (Decidable (m a = byte ∧ BytesAt m (a + 1) bytes))

/-- A string in memory, up to its NUL. -/
structure CStringAt (m : Memory) (a : Nat) (s : Bytes) : Prop where
  bytes : BytesAt m a s
  nul : m (a + s.length) = 0
  noNul : 0 ∉ s

/-! ## Tokens -/

inductive Token where
  | beginNode (name : Bytes)
  | prop (property : FDTProperty)
  | endNode
deriving DecidableEq

mutual

/-- A node as the structure block has it: its name, its properties, then its children. -/
def FDTNode.tokens : FDTNode → List Token
  | ⟨name, properties, children⟩ =>
    .beginNode name :: (properties.map .prop ++ (childTokens children ++ [.endNode]))

def childTokens : List FDTNode → List Token
  | [] => []
  | child :: children => child.tokens ++ childTokens children

end

def FDTNode.name : FDTNode → Bytes
  | ⟨name, _, _⟩ => name

def FDTNode.children : FDTNode → List FDTNode
  | ⟨_, _, children⟩ => children

mutual

/-- Every node below this one has a name. -/
def FDTNode.Named : FDTNode → Prop
  | ⟨_, _, children⟩ => AllNamed children

def AllNamed : List FDTNode → Prop
  | [] => True
  | child :: children => child.name ≠ [] ∧ child.Named ∧ AllNamed children

end

/-! ## Blobs -/

/-- The structure block between two addresses, with the address of each token. -/
inductive StructureBlock (m : Memory) (strings : Nat) : List (Nat × Token) → Nat → Nat → Prop
  | nop {located a stop} (type : word m a = FDT_NOP)
      (rest : StructureBlock m strings located (a + 4) stop) :
      StructureBlock m strings located a stop
  | beginNode {located a stop name} (type : word m a = FDT_BEGIN_NODE)
      (nameAt : CStringAt m (a + 4) name)
      (padding : ∀ b, a + 4 + name.length ≤ b → b < nextWord (a + 4 + name.length + 1) → m b = 0)
      (rest : StructureBlock m strings located (nextWord (a + 4 + name.length + 1)) stop) :
      StructureBlock m strings ((a, .beginNode name) :: located) a stop
  | prop {located a stop property} (type : word m a = FDT_PROP)
      (len : (word m (a + 4)).toNat = property.value.length)
      (nameAt : CStringAt m (strings + (word m (a + 8)).toNat) property.name)
      (valueAt : BytesAt m (a + 12) property.value)
      (rest : StructureBlock m strings located (nextWord (a + 12 + property.value.length)) stop) :
      StructureBlock m strings ((a, .prop property) :: located) a stop
  | endNode {located a stop} (type : word m a = FDT_END_NODE)
      (rest : StructureBlock m strings located (a + 4) stop) :
      StructureBlock m strings ((a, .endNode) :: located) a stop
  | ending {a} (type : word m a = FDT_END) : StructureBlock m strings [] a (a + 4)

/-- The blob at `address` encodes the tree, with its tokens at the given addresses. -/
structure Encodes (m : Memory) (address : Nat) (tree : FDTNode) (located : List (Nat × Token)) :
    Prop where
  named : tree.Named
  tokens : located.map (·.2) = tree.tokens
  structureBlock : StructureBlock m (address + (FDTHeader.at m address).offDtStrings.toNat) located
    (address + (FDTHeader.at m address).offDtStruct.toNat)
    (address + (FDTHeader.at m address).offDtStruct.toNat +
      (FDTHeader.at m address).sizeDtStruct.toNat)
  aligned : (address + (FDTHeader.at m address).offDtStruct.toNat) % 4 = 0
  below : address + (FDTHeader.at m address).offDtStruct.toNat +
    (FDTHeader.at m address).sizeDtStruct.toNat ≤ 2 ^ 32
  reserveMap : ∃ n,
    doubleWord m (address + (FDTHeader.at m address).offMemRsvmap.toNat + 16 * n) = 0

end MatteOS.Firmware
