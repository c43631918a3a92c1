import MatteOS.Firmware.Verify.FDTParser

/-!
# The load address of a blob

The parser aligns addresses with a mask of 32 bits. Below 4 GiB a blob gives the same tree wherever
it is loaded; from 4 GiB on the first padding leads out of the block, and only the name of the root
is left of the tree.
-/

namespace MatteOS.Firmware

open ByteMemory FDTNodeType

/-! ## Blobs -/

/-- The bytes at an address, and zeros after them. -/
def memoryAt (bytes : Bytes) (address : Nat) : Memory := fun a => bytes.getD (a - address) 0

def blobMemory (bytes : Bytes) : Memory := memoryAt bytes 0

/-- The header that the bytes begin with. -/
def blobHeader (bytes : Bytes) : FDTHeader := .at (blobMemory bytes) 0

/-- The bytes are a blob of the tree, with its tokens at the given offsets. -/
structure IsBlob (bytes : Bytes) (tree : FDTNode) (located : List (Nat × Token)) : Prop where
  header : 40 ≤ bytes.length
  totalsize : bytes.length < 2 ^ 32
  encodes : ∀ m, BytesAt m 0 bytes → Encodes m 0 tree located

structure Loaded (m : Memory) (address : Nat) (bytes : Bytes) : Prop where
  bytesAt : BytesAt m address bytes
  aligned : address % 4 = 0
  fits : address + bytes.length ≤ 2 ^ 64

/-- The parser leaves this root node for the blob at the address. -/
def Builds (m : Memory) (address : Nat) (rootNode : Option FDTNode) : Prop :=
  ∃ fuel parser, FDTParser.parse m fuel address = some parser ∧ parser.rootNode = rootNode

/-- The parser builds equal trees at the two addresses. -/
def SameTree (m : Memory) (address : Nat) (m' : Memory) (address' : Nat) : Prop :=
  ∃ rootNode, Builds m address rootNode ∧ Builds m' address' rootNode

/-- The token at an offset begins too late to be seen by the parser. -/
def Token.Hidden (header : FDTHeader) (k : Nat) : Token → Prop
  | .beginNode _ => header.sizeDtStruct.toNat ≤ k
  | .prop _ => header.sizeDtStruct.toNat ≤ k + 4
  | .endNode => True

theorem Token.Hidden.le {header : FDTHeader} {k : Nat} {t : Token} (hidden : t.Hidden header k)
    (reads : t ≠ .endNode) : header.sizeDtStruct.toNat ≤ k + 4 := by
  cases t with
  | endNode => exact absurd rfl reads
  | beginNode name => exact Nat.le_add_right_of_le hidden
  | prop property => exact hidden

/-- The structure block begins with its root, before any `FDT_NOP`. -/
def BeginsWithRoot (bytes : Bytes) : Prop :=
  word (blobMemory bytes) (blobHeader bytes).offDtStruct.toNat = FDT_BEGIN_NODE

instance (bytes : Bytes) : Decidable (BeginsWithRoot bytes) :=
  inferInstanceAs (Decidable (_ = _))

/-- Of a block that begins with its root, the parser sees no property and no node below the root. -/
def OnlyRootShows (bytes : Bytes) (located : List (Nat × Token)) : Prop :=
  BeginsWithRoot bytes → ∀ k t, (k, t) ∈ located.tail → t.Hidden (blobHeader bytes) k

/-! ## Moving a blob -/

/-- The memory seen from an address. -/
def shift (m : Memory) (address : Nat) : Memory := fun a => m (address + a)

theorem doubleWord_shift (m : Memory) (address a : Nat) :
    doubleWord (shift m address) a = doubleWord m (address + a) := rfl

theorem bytesAt_shift {m : Memory} {address a : Nat} {s : Bytes} :
    BytesAt (shift m address) a s ↔ BytesAt m (address + a) s := by
  induction s generalizing a with
  | nil => exact Iff.rfl
  | cons byte s ih => exact and_congr Iff.rfl ih

theorem cStringAt_shift {m : Memory} {address a : Nat} {s : Bytes}
    (h : CStringAt (shift m address) a s) : CStringAt m (address + a) s := by
  obtain ⟨bytes, nul, noNul⟩ := h
  refine ⟨bytesAt_shift.1 bytes, ?_, noNul⟩
  rw [Nat.add_assoc]
  exact nul

theorem nextWord_add {address : Nat} (aligned : address % 4 = 0) (n : Nat) :
    nextWord (address + n) = address + nextWord n := by
  unfold nextWord
  omega

theorem Token.paddedEnd_add {address : Nat} (aligned : address % 4 = 0) (k : Nat) (t : Token) :
    t.paddedEnd (address + k) = address + t.paddedEnd k := by
  cases t with
  | endNode => exact Nat.add_assoc _ _ _
  | beginNode name | prop property =>
    simp only [paddedEnd, ← nextWord_add aligned, Nat.add_assoc]

def moved (address : Nat) (located : List (Nat × Token)) : List (Nat × Token) :=
  located.map fun token => (address + token.1, token.2)

theorem mem_moved {address b : Nat} {t : Token} {located : List (Nat × Token)}
    (mem : (b, t) ∈ moved address located) : ∃ k, (k, t) ∈ located ∧ b = address + k := by
  obtain ⟨⟨k, t⟩, member, same⟩ := List.mem_map.1 mem
  obtain ⟨rfl, rfl⟩ := Prod.mk.inj same
  exact ⟨k, member, rfl⟩

/-- A structure block keeps its tokens wherever it is. -/
theorem StructureBlock.move {m : Memory} {address strings a stop : Nat}
    {located : List (Nat × Token)} (aligned : address % 4 = 0)
    (block : StructureBlock (shift m address) strings located a stop) :
    StructureBlock m (address + strings) (moved address located) (address + a)
      (address + stop) := by
  induction block with
  | nop type rest ih => exact .nop type ih
  | @beginNode located a stop name type nameAt padding rest ih =>
    have next : nextWord (address + a + 4 + name.length + 1) =
        address + nextWord (a + 4 + name.length + 1) := by
      rw [← nextWord_add aligned]
      simp only [Nat.add_assoc]
    have nameAt : CStringAt m (address + (a + 4)) name := cStringAt_shift nameAt
    refine .beginNode type nameAt ?_ (next ▸ ih)
    intro b low high
    rw [next] at high
    have zero := padding (b - address) (by omega) (by omega)
    rwa [shift, Nat.add_sub_cancel' (by omega)] at zero
  | @prop located a stop property type len nameAt valueAt rest ih =>
    have next : nextWord (address + a + 12 + property.value.length) =
        address + nextWord (a + 12 + property.value.length) := by
      rw [← nextWord_add aligned]
      simp only [Nat.add_assoc]
    have valueAt : BytesAt m (address + (a + 12)) property.value := bytesAt_shift.1 valueAt
    refine .prop type len ?_ valueAt (next ▸ ih)
    rw [Nat.add_assoc]
    exact cStringAt_shift nameAt
  | endNode type rest ih => exact .endNode type ih
  | ending type => exact .ending type

theorem bytesAt_iff {m : Memory} {a : Nat} {bytes : Bytes} :
    BytesAt m a bytes ↔ ∀ i, i < bytes.length → m (a + i) = bytes.getD i 0 := by
  induction bytes generalizing a with
  | nil => exact ⟨fun _ i lt => absurd lt (Nat.not_lt_zero i), fun _ => trivial⟩
  | cons byte bytes ih =>
    constructor
    · rintro ⟨here, tail⟩ i lt
      cases i with
      | zero => exact here
      | succ i =>
        have next := ih.1 tail i (Nat.lt_of_succ_lt_succ lt)
        rwa [Nat.add_right_comm] at next
    · intro all
      refine ⟨all 0 (Nat.succ_pos _), ih.2 fun i lt => ?_⟩
      rw [Nat.add_right_comm]
      exact all (i + 1) (Nat.succ_lt_succ lt)

/-! ## A loaded blob -/

section Load

variable {bytes : Bytes} {tree : FDTNode} {located : List (Nat × Token)} {m : Memory}
  {address : Nat}

theorem word_congr {m m' : Memory} {a a' : Nat} (same : ∀ i, i < 4 → m (a + i) = m' (a' + i)) :
    word m a = word m' a' := by
  unfold word
  rw [same 1 (by decide), same 2 (by decide), same 3 (by decide)]
  exact congrArg (· ++ _ ++ _ ++ _) (same 0 (by decide))

theorem Loaded.word_eq (loaded : Loaded m address bytes) {k : Nat} (within : k + 4 ≤ bytes.length) :
    word m (address + k) = word (blobMemory bytes) k := by
  apply word_congr
  intro i lt
  rw [Nat.add_assoc]
  exact bytesAt_iff.1 loaded.bytesAt (k + i) (by omega)

theorem Loaded.header_eq (loaded : Loaded m address bytes) (long : 40 ≤ bytes.length) :
    FDTHeader.at m address = { blobHeader bytes with address := address } := by
  simp only [FDTHeader.at, blobHeader, Nat.zero_add]
  rw [loaded.word_eq (by omega), loaded.word_eq (by omega), loaded.word_eq (by omega),
    loaded.word_eq (by omega)]

theorem IsBlob.header_eq (blob : IsBlob bytes tree located) (loaded : Loaded m address bytes) :
    FDTHeader.at m address = { blobHeader bytes with address := address } :=
  loaded.header_eq blob.header

theorem Loaded.shift (loaded : Loaded m address bytes) : Loaded (shift m address) 0 bytes := by
  have fits := loaded.fits
  exact ⟨bytesAt_shift.2 loaded.bytesAt, rfl, by omega⟩

theorem IsBlob.structureBlock (blob : IsBlob bytes tree located)
    (loaded : Loaded m address bytes) :
    StructureBlock m (address + (blobHeader bytes).offDtStrings.toNat) (moved address located)
      (address + (blobHeader bytes).offDtStruct.toNat)
      (address + ((blobHeader bytes).offDtStruct.toNat +
        (blobHeader bytes).sizeDtStruct.toNat)) := by
  have same : FDTHeader.at (Firmware.shift m address) 0 = blobHeader bytes :=
    blob.header_eq loaded.shift
  have block := (blob.encodes _ loaded.shift.bytesAt).structureBlock.move loaded.aligned
  simpa only [same, Nat.zero_add] using block

theorem loaded_memoryAt (aligned : address % 4 = 0) (fits : address + bytes.length ≤ 2 ^ 64) :
    Loaded (memoryAt bytes address) address bytes := by
  refine ⟨bytesAt_iff.2 fun i _ => ?_, aligned, fits⟩
  rw [memoryAt, Nat.add_sub_cancel_left]

theorem loaded_blobMemory (short : bytes.length < 2 ^ 32) : Loaded (blobMemory bytes) 0 bytes :=
  loaded_memoryAt rfl (by omega)

theorem StructureBlock.endingWord {strings a stop : Nat}
    (block : StructureBlock m strings located a stop) : word m (stop - 4) = FDT_END := by
  induction block with
  | nop | beginNode | prop | endNode => assumption
  | ending type => rwa [Nat.add_sub_cancel]

/-- The structure block is within the bytes. -/
theorem IsBlob.stop_le (blob : IsBlob bytes tree located) :
    (blobHeader bytes).offDtStruct.toNat + (blobHeader bytes).sizeDtStruct.toNat ≤
      bytes.length := by
  have block := blob.structureBlock (loaded_blobMemory blob.totalsize)
  have bound := block.lt_stop
  have ending := block.endingWord
  by_contra beyond
  have last : (word (blobMemory bytes)
      (0 + ((blobHeader bytes).offDtStruct.toNat + (blobHeader bytes).sizeDtStruct.toNat) -
        4)).setWidth 8 = 0 := by
    rw [word, BitVec.setWidth_append_eq_right, blobMemory, memoryAt, List.getD_eq_getElem?_getD,
      List.getElem?_eq_none (by omega)]
    rfl
  rw [ending] at last
  exact absurd last (by decide)

theorem IsBlob.inBlock_iff (blob : IsBlob bytes tree located) (loaded : Loaded m address bytes)
    (k : Nat) : InBlock (FDTHeader.at m address) (address + k) ↔
      k < (blobHeader bytes).sizeDtStruct.toNat := by
  rw [blob.header_eq loaded]
  apply (Firmware.inBlock_iff (Nat.le_add_right address k)).trans
  show address + k - address < _ ↔ _
  rw [Nat.add_sub_cancel_left]

theorem IsBlob.builds_iff (blob : IsBlob bytes tree located) (loaded : Loaded m address bytes)
    {rootNode : Option FDTNode} : Builds m address rootNode ↔
      ∃ stop, Parses m (FDTHeader.at m address) .none .empty
        (address + (blobHeader bytes).offDtStruct.toNat)
        (address + (blobHeader bytes).offDtStruct.toNat) (rootNode, stop) := by
  have header := blob.header_eq loaded
  have reserveMap : ∃ n, doubleWord m
      (address + (FDTHeader.at m address).offMemRsvmap.toNat + 16 * n) = 0 := by
    obtain ⟨n, zero⟩ := (blob.encodes _ loaded.shift.bytesAt).reserveMap
    rw [blob.header_eq loaded.shift, Nat.zero_add, doubleWord_shift, ← Nat.add_assoc] at zero
    rw [header]
    exact ⟨n, zero⟩
  apply (parse_iff reserveMap).trans
  rw [header]

theorem IsBlob.builds_unique (blob : IsBlob bytes tree located) (loaded : Loaded m address bytes)
    {rootNode rootNode' : Option FDTNode} (builds : Builds m address rootNode)
    (builds' : Builds m address rootNode') : rootNode = rootNode' := by
  obtain ⟨stop, parses⟩ := (blob.builds_iff loaded).1 builds
  obtain ⟨stop', parses'⟩ := (blob.builds_iff loaded).1 builds'
  exact (Prod.mk.inj (parses.unique parses')).1

theorem inBlock_blobHeader_iff (k : Nat) :
    InBlock (blobHeader bytes) k ↔ k < (blobHeader bytes).sizeDtStruct.toNat :=
  @Firmware.inBlock_iff (blobHeader bytes) k (Nat.zero_le k)

theorem IsBlob.cut_eq (blob : IsBlob bytes tree located) (loaded : Loaded m address bytes)
    (tokens : List (Nat × Token)) :
    cut (FDTHeader.at m address) (moved address tokens) = cut (blobHeader bytes) tokens := by
  have here (k : Nat) : InBlock (FDTHeader.at m address) (address + k) ↔
      InBlock (blobHeader bytes) k :=
    (blob.inBlock_iff loaded k).trans (inBlock_blobHeader_iff k).symm
  have next (k : Nat) : InBlock (FDTHeader.at m address) (address + k + 4) ↔
      InBlock (blobHeader bytes) (k + 4) :=
    here (k + 4)
  induction tokens with
  | nil => rfl
  | cons first tokens ih =>
    obtain ⟨k, t⟩ := first
    have ih : cut (FDTHeader.at m address)
        (tokens.map fun token => (address + token.1, token.2)) = cut (blobHeader bytes) tokens := ih
    cases t <;> simp only [moved, List.map_cons, cut, here, next, ih]

/-! ## The root -/

theorem IsBlob.block (blob : IsBlob bytes tree located) :
    StructureBlock (blobMemory bytes) (blobHeader bytes).offDtStrings.toNat located
      (blobHeader bytes).offDtStruct.toNat
      ((blobHeader bytes).offDtStruct.toNat + (blobHeader bytes).sizeDtStruct.toNat) := by
  have block := (blob.encodes _ (loaded_blobMemory blob.totalsize).bytesAt).structureBlock
  rw [Nat.zero_add, Nat.zero_add] at block
  exact block

/-- A block that begins with a node begins with the root. -/
theorem IsBlob.root (blob : IsBlob bytes tree located)
    (begins : BeginsWithRoot bytes) :
    ∃ below, located = ((blobHeader bytes).offDtStruct.toNat, .beginNode tree.name) :: below := by
  obtain ⟨name, below, next, same, -⟩ := blob.block.root begins
  have tokens := (blob.encodes _ (loaded_blobMemory blob.totalsize).bytesAt).tokens
  obtain ⟨treeName, properties, children⟩ := tree
  rw [same, FDTNode.tokens, List.map_cons, List.cons.injEq, Token.beginNode.injEq] at tokens
  refine ⟨below, same.trans ?_⟩
  rw [tokens.1]
  rfl

theorem IsBlob.word_eq (blob : IsBlob bytes tree located) (loaded : Loaded m address bytes) :
    word m (address + (blobHeader bytes).offDtStruct.toNat) =
      word (blobMemory bytes) (blobHeader bytes).offDtStruct.toNat := by
  have within := blob.block.lt_stop
  have stop := blob.stop_le
  exact loaded.word_eq (by omega)

theorem IsBlob.nameAt (blob : IsBlob bytes tree located) (loaded : Loaded m address bytes)
    (begins : BeginsWithRoot bytes) :
    CStringAt m (address + (blobHeader bytes).offDtStruct.toNat + 4) tree.name := by
  obtain ⟨below, root⟩ := blob.root begins
  obtain ⟨name, below', next, same, nameAt, -⟩ :=
    (blob.structureBlock loaded).root ((blob.word_eq loaded).trans begins)
  rw [root, moved, List.map_cons, List.cons.injEq, Prod.mk.injEq, Token.beginNode.injEq] at same
  rw [same.1.2]
  exact nameAt

/-! ## What is built -/

/-- The root node where nothing but the name of the root shows. -/
def rootAlone (bytes : Bytes) (tree : FDTNode) : Option FDTNode :=
  let header := blobHeader bytes
  if header.sizeDtStruct.toNat ≤ header.offDtStruct.toNat then some .empty
  else if BeginsWithRoot bytes then
    if header.sizeDtStruct.toNat ≤ header.offDtStruct.toNat + 4 then some .empty
    else some ⟨tree.name, [], []⟩
  else none

section Node

variable {name : Bytes} {ts rest : List Token} {node : FDTNode}

/-- The tree of a block that begins with the root, where no padding is cut off. -/
theorem IsBlob.builds_node (blob : IsBlob bytes tree located) (loaded : Loaded m address bytes)
    (begins : BeginsWithRoot bytes)
    (kept : ∀ k t, (k, t) ∈ located → t ≠ .endNode →
      k + 4 < (blobHeader bytes).sizeDtStruct.toNat → address + t.paddedEnd k < 2 ^ 32)
    (tokens : cut (blobHeader bytes) located = .beginNode name :: ts)
    (body : Body ts ⟨name, [], []⟩ node rest) : Builds m address (some node) := by
  have header := blob.header_eq loaded
  have reads : Reads m (FDTHeader.at m address) (.beginNode name :: ts)
      (address + (blobHeader bytes).offDtStruct.toNat) := by
    rw [← tokens, ← blob.cut_eq loaded]
    apply (blob.structureBlock loaded).reads
    · rw [header]
    · rw [header]
      exact Nat.le_add_right _ _
    · intro b t mem reads inBlock
      obtain ⟨k, member, rfl⟩ := mem_moved mem
      rw [Token.paddedEnd_add loaded.aligned]
      exact kept k t member reads ((blob.inBlock_iff loaded (k + 4)).1 inBlock)
  have token : ¬(InBlock (FDTHeader.at m address) (address + (blobHeader bytes).offDtStruct.toNat) ∧
      (word m (address + (blobHeader bytes).offDtStruct.toNat) = 0 ∨
        word m (address + (blobHeader bytes).offDtStruct.toNat) = FDT_NOP)) := by
    rw [blob.word_eq loaded, begins]
    simp [FDT_BEGIN_NODE, FDT_NOP]
  obtain ⟨-, -, stop, parses, -⟩ := reads.parseNode token body fun b reads => reads.parses body
  exact (blob.builds_iff loaded).2 ⟨stop, parses⟩

end Node

/-- The 32 bits that are left of an address from 4 GiB on are outside of the block. -/
theorem Loaded.cut_outside (loaded : Loaded m address bytes) (short : bytes.length < 2 ^ 32)
    {k : Nat} (within : k < bytes.length) (beyond : 2 ^ 32 ≤ address + k) :
    2 ^ 32 ≤ offsetFrom address ((address + k) % 2 ^ 32) := by
  have aligned := loaded.aligned
  have fits := loaded.fits
  unfold offsetFrom
  split <;> omega

/-- Where the padding of the name of the root is cut off, nothing else is read. -/
theorem IsBlob.builds_cut (blob : IsBlob bytes tree located) (loaded : Loaded m address bytes)
    (inside : (blobHeader bytes).offDtStruct.toNat + 4 < (blobHeader bytes).sizeDtStruct.toNat)
    (begins : BeginsWithRoot bytes)
    (beyond : 2 ^ 32 ≤ address +
      Token.paddedEnd (blobHeader bytes).offDtStruct.toNat (.beginNode tree.name)) :
    Builds m address (some ⟨tree.name, [], []⟩) := by
  obtain ⟨below, root⟩ := blob.root begins
  have within := blob.block.paddedEnd_lt _ _ (root ▸ List.mem_cons_self)
  have stop := blob.stop_le
  have outside := loaded.cut_outside blob.totalsize (by omega) beyond
  have size := (blobHeader bytes).sizeDtStruct.isLt
  have start : InBlock (FDTHeader.at m address)
      (address + (blobHeader bytes).offDtStruct.toNat) :=
    (blob.inBlock_iff loaded _).2 (by omega)
  have nameInside : InBlock (FDTHeader.at m address)
      (address + (blobHeader bytes).offDtStruct.toNat + 4) :=
    (blob.inBlock_iff loaded ((blobHeader bytes).offDtStruct.toNat + 4)).2 inside
  have back : alignTo 4 (address + (blobHeader bytes).offDtStruct.toNat + 4 + tree.name.length) =
      (address + Token.paddedEnd (blobHeader bytes).offDtStruct.toNat (.beginNode tree.name)) %
        2 ^ 32 := by
    rw [alignTo_eq_mod, Nat.add_assoc, Nat.add_assoc, nextWord_add loaded.aligned,
      Token.paddedEnd, Nat.add_assoc]
  refine (blob.builds_iff loaded).2 ⟨_, .begin start ((blob.word_eq loaded).trans begins)
    (.name nameInside (blob.nameAt loaded begins) (.past ?_))⟩
  rw [back, InBlock, blob.header_eq loaded]
  exact Nat.not_lt.2 (size.le.trans outside)

/-- What a block holds after its first token begins a word later. -/
theorem StructureBlock.sorted {strings a stop : Nat}
    (block : StructureBlock m strings located a stop) :
    located.Pairwise fun first later => first.1 + 4 ≤ later.1 := by
  induction block with
  | nop type rest ih => exact ih
  | @beginNode located a stop name type nameAt padding rest ih =>
    refine .cons (fun later mem => ?_) ih
    have le := le_nextWord (a + 4 + name.length + 1)
    have after := rest.le_of_mem later.1 later.2 mem
    omega
  | @prop located a stop property type len nameAt valueAt rest ih =>
    refine .cons (fun later mem => ?_) ih
    have le := le_nextWord (a + 12 + property.value.length)
    have after := rest.le_of_mem later.1 later.2 mem
    omega
  | endNode type rest ih => exact .cons (fun later mem => rest.le_of_mem later.1 later.2 mem) ih
  | ending type => exact .nil

theorem IsBlob.le_of_mem_below (blob : IsBlob bytes tree located) {first : Nat × Token}
    {below : List (Nat × Token)} (root : located = first :: below) :
    ∀ k t, (k, t) ∈ below → first.1 + 4 ≤ k := by
  intro k t mem
  have sorted := blob.block.sorted
  rw [root, List.pairwise_cons] at sorted
  exact sorted.1 (k, t) mem

/-- Tokens that only end nodes leave the node as it is. -/
theorem Body.of_ends {ts rest : List Token} {node node' : FDTNode} (body : Body ts node node' rest)
    (ends : ∀ t ∈ ts, t = .endNode) : node' = node := by
  cases body with
  | done | endNode => rfl
  | prop => exact absurd (ends _ List.mem_cons_self) (by simp)
  | child => exact absurd (ends _ List.mem_cons_self) (by simp)

theorem cut_ends (hidden : ∀ k t, (k, t) ∈ located → t.Hidden (blobHeader bytes) k) :
    ∀ t ∈ cut (blobHeader bytes) located, t = .endNode := by
  induction located with
  | nil => exact fun t mem => absurd mem List.not_mem_nil
  | cons first located ih =>
    obtain ⟨k, t⟩ := first
    have here := hidden k t List.mem_cons_self
    have ih := ih fun k t mem => hidden k t (List.mem_cons_of_mem _ mem)
    simp only [cut, inBlock_blobHeader_iff]
    split
    case isFalse => exact fun t mem => absurd mem List.not_mem_nil
    case isTrue inside =>
      cases t with
      | beginNode name => exact absurd inside (Nat.not_lt.2 here)
      | prop property =>
        have here : (blobHeader bytes).sizeDtStruct.toNat ≤ k + 4 := here
        simp only [if_neg (Nat.not_lt.2 here)]
        exact fun t mem => absurd mem List.not_mem_nil
      | endNode =>
        intro t mem
        rcases List.mem_cons.1 mem with same | mem
        · exact same
        · exact ih t mem

/-- At 4 GiB or beyond, and wherever nothing else shows, the root comes alone. -/
theorem IsBlob.builds_rootAlone (blob : IsBlob bytes tree located)
    (loaded : Loaded m address bytes)
    (alone : 2 ^ 32 ≤ address ∨ OnlyRootShows bytes located) :
    Builds m address (rootAlone bytes tree) := by
  unfold rootAlone
  simp only
  by_cases empty : (blobHeader bytes).sizeDtStruct.toNat ≤ (blobHeader bytes).offDtStruct.toNat
  · rw [if_pos empty]
    refine (blob.builds_iff loaded).2 ⟨_, .past ?_⟩
    rw [blob.inBlock_iff loaded]
    exact Nat.not_lt.2 empty
  rw [if_neg empty]
  by_cases begins : BeginsWithRoot bytes
  case neg =>
    rw [if_neg begins]
    refine (blob.builds_iff loaded).2 ⟨_, .noNode ?_ ?_⟩
    · exact (blob.inBlock_iff loaded _).2 (Nat.not_le.1 empty)
    · rwa [blob.word_eq loaded]
  rw [if_pos begins]
  obtain ⟨below, root⟩ := blob.root begins
  by_cases nameless : (blobHeader bytes).sizeDtStruct.toNat ≤
    (blobHeader bytes).offDtStruct.toNat + 4
  · rw [if_pos nameless]
    refine blob.builds_node loaded begins ?_ ?_ (.done _)
    · intro k t mem _ inside
      have le := blob.block.le_of_mem k t mem
      omega
    · simp only [root, cut, inBlock_blobHeader_iff]
      rw [if_pos (Nat.not_le.1 empty), if_neg (Nat.not_lt.2 nameless)]
  rw [if_neg nameless]
  by_cases beyond : 2 ^ 32 ≤ address +
    Token.paddedEnd (blobHeader bytes).offDtStruct.toNat (.beginNode tree.name)
  · exact blob.builds_cut loaded (Nat.not_le.1 nameless) begins beyond
  have shows := alone.resolve_left (by omega) begins
  rw [root, List.tail_cons] at shows
  obtain ⟨node, rest, body, -⟩ := Body.total
    (Nat.le_refl (cut (blobHeader bytes) below).length) ⟨tree.name, [], []⟩
  rw [body.of_ends (cut_ends shows)] at body
  refine blob.builds_node loaded begins ?_ ?_ body
  · intro k t mem reads inside
    rw [root] at mem
    rcases List.mem_cons.1 mem with head | mem
    · obtain ⟨rfl, rfl⟩ := Prod.mk.inj head
      omega
    · have hidden := (shows k t mem).le reads
      omega
  · simp only [root, cut, inBlock_blobHeader_iff]
    rw [if_pos (Nat.not_le.1 empty), if_pos (Nat.not_le.1 nameless)]

/-! ## Below 4 GiB -/

def FDTNode.parts : FDTNode → Nat
  | ⟨_, properties, children⟩ => properties.length + children.length

theorem Body.parts_le {ts rest : List Token} {node node' : FDTNode}
    (body : Body ts node node' rest) : node.parts ≤ node'.parts := by
  induction body with
  | done | endNode => exact Nat.le_refl _
  | @prop ts rest node node' property tail ih =>
    obtain ⟨name, properties, children⟩ := node
    simp only [FDTNode.addProperty, FDTNode.parts, List.length_append, List.length_singleton]
      at ih ⊢
    omega
  | @child ts ts' rest node child node' name inner tail ihInner ih =>
    obtain ⟨name, properties, children⟩ := node
    simp only [FDTNode.addChild, FDTNode.parts, List.length_append, List.length_singleton] at ih ⊢
    omega

/-- Tokens that add nothing to a node begin with its end. -/
theorem Body.nil_or_endNode {ts rest : List Token} {name name' : Bytes}
    (body : Body ts ⟨name, [], []⟩ ⟨name', [], []⟩ rest) :
    ts = [] ∨ ∃ us, ts = .endNode :: us := by
  cases body with
  | done => exact .inl rfl
  | endNode => exact .inr ⟨_, rfl⟩
  | prop tail => exact absurd tail.parts_le (Nat.not_succ_le_zero 0)
  | child inner tail => exact absurd tail.parts_le (Nat.not_succ_le_zero 0)

theorem IsBlob.onlyRootShows_of_nameless (blob : IsBlob bytes tree located)
    (nameless : (blobHeader bytes).sizeDtStruct.toNat ≤ (blobHeader bytes).offDtStruct.toNat + 4) :
    OnlyRootShows bytes located := by
  intro begins k t mem
  obtain ⟨below, root⟩ := blob.root begins
  rw [root, List.tail_cons] at mem
  have le := nameless.trans (blob.le_of_mem_below root k t mem)
  cases t with
  | endNode => trivial
  | beginNode name => exact le
  | prop property => exact Nat.le_add_right_of_le le

/-- Right after its name a root can only end where it has no more to it. -/
theorem FDTNode.tokens_endNode {tree : FDTNode} {name : Bytes} {us : List Token}
    (tokens : tree.tokens = .beginNode name :: .endNode :: us) : us = [] := by
  obtain ⟨treeName, properties, children⟩ := tree
  rw [FDTNode.tokens, List.cons.injEq] at tokens
  cases properties with
  | cons property properties => exact absurd tokens.2 (by simp)
  | nil =>
    cases children with
    | nil => exact (List.cons.inj tokens.2).2.symm
    | cons child children =>
      obtain ⟨childName, childProperties, grandchildren⟩ := child
      exact absurd tokens.2 (by simp [childTokens, FDTNode.tokens])

/-- If the tokens after the root leave it without a part, none of them is seen. -/
theorem IsBlob.onlyRootShows_of_body (blob : IsBlob bytes tree located)
    {below : List (Nat × Token)} {rest : List Token}
    (root : located = ((blobHeader bytes).offDtStruct.toNat, .beginNode tree.name) :: below)
    (body : Body (cut (blobHeader bytes) below) ⟨tree.name, [], []⟩ ⟨tree.name, [], []⟩ rest) :
    OnlyRootShows bytes located := by
  have tokens := (blob.encodes _ (loaded_blobMemory blob.totalsize).bytesAt).tokens
  intro _
  rw [root, List.tail_cons]
  have ends := body.nil_or_endNode
  cases below with
  | nil => exact fun k t mem => absurd mem List.not_mem_nil
  | cons first below =>
    have after (k : Nat) (t : Token) (mem : (k, t) ∈ below) : first.1 + 4 ≤ k := by
      have sorted := blob.block.sorted
      rw [root, List.pairwise_cons, List.pairwise_cons] at sorted
      exact sorted.2.1 (k, t) mem
    obtain ⟨first, t⟩ := first
    simp only [cut, inBlock_blobHeader_iff] at ends
    have hidden : t.Hidden (blobHeader bytes) first := by
      cases t with
      | endNode => trivial
      | prop property =>
        show _ ≤ first + 4
        by_contra seen
        have inside : first < (blobHeader bytes).sizeDtStruct.toNat := by omega
        simp [inside, Nat.not_le.1 seen] at ends
      | beginNode name =>
        show _ ≤ first
        by_contra seen
        by_cases next : first + 4 < (blobHeader bytes).sizeDtStruct.toNat <;>
          simp [Nat.not_le.1 seen, next] at ends
    intro k u mem
    rcases List.mem_cons.1 mem with head | member
    · obtain ⟨rfl, rfl⟩ := Prod.mk.inj head
      exact hidden
    have later := after k u member
    cases t with
    | endNode =>
      rw [root] at tokens
      obtain rfl := List.map_eq_nil_iff.1 (FDTNode.tokens_endNode tokens.symm)
      exact absurd member List.not_mem_nil
    | beginNode name | prop property =>
      have le : (blobHeader bytes).sizeDtStruct.toNat ≤ first + 4 := hidden.le (by simp)
      cases u with
      | endNode => trivial
      | beginNode name => exact le.trans later
      | prop property => exact Nat.le_add_right_of_le (le.trans later)

/-- Below 4 GiB the tree is the same everywhere, and has more to it than the root if that shows. -/
theorem IsBlob.builds_below (blob : IsBlob bytes tree located) : ∃ rootNode,
    (∀ m address, Loaded m address bytes → address + bytes.length ≤ 2 ^ 32 →
      Builds m address rootNode) ∧
    (rootNode = rootAlone bytes tree → OnlyRootShows bytes located) := by
  by_cases alone : OnlyRootShows bytes located
  · refine ⟨rootAlone bytes tree, ?_, fun _ => alone⟩
    intro m address loaded below
    exact blob.builds_rootAlone loaded (.inr alone)
  obtain ⟨begins, -⟩ := Classical.not_imp.1 alone
  have named : (blobHeader bytes).offDtStruct.toNat + 4 < (blobHeader bytes).sizeDtStruct.toNat :=
    Nat.not_le.1 fun nameless => alone (blob.onlyRootShows_of_nameless nameless)
  obtain ⟨below, root⟩ := blob.root begins
  obtain ⟨node, rest, body, -⟩ := Body.total
    (Nat.le_refl (cut (blobHeader bytes) below).length) ⟨tree.name, [], []⟩
  have tokens : cut (blobHeader bytes) located =
      .beginNode tree.name :: cut (blobHeader bytes) below := by
    simp only [root, cut, inBlock_blobHeader_iff]
    rw [if_pos (by omega), if_pos named]
  refine ⟨some node, ?_, ?_⟩
  · intro m address loaded low
    refine blob.builds_node loaded begins ?_ tokens body
    intro k t mem _ _
    have lt := blob.block.paddedEnd_lt k t mem
    have stop := blob.stop_le
    omega
  · intro same
    have bare : rootAlone bytes tree = some ⟨tree.name, [], []⟩ := by
      simp only [rootAlone]
      rw [if_neg (by omega), if_pos begins, if_neg (by omega)]
    obtain rfl := Option.some.inj (same.trans bare)
    exact blob.onlyRootShows_of_body root body

end Load

/-! ## Two load addresses -/

section Addresses

variable {bytes : Bytes} {tree : FDTNode} {located : List (Nat × Token)} {m m' : Memory}
  {address address' : Nat}

theorem SameTree.symm (same : SameTree m address m' address') : SameTree m' address' m address := by
  obtain ⟨rootNode, builds, builds'⟩ := same
  exact ⟨rootNode, builds', builds⟩

theorem IsBlob.sameTree_below (blob : IsBlob bytes tree located) (loaded : Loaded m address bytes)
    (loaded' : Loaded m' address' bytes) (below : address + bytes.length ≤ 2 ^ 32)
    (below' : address' + bytes.length ≤ 2 ^ 32) : SameTree m address m' address' := by
  obtain ⟨rootNode, builds, -⟩ := blob.builds_below
  exact ⟨rootNode, builds m address loaded below, builds m' address' loaded' below'⟩

theorem IsBlob.sameTree_alone (blob : IsBlob bytes tree located) (loaded : Loaded m address bytes)
    (loaded' : Loaded m' address' bytes)
    (alone : OnlyRootShows bytes located) : SameTree m address m' address' :=
  ⟨rootAlone bytes tree, blob.builds_rootAlone loaded (.inr alone),
    blob.builds_rootAlone loaded' (.inr alone)⟩

/-- On the two sides of 4 GiB the trees are equal where nothing but the root shows. -/
theorem IsBlob.sameTree_across_iff (blob : IsBlob bytes tree located)
    (loaded : Loaded m address bytes) (loaded' : Loaded m' address' bytes)
    (below : address + bytes.length ≤ 2 ^ 32) (above : 2 ^ 32 ≤ address') :
    SameTree m address m' address' ↔ OnlyRootShows bytes located := by
  constructor
  · rintro ⟨rootNode, builds, builds'⟩
    obtain ⟨whole, buildsWhole, shows⟩ := blob.builds_below
    obtain rfl := blob.builds_unique loaded builds (buildsWhole m address loaded below)
    exact shows (blob.builds_unique loaded' builds' (blob.builds_rootAlone loaded' (.inl above)))
  · exact blob.sameTree_alone loaded loaded'

/-- **The tree of a blob depends on the load address**, unless the block does not begin with the
root or nothing but the root shows: it is the same wherever the blob is below 4 GiB, and the same
wherever it is above. -/
theorem parse_loadAddress_iff (blob : IsBlob bytes tree located) :
    ((∀ m m' address address', Loaded m address bytes → Loaded m' address' bytes →
        SameTree m address m' address') ↔ OnlyRootShows bytes located) ∧
    ∀ m m' address address', Loaded m address bytes → Loaded m' address' bytes →
      (address + bytes.length ≤ 2 ^ 32 ∨ 2 ^ 32 ≤ address) →
      (address' + bytes.length ≤ 2 ^ 32 ∨ 2 ^ 32 ≤ address') →
      (SameTree m address m' address' ↔
        (2 ^ 32 ≤ address ↔ 2 ^ 32 ≤ address') ∨ OnlyRootShows bytes located) := by
  have header := blob.header
  have short := blob.totalsize
  constructor
  · constructor
    · intro same
      have low : Loaded (memoryAt bytes 0) 0 bytes := loaded_memoryAt rfl (by omega)
      have high : Loaded (memoryAt bytes (2 ^ 32)) (2 ^ 32) bytes := loaded_memoryAt rfl (by omega)
      exact (blob.sameTree_across_iff low high (by omega) (Nat.le_refl _)).1
        (same _ _ _ _ low high)
    · intro alone m m' address address' loaded loaded'
      exact blob.sameTree_alone loaded loaded' alone
  · intro m m' address address' loaded loaded' side side'
    rcases side with below | above
    · rcases side' with below' | above'
      · have notAbove : ¬2 ^ 32 ≤ address := by omega
        have notAbove' : ¬2 ^ 32 ≤ address' := by omega
        exact ⟨fun _ => .inl (iff_of_false notAbove notAbove'),
          fun _ => blob.sameTree_below loaded loaded' below below'⟩
      · have differ : ¬(2 ^ 32 ≤ address ↔ 2 ^ 32 ≤ address') := by omega
        rw [blob.sameTree_across_iff loaded loaded' below above', or_iff_right differ]
    · rcases side' with below' | above'
      · have differ : ¬(2 ^ 32 ≤ address ↔ 2 ^ 32 ≤ address') := by omega
        rw [or_iff_right differ, ← blob.sameTree_across_iff loaded' loaded below' above]
        exact ⟨SameTree.symm, SameTree.symm⟩
      · refine ⟨fun _ => .inl (iff_of_true above above'), fun _ => ?_⟩
        exact ⟨rootAlone bytes tree, blob.builds_rootAlone loaded (.inl above),
          blob.builds_rootAlone loaded' (.inl above')⟩

end Addresses

/-! ## A blob on both sides -/

/-- The blob of a root with a property of 48 bytes. -/
def sampleBlob : Bytes := onePropertyBlob (List.replicate 48 7)

def sampleTokens : List (Nat × Token) :=
  [(56, .beginNode []), (64, .prop ⟨[0x61], List.replicate 48 7⟩), (124, .endNode)]

/-- What the blob holds where the parser reads it. -/
theorem sampleBlob_reads :
    (blobHeader sampleBlob = ⟨0, 56, 132, 40, 76⟩ ∧ doubleWord (blobMemory sampleBlob) 40 = 0) ∧
    (word (blobMemory sampleBlob) 56 = FDT_BEGIN_NODE ∧
      ∀ i, i < 4 → sampleBlob.getD (60 + i) 0 = 0) ∧
    (word (blobMemory sampleBlob) 64 = FDT_PROP ∧
      (word (blobMemory sampleBlob) 68).toNat = 48 ∧ word (blobMemory sampleBlob) 72 = 0 ∧
      ∀ i, i < 48 → sampleBlob.getD (76 + i) 0 = (List.replicate 48 7).getD i 0) ∧
    (sampleBlob.getD 132 0 = 0x61 ∧ sampleBlob.getD 133 0 = 0) ∧
    word (blobMemory sampleBlob) 124 = FDT_END_NODE ∧
    word (blobMemory sampleBlob) 128 = FDT_END := by
  decide +kernel

theorem sampleBlob_isBlob :
    IsBlob sampleBlob (oneProperty (List.replicate 48 7)) sampleTokens := by
  have length : sampleBlob.length = 134 := by decide +kernel
  refine ⟨by omega, by omega, fun m bytesAt => ?_⟩
  obtain ⟨⟨header, reserveMap⟩, ⟨begins, noName⟩, ⟨prop, len, nameOffset, value⟩, ⟨name, nameEnds⟩,
    ends, ending⟩ := sampleBlob_reads
  have loaded : Loaded m 0 sampleBlob := ⟨bytesAt, rfl, by omega⟩
  have words (k : Nat) (within : k + 4 ≤ 134) : word m k = word (blobMemory sampleBlob) k := by
    rw [← loaded.word_eq (by omega), Nat.zero_add]
  have byte (k : Nat) (within : k < 134) : m k = sampleBlob.getD k 0 := by
    rw [← bytesAt_iff.1 bytesAt k (by omega), Nat.zero_add]
  have here : FDTHeader.at m 0 = ⟨0, 56, 132, 40, 76⟩ := by
    rw [loaded.header_eq (by omega), header]
  have zero (b : Nat) (low : 60 ≤ b) (high : b < 64) : m b = 0 := by
    have none := noName (b - 60) (by omega)
    rwa [Nat.add_sub_cancel' low, ← byte b (by omega)] at none
  refine ⟨⟨⟩, rfl, ?_, ?_, ?_, 0, ?_⟩
  · rw [here]
    refine .beginNode ((words 56 (by omega)).trans begins)
      ⟨⟨⟩, zero 60 (by omega) (by omega), List.not_mem_nil⟩ (fun b low high => zero b low high) ?_
    refine .prop ((words 64 (by omega)).trans prop) ?_ ?_ ?_ ?_
    · exact (congrArg BitVec.toNat (words 68 (by omega))).trans len
    · show CStringAt m (0 + (132 : BitVec 32).toNat + (word m 72).toNat) [0x61]
      rw [words 72 (by omega), nameOffset]
      exact ⟨⟨(byte 132 (by omega)).trans name, trivial⟩, (byte 133 (by omega)).trans nameEnds,
        by decide⟩
    · show BytesAt m 76 (List.replicate 48 7)
      refine bytesAt_iff.2 fun i lt => ?_
      rw [List.length_replicate] at lt
      exact (byte (76 + i) (by omega)).trans (value i lt)
    · exact .endNode ((words 124 (by omega)).trans ends)
        (.ending ((words 128 (by omega)).trans ending))
  · rw [here]
    decide
  · rw [here]
    decide
  · rw [here]
    show doubleWord m 40 = 0
    rw [doubleWord, words 40 (by omega), words 44 (by omega)]
    exact reserveMap

/-- Loaded at 4 KiB and 4 GiB after that, the blob gives two trees. -/
theorem sampleBlob_not_sameTree : ∃ bytes tree located m m' address address',
    IsBlob bytes tree located ∧ Loaded m address bytes ∧ Loaded m' address' bytes ∧
      ¬SameTree m address m' address' := by
  have length : sampleBlob.length = 134 := by decide +kernel
  have low : Loaded (memoryAt sampleBlob 0x1000) 0x1000 sampleBlob :=
    loaded_memoryAt rfl (by omega)
  have high : Loaded (memoryAt sampleBlob 0x100001000) 0x100001000 sampleBlob :=
    loaded_memoryAt rfl (by omega)
  refine ⟨_, _, _, _, _, _, _, sampleBlob_isBlob, low, high, ?_⟩
  rw [sampleBlob_isBlob.sameTree_across_iff low high (by omega) (by omega)]
  obtain ⟨⟨header, -⟩, ⟨begins, -⟩, -⟩ := sampleBlob_reads
  have begins : BeginsWithRoot sampleBlob := by
    rw [BeginsWithRoot, header]
    exact begins
  intro shows
  have hidden : (blobHeader sampleBlob).sizeDtStruct.toNat ≤ 64 + 4 :=
    shows begins 64 _ List.mem_cons_self
  rw [header] at hidden
  exact absurd hidden (by decide)

/-- The addresses below 4 GiB agree on it. -/
theorem sampleBlob_sameTree : SameTree (memoryAt sampleBlob 0x1000) 0x1000
    (memoryAt sampleBlob 0x2000) 0x2000 := by
  have length : sampleBlob.length = 134 := by decide +kernel
  exact ((parse_loadAddress_iff sampleBlob_isBlob).2 _ _ _ _ (loaded_memoryAt rfl (by omega))
    (loaded_memoryAt rfl (by omega)) (.inl (by omega)) (.inl (by omega))).2
    (.inl (iff_of_false (by omega) (by omega)))

end MatteOS.Firmware
