import MatteOS.Lib.Align
import MatteOS.Firmware.DeviceTree
import MatteOS.Firmware.Verify.ReserveEntries

/-!
# Parsing recovers the tree

The parser is followed through the tokens it reads (`Reads`) to the node they describe (`Body`).
It stops at an offset of `size_dt_struct` from the header, not from the structure block, so what
the last bytes of the block describe is lost.
-/

namespace MatteOS.Firmware

open ByteMemory FDTNodeType

/-! ## Reading memory -/

/-- The mask of `align_to` keeps 32 bits. -/
theorem alignTo_eq_mod (a : Nat) : alignTo 4 a = nextWord a % 2 ^ 32 := by
  have sum : (BitVec.ofNat 64 a + (4 : BitVec 32).setWidth 64 - 1).toNat = (a + 3) % 2 ^ 64 := by
    have four : ((4 : BitVec 32).setWidth 64).toNat = 4 := rfl
    have one : (1 : BitVec 64).toNat = 1 := rfl
    rw [BitVec.toNat_sub, BitVec.toNat_add, BitVec.toNat_ofNat, four, one]
    omega
  have mask : (~~~((4 : BitVec 32) - 1)).setWidth 64 = 0xFFFFFFFF#64 &&& ~~~Align.lowMask 2 := by
    decide
  have low : (BitVec.ofNat 64 a + (4 : BitVec 32).setWidth 64 - 1 &&& 0xFFFFFFFF#64).toNat =
      (a + 3) % 2 ^ 32 := by
    rw [BitVec.toNat_and, sum, show (0xFFFFFFFF#64).toNat = 2 ^ 32 - 1 by rfl,
      Nat.and_two_pow_sub_one_eq_mod]
    omega
  unfold alignTo nextWord
  rw [mask, ← BitVec.and_assoc, Align.and_not_lowMask_toNat _ (by omega), low]
  omega

theorem alignTo_eq_nextWord {n : Nat} (below : nextWord n < 2 ^ 32) :
    alignTo 4 n = nextWord n := by
  rw [alignTo_eq_mod, Nat.mod_eq_of_lt below]

theorem cString_mono {m : Memory} {fuel fuel' a : Nat} {s : Bytes} (h : cString m fuel a = some s)
    (le : fuel ≤ fuel') : cString m fuel' a = some s := by
  induction fuel generalizing fuel' a s with
  | zero => simp [cString] at h
  | succ fuel ih =>
    obtain ⟨k, rfl⟩ : ∃ k, fuel' = k + 1 := ⟨fuel' - 1, by omega⟩
    simp only [cString] at h ⊢
    split
    · rwa [if_pos ‹_›] at h
    · rw [if_neg ‹_›, Option.map_eq_some_iff] at h
      obtain ⟨tail, read, rfl⟩ := h
      rw [ih read (by omega)]
      rfl

theorem CStringAt.cString {m : Memory} {a : Nat} {s : Bytes} (h : CStringAt m a s) :
    cString m (s.length + 1) a = some s := by
  induction s generalizing a with
  | nil => simpa [Firmware.cString] using h.nul
  | cons byte s ih =>
    obtain ⟨⟨here, bytes⟩, nul, noNul⟩ := h
    rw [List.length_cons, Nat.add_comm s.length, ← Nat.add_assoc] at nul
    rw [List.mem_cons, not_or] at noNul
    have tail := ih ⟨bytes, nul, noNul.2⟩
    rw [Firmware.cString, if_neg (by rw [here]; exact fun zero => noNul.1 zero.symm),
      List.length_cons, tail, here]
    rfl

theorem BytesAt.stringOfLength {m : Memory} {a : Nat} {s : Bytes} (h : BytesAt m a s) :
    stringOfLength m a s.length = s := by
  unfold Firmware.stringOfLength
  induction s generalizing a with
  | nil => rfl
  | cons byte s ih =>
    obtain ⟨here, bytes⟩ := h
    rw [List.length_cons, List.range_succ_eq_map, List.map_cons, List.map_map, Nat.add_zero, here]
    congr 1
    simpa only [Function.comp_def, Nat.succ_eq_add_one, Nat.add_assoc, Nat.add_comm 1]
      using ih bytes

theorem word_zero {m : Memory} {a : Nat} (zero : ∀ b, a ≤ b → b < a + 4 → m b = 0) :
    word m a = 0 := by
  unfold word
  rw [zero a (by omega) (by omega), zero (a + 1) (by omega) (by omega),
    zero (a + 2) (by omega) (by omega), zero (a + 3) (by omega) (by omega)]
  rfl

/-! ## Nodes from tokens -/

/-- The tokens after the name of a node, the node before and after them, and what is left. -/
inductive Body : List Token → FDTNode → FDTNode → List Token → Prop
  | done (node : FDTNode) : Body [] node node []
  | endNode (node : FDTNode) (ts : List Token) : Body (.endNode :: ts) node node ts
  | prop {ts rest : List Token} {node node' : FDTNode} {property : FDTProperty}
      (tail : Body ts (node.addProperty property) node' rest) :
      Body (.prop property :: ts) node node' rest
  | child {ts ts' rest : List Token} {node child node' : FDTNode} {name : Bytes}
      (inner : Body ts ⟨name, [], []⟩ child ts')
      (tail : Body ts' (node.addChild child) node' rest) :
      Body (.beginNode name :: ts) node node' rest

theorem Body.total {n : Nat} {ts : List Token} (bound : ts.length ≤ n) (node : FDTNode) :
    ∃ node' rest, Body ts node node' rest ∧ rest.length ≤ ts.length := by
  induction n generalizing ts node with
  | zero =>
    obtain rfl : ts = [] := List.eq_nil_of_length_eq_zero (by omega)
    exact ⟨node, [], .done node, Nat.le_refl _⟩
  | succ n ih =>
    cases ts with
    | nil => exact ⟨node, [], .done node, Nat.le_refl _⟩
    | cons t ts =>
      simp only [List.length_cons] at bound ⊢
      cases t with
      | endNode => exact ⟨node, ts, .endNode node ts, by omega⟩
      | prop property =>
        obtain ⟨node', rest, tail, shorter⟩ :=
          @ih ts (by omega) (node.addProperty property)
        exact ⟨node', rest, .prop tail, by omega⟩
      | beginNode name =>
        obtain ⟨child, ts', inner, shorter⟩ := @ih ts (by omega) ⟨name, [], []⟩
        obtain ⟨node', rest, tail, shorter'⟩ := @ih ts' (by omega) (node.addChild child)
        exact ⟨node', rest, .child inner tail, by omega⟩

theorem Body.properties {ts rest : List Token} {name : Bytes} {before : List FDTProperty}
    {children : List FDTNode} {node' : FDTNode} {properties : List FDTProperty}
    (tail : Body ts ⟨name, before ++ properties, children⟩ node' rest) :
    Body (properties.map .prop ++ ts) ⟨name, before, children⟩ node' rest := by
  induction properties generalizing before with
  | nil => simpa using tail
  | cons property properties ih =>
    apply Body.prop
    apply ih
    simpa using tail

mutual

/-- The tokens of a node give the node back. -/
theorem Body.of_tokens (rest : List Token) : ∀ tree : FDTNode, ∃ name ts,
    tree.tokens ++ rest = .beginNode name :: ts ∧ Body ts ⟨name, [], []⟩ tree rest
  | ⟨name, properties, children⟩ => by
    refine ⟨name, properties.map .prop ++ (childTokens children ++ .endNode :: rest), ?_, ?_⟩
    · simp [FDTNode.tokens]
    apply Body.properties
    apply Body.of_childTokens
    exact .endNode _ _

theorem Body.of_childTokens {ts rest : List Token} {name : Bytes} {properties : List FDTProperty}
    {node' : FDTNode} : ∀ {before : List FDTNode} (children : List FDTNode),
    Body ts ⟨name, properties, before ++ children⟩ node' rest →
    Body (childTokens children ++ ts) ⟨name, properties, before⟩ node' rest
  | before, [], tail => by simpa [childTokens] using tail
  | before, first :: children, tail => by
    obtain ⟨firstName, inner, tokens, body⟩ := Body.of_tokens (childTokens children ++ ts) first
    rw [childTokens, List.append_assoc, tokens]
    apply Body.child body
    apply Body.of_childTokens children
    simpa using tail

end

/-- Without a last `FDT_END_NODE` the node is the same. -/
theorem Body.dropLast {us ts rest : List Token} {node node' : FDTNode}
    (body : Body us node node' rest) (append : us = ts ++ [.endNode]) :
    ∃ rest', Body ts node node' rest' ∧
      (rest = rest' ++ [.endNode] ∨ rest = [] ∧ rest' = []) := by
  induction body generalizing ts with
  | done node => simp at append
  | endNode node us =>
    cases ts with
    | nil =>
      obtain rfl : us = [] := by simpa using append
      exact ⟨[], .done node, .inr ⟨rfl, rfl⟩⟩
    | cons t ts =>
      obtain ⟨rfl, rfl⟩ := List.cons.inj append
      exact ⟨ts, .endNode node ts, .inl rfl⟩
  | prop tail ih =>
    cases ts with
    | nil => simp at append
    | cons t ts =>
      obtain ⟨rfl, same⟩ := List.cons.inj append
      obtain ⟨rest', body, left⟩ := ih same
      exact ⟨rest', .prop body, left⟩
  | child inner tail ihInner ihTail =>
    cases ts with
    | nil => simp at append
    | cons t ts =>
      obtain ⟨rfl, same⟩ := List.cons.inj append
      obtain ⟨ts', innerBody, left⟩ := ihInner same
      rcases left with same' | ⟨rfl, rfl⟩
      · obtain ⟨rest', body, left⟩ := ihTail same'
        exact ⟨rest', .child innerBody body, left⟩
      · cases tail with
        | done => exact ⟨[], .child innerBody (.done _), .inr ⟨rfl, rfl⟩⟩

theorem Body.dropEnds {ts rest : List Token} {node node' : FDTNode} {k : Nat}
    (body : Body (ts ++ List.replicate k .endNode) node node' rest) :
    ∃ rest', Body ts node node' rest' := by
  induction k generalizing rest with
  | zero => exact ⟨rest, by simpa using body⟩
  | succ k ih =>
    rw [List.replicate_succ', ← List.append_assoc] at body
    obtain ⟨rest', shorter, -⟩ := body.dropLast rfl
    exact ih shorter

/-! ## What a tree carries -/

/-- Whether the token shows in the tree whatever is around it. -/
def Token.Carries : Token → Prop
  | .beginNode name => name ≠ []
  | .prop _ => True
  | .endNode => False

/-- The names and properties a token carries. -/
def Token.items : Token → Nat
  | .beginNode name => if name = [] then 0 else 1
  | .prop _ => 1
  | .endNode => 0

def items (ts : List Token) : Nat := (ts.map Token.items).sum

@[simp] theorem items_nil : items [] = 0 := rfl

@[simp] theorem items_cons (t : Token) (ts : List Token) :
    items (t :: ts) = t.items + items ts := by
  simp [items]

@[simp] theorem items_append (ts us : List Token) : items (ts ++ us) = items ts + items us := by
  simp [items]

theorem Token.items_le {t : Token} {ts : List Token} (mem : t ∈ ts) :
    t.items ≤ Firmware.items ts := by
  induction ts with
  | nil => exact absurd mem List.not_mem_nil
  | cons first ts ih =>
    rw [items_cons]
    rcases List.mem_cons.1 mem with rfl | mem
    · omega
    · have := ih mem
      omega

theorem items_properties (properties : List FDTProperty) :
    items (properties.map .prop) = properties.length := by
  induction properties with
  | nil => rfl
  | cons property properties ih =>
    simp only [List.map_cons, items_cons, Token.items, ih, List.length_cons]
    omega

theorem Token.items_eq_zero {t : Token} : t.items = 0 ↔ ¬t.Carries := by
  cases t with
  | beginNode name => by_cases unnamed : name = [] <;> simp [Token.items, Token.Carries, unnamed]
  | prop property => simp [Token.items, Token.Carries]
  | endNode => simp [Token.items, Token.Carries]

theorem childTokens_append (children more : List FDTNode) :
    childTokens (children ++ more) = childTokens children ++ childTokens more := by
  induction children with
  | nil => simp [childTokens]
  | cons first children ih => simp [childTokens, ih]

theorem items_addProperty (node : FDTNode) (property : FDTProperty) :
    items (node.addProperty property).tokens = items node.tokens + 1 := by
  obtain ⟨name, properties, children⟩ := node
  simp only [FDTNode.addProperty, FDTNode.tokens, items_cons, items_append, items_properties,
    List.length_append, List.length_singleton]
  omega

theorem items_addChild (node child : FDTNode) :
    items (node.addChild child).tokens = items node.tokens + items child.tokens := by
  obtain ⟨name, properties, children⟩ := node
  simp only [FDTNode.addChild, FDTNode.tokens, items_cons, items_append, items_properties,
    childTokens_append, childTokens, List.append_nil]
  omega

/-- Nothing is lost between the tokens and the node, and nothing is made up. -/
theorem Body.items {ts rest : List Token} {node node' : FDTNode} (body : Body ts node node' rest) :
    items node'.tokens + items rest = items node.tokens + items ts := by
  induction body with
  | done node => rfl
  | endNode node ts => simp [Token.items]
  | prop tail ih =>
    rw [ih, items_addProperty, items_cons, Token.items]
    omega
  | child inner tail ihInner ihTail =>
    rw [items_addChild] at ihTail
    simp only [FDTNode.tokens, List.map_nil, childTokens, items_cons, items_append, items_nil,
      Token.items] at ihInner ⊢
    omega

/-! ## The loop -/

/-- The parser goes on at this address. -/
def InBlock (header : FDTHeader) (a : Nat) : Prop :=
  offsetFrom header.address a < header.sizeDtStruct.toNat

theorem inBlock_iff {header : FDTHeader} {a : Nat} (behind : header.address ≤ a) :
    InBlock header a ↔ a - header.address < header.sizeDtStruct.toNat := by
  rw [InBlock, offsetFrom, if_pos behind]

theorem InBlock.of_le {header : FDTHeader} {a b : Nat} (inside : InBlock header b)
    (behind : header.address ≤ a) (le : a ≤ b) : InBlock header a := by
  rw [inBlock_iff (by omega)] at *
  omega

attribute [local simp] parseLoop

theorem parseLoop_mono {m : Memory} {header : FDTHeader} {fuel fuel' : Nat} {state : ParserState}
    {node : FDTNode} {offset cur : Nat} {r : Option FDTNode × Nat}
    (h : parseLoop m header fuel state node offset cur = some r) (le : fuel ≤ fuel') :
    parseLoop m header fuel' state node offset cur = some r := by
  induction fuel generalizing fuel' state node offset cur r with
  | zero => simp [parseLoop] at h
  | succ fuel ih =>
    obtain ⟨k, rfl⟩ : ∃ k, fuel' = k + 1 := ⟨fuel' - 1, by omega⟩
    have le : fuel ≤ k := by omega
    simp only [parseLoop] at h ⊢
    split at h
    case isFalse outside => rwa [if_neg outside]
    case isTrue inside =>
      rw [if_pos inside]
      cases state with
      | none =>
        simp only at h ⊢
        split at h
        · rw [if_pos ‹_›]
          exact ih h le
        · rwa [if_neg ‹_›]
      | beginNode =>
        simp only [bind, Option.bind_eq_some_iff] at h ⊢
        obtain ⟨name, read, h⟩ := h
        exact ⟨name, cString_mono read le, ih h le⟩
      | nodeName =>
        simp only [bind] at h ⊢
        split at h
        · rw [if_pos ‹_›]
          exact ih h le
        rw [if_neg ‹_›]
        split at h
        · rw [if_pos ‹_›]
          exact ih h le
        rw [if_neg ‹_›]
        split at h
        · rw [if_pos ‹_›]
          rw [Option.bind_eq_some_iff] at h ⊢
          obtain ⟨child, inner, h⟩ := h
          exact ⟨child, ih inner le, ih h le⟩
        rw [if_neg ‹_›]
        split at h
        · rw [if_pos ‹_›]
          exact ih h le
        rw [if_neg ‹_›]
        split at h
        · rw [if_pos ‹_›]
          exact ih h le
        · rwa [if_neg ‹_›]
      | prop =>
        simp only [bind, Option.bind_eq_some_iff] at h ⊢
        obtain ⟨name, read, h⟩ := h
        exact ⟨name, cString_mono read le, ih h le⟩
      | endNode => exact h
      | ending => exact ih h le

/-- The loop ends with `r`. -/
def Parses (m : Memory) (header : FDTHeader) (state : ParserState) (node : FDTNode)
    (offset cur : Nat) (r : Option FDTNode × Nat) : Prop :=
  ∃ fuel, parseLoop m header fuel state node offset cur = some r

theorem Parses.unique {m : Memory} {header : FDTHeader} {state : ParserState} {node : FDTNode}
    {offset cur : Nat} {r r' : Option FDTNode × Nat} (h : Parses m header state node offset cur r)
    (h' : Parses m header state node offset cur r') : r = r' := by
  obtain ⟨fuel, run⟩ := h
  obtain ⟨fuel', run'⟩ := h'
  have left := parseLoop_mono run (Nat.le_max_left fuel fuel')
  have right := parseLoop_mono run' (Nat.le_max_right fuel fuel')
  exact Option.some.inj (left.symm.trans right)

section Rules

variable {m : Memory} {header : FDTHeader} {state : ParserState} {node : FDTNode}
  {offset cur : Nat} {r : Option FDTNode × Nat}

theorem Parses.past (outside : ¬InBlock header cur) :
    Parses m header state node offset cur (some node, cur) :=
  ⟨1, by rw [parseLoop, if_neg (show ¬_ < _ from outside)]⟩

theorem Parses.skip (inside : InBlock header cur) (type : word m cur = 0 ∨ word m cur = FDT_NOP)
    (tail : Parses m header .nodeName node offset (cur + 4) r) :
    Parses m header .nodeName node offset cur r := by
  obtain ⟨fuel, run⟩ := tail
  refine ⟨fuel + 1, ?_⟩
  simpa only [parseLoop, if_pos (show _ < _ from inside), if_pos type] using run

theorem Parses.name {name : Bytes} (inside : InBlock header cur) (nameAt : CStringAt m cur name)
    (tail : Parses m header .nodeName (node.setName name) offset
      (alignTo 4 (cur + name.length)) r) :
    Parses m header .beginNode node offset cur r := by
  obtain ⟨fuel, run⟩ := tail
  refine ⟨fuel + name.length + 1 + 1, ?_⟩
  have run := parseLoop_mono run (show fuel ≤ fuel + name.length + 1 by omega)
  simp only [parseLoop, if_pos (show _ < _ from inside), bind, Option.bind_eq_some_iff]
  exact ⟨name, cString_mono nameAt.cString (by omega), run⟩

theorem Parses.begin (inside : InBlock header cur) (type : word m cur = FDT_BEGIN_NODE)
    (tail : Parses m header .beginNode node offset (cur + 4) r) :
    Parses m header .none node offset cur r := by
  obtain ⟨fuel, run⟩ := tail
  refine ⟨fuel + 1, ?_⟩
  simpa only [parseLoop, if_pos (show _ < _ from inside), if_pos type] using run

theorem Parses.noNode (inside : InBlock header cur) (type : word m cur ≠ FDT_BEGIN_NODE) :
    Parses m header .none node offset cur (none, offset) :=
  ⟨1, by simp only [parseLoop, if_pos (show _ < _ from inside), if_neg type]⟩

theorem Parses.prop (inside : InBlock header cur) (type : word m cur = FDT_PROP)
    (tail : Parses m header .prop node offset (cur + 4) r) :
    Parses m header .nodeName node offset cur r := by
  obtain ⟨fuel, run⟩ := tail
  refine ⟨fuel + 1, ?_⟩
  simpa [parseLoop, show _ < _ from inside, type, FDT_PROP, FDT_NOP] using run

theorem Parses.property {property : FDTProperty} (inside : InBlock header cur)
    (len : (word m cur).toNat = property.value.length)
    (nameAt : CStringAt m (header.address + header.offDtStrings.toNat + (word m (cur + 4)).toNat)
      property.name)
    (valueAt : BytesAt m (cur + 8) property.value)
    (tail : Parses m header .nodeName (node.addProperty property) offset
      (alignTo 4 (cur + 8 + property.value.length)) r) :
    Parses m header .prop node offset cur r := by
  obtain ⟨fuel, run⟩ := tail
  refine ⟨fuel + property.name.length + 1 + 1, ?_⟩
  have run := parseLoop_mono run (show fuel ≤ fuel + property.name.length + 1 by omega)
  simp only [parseLoop, if_pos (show _ < _ from inside), bind, Option.bind_eq_some_iff, len,
    valueAt.stringOfLength]
  exact ⟨property.name, cString_mono nameAt.cString (by omega), run⟩

/-- A call of `parse_node`. A null pointer adds no child. -/
theorem Parses.child {childNode : Option FDTNode} {stop : Nat} (inside : InBlock header cur)
    (type : word m cur = FDT_BEGIN_NODE)
    (inner : Parses m header .none .empty cur cur (childNode, stop))
    (tail : Parses m header .nodeName (childNode.elim node node.addChild) offset (stop + 4) r) :
    Parses m header .nodeName node offset cur r := by
  obtain ⟨fuel, run⟩ := inner
  obtain ⟨fuel', run'⟩ := tail
  refine ⟨max fuel fuel' + 1, ?_⟩
  have run := parseLoop_mono run (Nat.le_max_left fuel fuel')
  have run' := parseLoop_mono run' (Nat.le_max_right fuel fuel')
  cases childNode <;>
    simpa [parseLoop, show _ < _ from inside, type, FDT_PROP, FDT_NOP, FDT_BEGIN_NODE, run]
      using run'

theorem Parses.endNode (inside : InBlock header cur) (type : word m cur = FDT_END_NODE) :
    Parses m header .nodeName node offset cur (some node, cur) := by
  refine ⟨2, ?_⟩
  simp [parseLoop, show _ < _ from inside, type, FDT_PROP, FDT_NOP, FDT_BEGIN_NODE,
    FDT_END_NODE]

theorem Parses.ending_aux {n : Nat} (behind : header.address ≤ cur)
    (near : header.sizeDtStruct.toNat ≤ cur + 4 * n - header.address) :
    ∃ stop, cur ≤ stop ∧ ¬InBlock header stop ∧
      Parses m header .ending node offset cur (some node, stop) := by
  induction n generalizing cur with
  | zero =>
    have outside : ¬InBlock header cur := by
      rw [inBlock_iff behind]
      omega
    exact ⟨cur, Nat.le_refl _, outside, .past outside⟩
  | succ n ih =>
    by_cases inside : InBlock header cur
    · obtain ⟨stop, le, outside, fuel, run⟩ := @ih (cur + 4) (by omega) (by omega)
      refine ⟨stop, by omega, outside, fuel + 1, ?_⟩
      simpa only [parseLoop, if_pos (show _ < _ from inside)]
    · exact ⟨cur, Nat.le_refl _, inside, .past inside⟩

/-- After `FDT_END` the loop runs to the end of what it takes for the block. -/
theorem Parses.ending (behind : header.address ≤ cur) (inside : InBlock header cur)
    (type : word m cur = FDT_END) :
    ∃ stop, cur ≤ stop ∧ ¬InBlock header stop ∧
      Parses m header .nodeName node offset cur (some node, stop) := by
  obtain ⟨stop, le, outside, fuel, run⟩ : ∃ stop, cur + 4 ≤ stop ∧ ¬InBlock header stop ∧
      Parses m header .ending node offset (cur + 4) (some node, stop) :=
    @ending_aux _ _ _ _ _ (header.address + header.sizeDtStruct.toNat) (by omega) (by omega)
  refine ⟨stop, by omega, outside, fuel + 1, ?_⟩
  simpa [parseLoop, show _ < _ from inside, type, FDT_PROP, FDT_NOP, FDT_BEGIN_NODE,
    FDT_END_NODE, FDT_END] using run

end Rules

/-! ## Following the tokens -/

section Reading

variable {m : Memory} {header : FDTHeader}

/-- The tokens the parser finds from an address on, up to where it stops. -/
inductive Reads (m : Memory) (header : FDTHeader) : List Token → Nat → Prop
  | past {a} (behind : header.address ≤ a) (outside : ¬InBlock header a) : Reads m header [] a
  | skip {ts a} (inside : InBlock header a) (type : word m a = 0 ∨ word m a = FDT_NOP)
      (rest : Reads m header ts (a + 4)) : Reads m header ts a
  | beginNode {ts a name} (inside : InBlock header a) (type : word m a = FDT_BEGIN_NODE)
      (nameInside : InBlock header (a + 4)) (nameAt : CStringAt m (a + 4) name)
      (rest : Reads m header ts (alignTo 4 (a + 4 + name.length))) :
      Reads m header (.beginNode name :: ts) a
  | beginOnly {a} (behind : header.address ≤ a) (inside : InBlock header a)
      (type : word m a = FDT_BEGIN_NODE) (nameOutside : ¬InBlock header (a + 4)) :
      Reads m header [.beginNode []] a
  | prop {ts a property} (inside : InBlock header a) (type : word m a = FDT_PROP)
      (lenInside : InBlock header (a + 4))
      (len : (word m (a + 4)).toNat = property.value.length)
      (nameAt : CStringAt m
        (header.address + header.offDtStrings.toNat + (word m (a + 8)).toNat) property.name)
      (valueAt : BytesAt m (a + 12) property.value)
      (rest : Reads m header ts (alignTo 4 (a + 12 + property.value.length))) :
      Reads m header (.prop property :: ts) a
  | propOnly {a} (behind : header.address ≤ a) (inside : InBlock header a)
      (type : word m a = FDT_PROP) (lenOutside : ¬InBlock header (a + 4)) : Reads m header [] a
  | endNode {ts a} (inside : InBlock header a) (type : word m a = FDT_END_NODE)
      (rest : Reads m header ts (a + 4)) : Reads m header (.endNode :: ts) a
  | ending {a} (behind : header.address ≤ a) (inside : InBlock header a)
      (type : word m a = FDT_END) : Reads m header [] a

/-- Nothing is read further on either. -/
theorem Reads.past_of_le {a b : Nat} (behind : header.address ≤ a) (outside : ¬InBlock header a)
    (le : a ≤ b) : Reads m header [] b :=
  .past (by omega) fun inside => outside (inside.of_le behind le)

/-- Zero words and `FDT_NOP`s before a token make no difference. -/
theorem Reads.atToken {ts : List Token} {a : Nat} (reads : Reads m header ts a) :
    ∃ b, Reads m header ts b ∧ ¬(InBlock header b ∧ (word m b = 0 ∨ word m b = FDT_NOP)) ∧
      ∀ node offset r, Parses m header .nodeName node offset b r →
        Parses m header .nodeName node offset a r := by
  have here {ts : List Token} {a : Nat} (reads : Reads m header ts a)
      (token : ¬(InBlock header a ∧ (word m a = 0 ∨ word m a = FDT_NOP))) :
      ∃ b, Reads m header ts b ∧ ¬(InBlock header b ∧ (word m b = 0 ∨ word m b = FDT_NOP)) ∧
        ∀ node offset r, Parses m header .nodeName node offset b r →
          Parses m header .nodeName node offset a r :=
    ⟨a, reads, token, fun _ _ _ parses => parses⟩
  induction reads with
  | past behind outside => exact here (.past behind outside) fun skipped => outside skipped.1
  | skip inside type rest ih =>
    obtain ⟨b, reads, token, same⟩ := ih
    refine ⟨b, reads, token, ?_⟩
    exact fun node offset r parses => .skip inside type (same node offset r parses)
  | beginNode inside type nameInside nameAt rest =>
    exact here (.beginNode inside type nameInside nameAt rest)
      (by simp [type, FDT_BEGIN_NODE, FDT_NOP])
  | beginOnly behind inside type nameOutside =>
    exact here (.beginOnly behind inside type nameOutside) (by simp [type, FDT_BEGIN_NODE, FDT_NOP])
  | prop inside type lenInside len nameAt valueAt rest =>
    exact here (.prop inside type lenInside len nameAt valueAt rest)
      (by simp [type, FDT_PROP, FDT_NOP])
  | propOnly behind inside type lenOutside =>
    exact here (.propOnly behind inside type lenOutside) (by simp [type, FDT_PROP, FDT_NOP])
  | endNode inside type rest =>
    exact here (.endNode inside type rest) (by simp [type, FDT_END_NODE, FDT_NOP])
  | ending behind inside type =>
    exact here (.ending behind inside type) (by simp [type, FDT_END, FDT_NOP])

/-- `parse_node` at a node: its name, then the loop over its body, or nothing where the block is
taken to end before the name. -/
theorem Reads.parseNode {name : Bytes} {ts rest : List Token} {node : FDTNode} {a : Nat}
    (reads : Reads m header (.beginNode name :: ts) a)
    (token : ¬(InBlock header a ∧ (word m a = 0 ∨ word m a = FDT_NOP)))
    (body : Body ts ⟨name, [], []⟩ node rest)
    (loop : ∀ b, Reads m header ts b → ∃ stop,
      Parses m header .nodeName ⟨name, [], []⟩ a b (some node, stop) ∧
        Reads m header rest (stop + 4)) :
    InBlock header a ∧ word m a = FDT_BEGIN_NODE ∧ ∃ stop,
      Parses m header .none .empty a a (some node, stop) ∧ Reads m header rest (stop + 4) := by
  cases reads with
  | skip inside type _ => exact absurd ⟨inside, type⟩ token
  | beginNode inside type nameInside nameAt tail =>
    obtain ⟨stop, parses, after⟩ := loop _ tail
    exact ⟨inside, type, stop, .begin inside type (.name nameInside nameAt parses), after⟩
  | beginOnly behind inside type nameOutside =>
    cases body with
    | done =>
      refine ⟨inside, type, a + 4, .begin inside type (.past nameOutside), ?_⟩
      exact .past_of_le (by omega) nameOutside (by omega)

/-- **The loop follows the tokens.** It gives the node they describe, and leaves the rest. -/
theorem Reads.parses {ts rest : List Token} {node node' : FDTNode} {a offset : Nat}
    (reads : Reads m header ts a) (body : Body ts node node' rest) :
    ∃ stop, Parses m header .nodeName node offset a (some node', stop) ∧
      Reads m header rest (stop + 4) := by
  induction body generalizing a offset with
  | done node =>
    obtain ⟨b, reads, token, same⟩ := reads.atToken
    cases reads with
    | past behind outside =>
      exact ⟨b, same _ _ _ (.past outside), .past_of_le behind outside (by omega)⟩
    | skip inside type _ => exact absurd ⟨inside, type⟩ token
    | propOnly behind inside type lenOutside =>
      refine ⟨b + 4, same _ _ _ (.prop inside type (.past lenOutside)), ?_⟩
      exact .past_of_le (by omega) lenOutside (by omega)
    | ending behind inside type =>
      obtain ⟨stop, le, outside, parses⟩ := Parses.ending behind inside type
      exact ⟨stop, same _ _ _ parses, .past_of_le (by omega) outside (by omega)⟩
  | endNode node ts =>
    obtain ⟨b, reads, token, same⟩ := reads.atToken
    cases reads with
    | skip inside type _ => exact absurd ⟨inside, type⟩ token
    | endNode inside type rest => exact ⟨b, same _ _ _ (.endNode inside type), rest⟩
  | prop tail ih =>
    obtain ⟨b, reads, token, same⟩ := reads.atToken
    cases reads with
    | skip inside type _ => exact absurd ⟨inside, type⟩ token
    | prop inside type lenInside len nameAt valueAt rest =>
      obtain ⟨stop, parses, after⟩ := ih rest
      refine ⟨stop, same _ _ _ (.prop inside type ?_), after⟩
      exact .property lenInside len nameAt valueAt parses
  | child inner tail ihInner ihTail =>
    obtain ⟨b, reads, token, same⟩ := reads.atToken
    obtain ⟨inside, type, stop, parsesChild, after⟩ :=
      reads.parseNode token inner fun _ reads => ihInner reads
    obtain ⟨stop', parses, after'⟩ := ihTail after
    exact ⟨stop', same _ _ _ (.child inside type parsesChild parses), after'⟩

end Reading

/-! ## What the parser reads of a structure block -/

section Block

variable {m : Memory} {header : FDTHeader} {strings : Nat} {located : List (Nat × Token)}
  {a stop : Nat}

instance : Decidable (InBlock header a) := inferInstanceAs (Decidable (_ < _))

/-- The tokens up to where the parser stops, of which the last may be a node without its name. -/
def cut (header : FDTHeader) : List (Nat × Token) → List Token
  | [] => []
  | (a, t) :: located =>
    if InBlock header a then
      match t with
      | .beginNode name =>
        if InBlock header (a + 4) then .beginNode name :: cut header located else [.beginNode []]
      | .prop property =>
        if InBlock header (a + 4) then .prop property :: cut header located else []
      | .endNode => .endNode :: cut header located
    else []

theorem le_nextWord (n : Nat) : n ≤ nextWord n := by
  unfold nextWord
  omega

theorem StructureBlock.lt_stop (block : StructureBlock m strings located a stop) :
    a + 4 ≤ stop := by
  induction block with
  | nop type rest ih => omega
  | @beginNode located a stop name type nameAt padding rest ih =>
    have := le_nextWord (a + 4 + name.length + 1)
    omega
  | @prop located a stop property type len nameAt valueAt rest ih =>
    have := le_nextWord (a + 12 + property.value.length)
    omega
  | endNode type rest ih => omega
  | ending type => exact Nat.le_refl _

theorem StructureBlock.le_of_mem (block : StructureBlock m strings located a stop) :
    ∀ b t, (b, t) ∈ located → a ≤ b := by
  induction block with
  | nop type rest ih =>
    intro b t mem
    have := ih b t mem
    omega
  | @beginNode located a stop name type nameAt padding rest ih =>
    intro b t mem
    have := le_nextWord (a + 4 + name.length + 1)
    rcases List.mem_cons.1 mem with head | mem
    · exact Nat.le_of_eq (Prod.mk.inj head).1.symm
    · have := ih b t mem
      omega
  | @prop located a stop property type len nameAt valueAt rest ih =>
    intro b t mem
    have := le_nextWord (a + 12 + property.value.length)
    rcases List.mem_cons.1 mem with head | mem
    · exact Nat.le_of_eq (Prod.mk.inj head).1.symm
    · have := ih b t mem
      omega
  | endNode type rest ih =>
    intro b t mem
    rcases List.mem_cons.1 mem with head | mem
    · exact Nat.le_of_eq (Prod.mk.inj head).1.symm
    · have := ih b t mem
      omega
  | ending type =>
    intro b t mem
    exact absurd mem List.not_mem_nil

/-- Where the parser goes on after the token at an address, if nothing is cut off. -/
def Token.paddedEnd (a : Nat) : Token → Nat
  | .beginNode name => nextWord (a + 4 + name.length)
  | .prop property => nextWord (a + 12 + property.value.length)
  | .endNode => a + 4

/-- After every token there is still the word of `FDT_END`. -/
theorem StructureBlock.paddedEnd_lt (block : StructureBlock m strings located a stop) :
    ∀ b t, (b, t) ∈ located → t.paddedEnd b < stop := by
  have here {b : Nat} {t : Token} {next stop : Nat} {located : List (Nat × Token)}
      (le : t.paddedEnd b ≤ next) (after : next + 4 ≤ stop)
      (rest : ∀ c u, (c, u) ∈ located → u.paddedEnd c < stop) :
      ∀ c u, (c, u) ∈ (b, t) :: located → u.paddedEnd c < stop := by
    intro c u mem
    rcases List.mem_cons.1 mem with head | mem
    · obtain ⟨rfl, rfl⟩ := Prod.mk.inj head
      omega
    · exact rest c u mem
  induction block with
  | nop type rest ih => exact ih
  | beginNode type nameAt padding rest ih =>
    refine here (show nextWord _ ≤ nextWord _ from ?_) rest.lt_stop ih
    unfold nextWord
    omega
  | prop type len nameAt valueAt rest ih => exact here (Nat.le_refl _) rest.lt_stop ih
  | endNode type rest ih => exact here (Nat.le_refl _) rest.lt_stop ih
  | ending type =>
    intro b t mem
    exact absurd mem List.not_mem_nil

theorem StructureBlock.cut_outside (block : StructureBlock m strings located a stop)
    (behind : header.address ≤ a) (outside : ¬InBlock header a) : cut header located = [] := by
  cases located with
  | nil => rfl
  | cons first located =>
    have le := block.le_of_mem first.1 first.2 List.mem_cons_self
    exact if_neg fun inside => outside (inside.of_le behind le)

theorem StructureBlock.reads_outside (block : StructureBlock m strings located a stop)
    (behind : header.address ≤ a) (outside : ¬InBlock header a) :
    Reads m header (cut header located) a := by
  rw [block.cut_outside behind outside]
  exact .past behind outside

/-- **The parser reads the tokens of the block** up to where it stops. -/
theorem StructureBlock.reads (block : StructureBlock m strings located a stop)
    (sameStrings : strings = header.address + header.offDtStrings.toNat)
    (behind : header.address ≤ a)
    (kept : ∀ b t, (b, t) ∈ located → t ≠ .endNode → InBlock header (b + 4) →
      t.paddedEnd b < 2 ^ 32) :
    Reads m header (cut header located) a := by
  induction block with
  | @nop located a stop type rest ih =>
    by_cases inside : InBlock header a
    case neg => exact (StructureBlock.nop type rest).reads_outside behind inside
    exact .skip inside (.inr type) (ih (by omega) kept)
  | @beginNode located a stop name type nameAt padding rest ih =>
    by_cases inside : InBlock header a
    case neg =>
      exact (StructureBlock.beginNode type nameAt padding rest).reads_outside behind inside
    simp only [cut, if_pos inside]
    by_cases nameInside : InBlock header (a + 4)
    case neg =>
      rw [if_neg nameInside]
      exact .beginOnly behind inside type nameInside
    rw [if_pos nameInside]
    have le := le_nextWord (a + 4 + name.length + 1)
    have after := ih (by omega) fun b t mem => kept b t (List.mem_cons_of_mem _ mem)
    apply Reads.beginNode inside type nameInside nameAt
    rw [alignTo_eq_nextWord (kept a _ List.mem_cons_self (by simp) nameInside)]
    -- The NUL takes a word of its own after a name of whole words.
    by_cases whole : (a + 4 + name.length) % 4 = 0
    case neg =>
      have same : nextWord (a + 4 + name.length) = nextWord (a + 4 + name.length + 1) := by
        unfold nextWord
        omega
      rwa [same]
    case pos =>
      have start : nextWord (a + 4 + name.length) = a + 4 + name.length := by
        unfold nextWord
        omega
      have next : nextWord (a + 4 + name.length + 1) = a + 4 + name.length + 4 := by
        unfold nextWord
        omega
      rw [next] at padding after rest
      rw [start]
      by_cases nulInside : InBlock header (a + 4 + name.length)
      · exact .skip nulInside (.inl (word_zero padding)) after
      · have outside : ¬InBlock header (a + 4 + name.length + 4) :=
          fun inside => nulInside (inside.of_le (by omega) (by omega))
        rw [rest.cut_outside (by omega) outside]
        exact .past (by omega) nulInside
  | @prop located a stop property type len nameAt valueAt rest ih =>
    by_cases inside : InBlock header a
    case neg =>
      exact (StructureBlock.prop type len nameAt valueAt rest).reads_outside behind inside
    simp only [cut, if_pos inside]
    by_cases lenInside : InBlock header (a + 4)
    case neg =>
      rw [if_neg lenInside]
      exact .propOnly behind inside type lenInside
    rw [if_pos lenInside]
    have le := le_nextWord (a + 12 + property.value.length)
    apply Reads.prop inside type lenInside len (by rwa [← sameStrings]) valueAt
    rw [alignTo_eq_nextWord (kept a _ List.mem_cons_self (by simp) lenInside)]
    exact ih (by omega) fun b t mem => kept b t (List.mem_cons_of_mem _ mem)
  | @endNode located a stop type rest ih =>
    by_cases inside : InBlock header a
    case neg => exact (StructureBlock.endNode type rest).reads_outside behind inside
    simp only [cut, if_pos inside]
    exact .endNode inside type (ih (by omega) fun b t mem => kept b t (List.mem_cons_of_mem _ mem))
  | @ending a type =>
    by_cases inside : InBlock header a
    · exact .ending behind inside type
    · exact .past behind inside

/-- The parser stops after every token that shows in the tree. -/
def Visible (header : FDTHeader) (located : List (Nat × Token)) : Prop :=
  ∀ a t, (a, t) ∈ located → t.Carries → InBlock header (a + 4)

theorem Visible.tail {first : Nat × Token} (visible : Visible header (first :: located)) :
    Visible header located :=
  fun a t mem => visible a t (List.mem_cons_of_mem _ mem)

/-- If nothing is lost, everything was read. -/
theorem Visible.of_items (kept : items (located.map (·.2)) ≤ items (cut header located)) :
    Visible header located := by
  induction located with
  | nil =>
    intro a t mem
    exact absurd mem List.not_mem_nil
  | cons first located ih =>
    have none (zero : items (List.map (·.2) (first :: located)) = 0) :
        Visible header (first :: located) := by
      intro a t mem carries
      have le : t.items ≤ items (List.map (·.2) (first :: located)) :=
        Token.items_le (List.mem_map_of_mem mem)
      exact absurd carries (Token.items_eq_zero.1 (by omega))
    have cons (here : first.2.Carries → InBlock header (first.1 + 4))
        (rest : items (located.map (·.2)) ≤ items (cut header located)) :
        Visible header (first :: located) := by
      intro a t mem carries
      rcases List.mem_cons.1 mem with rfl | mem
      · exact here carries
      · exact ih rest a t mem carries
    obtain ⟨a, t⟩ := first
    by_cases inside : InBlock header a
    case neg =>
      simp only [cut, if_neg inside, items_nil] at kept
      exact none (by omega)
    simp only [cut, if_pos inside] at kept
    cases t with
    | endNode =>
      refine cons (fun carries => carries.elim) ?_
      simpa using kept
    | prop property =>
      by_cases next : InBlock header (a + 4)
      · refine cons (fun _ => next) ?_
        simpa [next] using kept
      · simp only [if_neg next, items_nil] at kept
        exact none (by omega)
    | beginNode name =>
      by_cases next : InBlock header (a + 4)
      · refine cons (fun _ => next) ?_
        simpa [next] using kept
      · simp only [if_neg next, items_cons, items_nil, Token.items, if_pos] at kept
        exact none (by omega)

/-- Past where the parser stops, a visible block has only ends of nodes. -/
theorem Visible.outside (visible : Visible header located)
    (named : ∀ b name, (b, .beginNode name) ∈ located → name ≠ [])
    (outside : ∀ b t, (b, t) ∈ located → ¬InBlock header (b + 4)) :
    located.map (·.2) = List.replicate located.length .endNode := by
  rw [List.eq_replicate_iff]
  refine ⟨List.length_map _, ?_⟩
  intro t mem
  obtain ⟨⟨b, t⟩, member, rfl⟩ := List.mem_map.1 mem
  cases t with
  | endNode => rfl
  | prop property => exact absurd (visible b _ member trivial) (outside b _ member)
  | beginNode name => exact absurd (visible b _ member (named b name member)) (outside b _ member)

theorem Visible.cut_outside (visible : Visible header located)
    (block : StructureBlock m strings located a stop)
    (named : ∀ b name, (b, .beginNode name) ∈ located → name ≠ [])
    (behind : header.address ≤ a) (outside : ¬InBlock header a) :
    ∃ k, located.map (·.2) = cut header located ++ List.replicate k .endNode := by
  refine ⟨located.length, ?_⟩
  rw [block.cut_outside behind outside, List.nil_append]
  apply visible.outside named
  intro b t mem next
  have le := block.le_of_mem b t mem
  exact outside (next.of_le behind (by omega))

/-- What the parser leaves of a visible block are ends of nodes. -/
theorem Visible.cut_append (visible : Visible header located)
    (block : StructureBlock m strings located a stop)
    (named : ∀ b name, (b, .beginNode name) ∈ located → name ≠ [])
    (behind : header.address ≤ a) :
    ∃ k, located.map (·.2) = cut header located ++ List.replicate k .endNode := by
  have below {first : Nat × Token} {located : List (Nat × Token)}
      (named : ∀ b name, (b, .beginNode name) ∈ first :: located → name ≠ []) :
      ∀ b name, (b, .beginNode name) ∈ located → name ≠ [] :=
    fun b name mem => named b name (List.mem_cons_of_mem _ mem)
  induction block with
  | @nop located a stop type rest ih => exact ih visible named (by omega)
  | @beginNode located a stop name type nameAt padding rest ih =>
    have le := le_nextWord (a + 4 + name.length + 1)
    have nameInside : InBlock header (a + 4) :=
      visible a _ List.mem_cons_self (named a name List.mem_cons_self)
    have inside : InBlock header a := nameInside.of_le behind (by omega)
    simp only [cut, if_pos inside, if_pos nameInside, List.map_cons, List.cons_append,
      List.cons.injEq, true_and]
    exact ih visible.tail (below named) (by omega)
  | @prop located a stop property type len nameAt valueAt rest ih =>
    have le := le_nextWord (a + 12 + property.value.length)
    have lenInside : InBlock header (a + 4) := visible a _ List.mem_cons_self trivial
    have inside : InBlock header a := lenInside.of_le behind (by omega)
    simp only [cut, if_pos inside, if_pos lenInside, List.map_cons, List.cons_append,
      List.cons.injEq, true_and]
    exact ih visible.tail (below named) (by omega)
  | @endNode located a stop type rest ih =>
    by_cases inside : InBlock header a
    case neg =>
      exact visible.cut_outside (StructureBlock.endNode type rest) named behind inside
    simp only [cut, if_pos inside, List.map_cons, List.cons_append, List.cons.injEq, true_and]
    exact ih visible.tail (below named) (by omega)
  | ending type => exact ⟨0, rfl⟩

end Block

/-! ## The tree -/

section Tree

mutual

theorem FDTNode.Named.tokens : ∀ {tree : FDTNode}, tree.Named → ∀ {name : Bytes},
    .beginNode name ∈ tree.tokens → name = tree.name ∨ name ≠ []
  | ⟨treeName, properties, children⟩, named, name, mem => by
    simp only [FDTNode.tokens, List.mem_cons, List.mem_append, Token.beginNode.injEq, List.mem_map,
      reduceCtorEq, and_false, exists_false, List.not_mem_nil, or_false, false_or] at mem
    rcases mem with rfl | mem
    · exact .inl rfl
    · exact .inr (AllNamed.tokens named mem)

theorem AllNamed.tokens : ∀ {children : List FDTNode}, AllNamed children → ∀ {name : Bytes},
    .beginNode name ∈ childTokens children → name ≠ []
  | [], _, name, mem => absurd mem List.not_mem_nil
  | first :: children, ⟨firstNamed, below, named⟩, name, mem => by
    rcases List.mem_append.1 mem with mem | mem
    · rcases FDTNode.Named.tokens below mem with rfl | named
      · exact firstNamed
      · exact named
    · exact AllNamed.tokens named mem

end

/-- A tree that shows nothing is the empty one. -/
theorem FDTNode.Named.eq_empty {tree : FDTNode} (named : tree.Named)
    (nothing : ∀ t ∈ tree.tokens, ¬t.Carries) : tree = .empty := by
  obtain ⟨name, properties, children⟩ := tree
  have unnamed : name = [] := by
    by_contra carries
    exact nothing (.beginNode name) List.mem_cons_self carries
  have noProperties : properties = [] := by
    cases properties with
    | nil => rfl
    | cons property properties =>
      exact absurd trivial (nothing (.prop property) (by simp [FDTNode.tokens]))
  have noChildren : children = [] := by
    cases children with
    | nil => rfl
    | cons first children =>
      obtain ⟨firstName, firstProperties, firstChildren⟩ := first
      refine absurd (named.1 : firstName ≠ []) (nothing (.beginNode firstName) ?_)
      simp [FDTNode.tokens, childTokens]
  rw [unnamed, noProperties, noChildren]
  rfl

/-- The root node of the parser is what `parse_node` gives. -/
theorem parse_iff {m : Memory} {address : Nat} {rootNode : Option FDTNode}
    (reserveMap : ∃ n,
      doubleWord m (address + (FDTHeader.at m address).offMemRsvmap.toNat + 16 * n) = 0) :
    (∃ fuel parser, FDTParser.parse m fuel address = some parser ∧ parser.rootNode = rootNode) ↔
      ∃ stop, Parses m (FDTHeader.at m address) .none .empty
        (address + (FDTHeader.at m address).offDtStruct.toNat)
        (address + (FDTHeader.at m address).offDtStruct.toNat) (rootNode, stop) := by
  constructor
  · rintro ⟨fuel, parser, run, rfl⟩
    simp only [FDTParser.parse, parseNode, bind, Option.bind_eq_some_iff, pure] at run
    obtain ⟨entries, -, ⟨node, stop⟩, run, same⟩ := run
    obtain rfl := Option.some.inj same
    exact ⟨stop, fuel, run⟩
  · rintro ⟨stop, fuel, run⟩
    obtain ⟨n, ends⟩ := reserveMap
    obtain ⟨entries, read⟩ := parseReserveEntries_ends ends
    refine ⟨max fuel (n + 1), ⟨entries, rootNode⟩, ?_, rfl⟩
    simp only [FDTParser.parse, parseNode, bind, Option.bind_eq_some_iff, pure]
    exact ⟨entries, parseReserveEntries_mono read (Nat.le_max_right _ _), (rootNode, stop),
      parseLoop_mono run (Nat.le_max_left _ _), rfl⟩

variable {m : Memory} {address : Nat} {tree : FDTNode} {located : List (Nat × Token)}

/-- A block that begins with its root begins the list of its tokens with it. -/
theorem StructureBlock.root {strings a stop : Nat}
    (block : StructureBlock m strings located a stop) (type : word m a = FDT_BEGIN_NODE) :
    ∃ name below next, located = (a, .beginNode name) :: below ∧ CStringAt m (a + 4) name ∧
      StructureBlock m strings below next stop ∧ a + 4 < next := by
  cases block with
  | nop nop rest => exact absurd (type.symm.trans nop) (by decide)
  | @beginNode located a stop name begins nameAt padding rest =>
    have := le_nextWord (a + 4 + name.length + 1)
    exact ⟨name, located, _, rfl, nameAt, rest, by omega⟩
  | prop prop len nameAt valueAt rest => exact absurd (type.symm.trans prop) (by decide)
  | endNode ends rest => exact absurd (type.symm.trans ends) (by decide)
  | ending ends => exact absurd (type.symm.trans ends) (by decide)

/-- The nodes after the root have names. -/
theorem Encodes.named_below {a : Nat} {name : Bytes}
    (encodes : Encodes m address tree ((a, .beginNode name) :: located)) :
    ∀ b below, (b, .beginNode below) ∈ located → below ≠ [] := by
  obtain ⟨treeName, properties, children⟩ := tree
  obtain ⟨-, tokens⟩ := List.cons.inj encodes.tokens
  intro b below mem
  have mem : .beginNode below ∈ located.map (·.2) := List.mem_map_of_mem mem
  rw [tokens] at mem
  simp only [List.mem_append, List.mem_map, reduceCtorEq, and_false, exists_false,
    List.mem_singleton, or_false, false_or] at mem
  exact AllNamed.tokens encodes.named mem

theorem Encodes.visible_iff (encodes : Encodes m address tree located) :
    Visible (FDTHeader.at m address) located ↔ ∀ a t, (a, t) ∈ located → t.Carries →
      a + 4 - address < (FDTHeader.at m address).sizeDtStruct.toNat := by
  have near (a : Nat) (t : Token) (mem : (a, t) ∈ located) :
      InBlock (FDTHeader.at m address) (a + 4) ↔
        a + 4 - address < (FDTHeader.at m address).sizeDtStruct.toNat := by
    have le := encodes.structureBlock.le_of_mem a t mem
    exact inBlock_iff (show address ≤ a + 4 by omega)
  constructor
  · intro visible a t mem carries
    exact (near a t mem).1 (visible a t mem carries)
  · intro visible a t mem carries
    exact (near a t mem).2 (visible a t mem carries)

/-- The parser reads a first token of the root, and all there is to it where the block is
visible. -/
theorem cut_root (m : Memory) {header : FDTHeader} {a : Nat} (located : List (Nat × Token))
    (name : Bytes) (inside : InBlock header a) :
    ∃ name' ts, cut header ((a, .beginNode name) :: located) = .beginNode name' :: ts ∧
      ∀ {strings next stop : Nat}, StructureBlock m strings located next stop →
        header.address ≤ a → a + 4 < next →
        (∀ b below, (b, .beginNode below) ∈ located → below ≠ []) →
        Visible header ((a, .beginNode name) :: located) →
        name' = name ∧ ∃ k, located.map (·.2) = ts ++ List.replicate k .endNode := by
  simp only [cut, if_pos inside]
  by_cases nameInside : InBlock header (a + 4)
  · refine ⟨name, cut header located, if_pos nameInside, ?_⟩
    intro strings next stop block behind after named visible
    exact ⟨rfl, visible.tail.cut_append block named (by omega)⟩
  · refine ⟨[], [], if_neg nameInside, ?_⟩
    intro strings next stop block behind after named visible
    have unnamed : name = [] := by
      by_contra carries
      exact nameInside (visible a _ List.mem_cons_self carries)
    have outside : ¬InBlock header next :=
      fun inside => nameInside (inside.of_le (by omega) (by omega))
    have ends := visible.tail.cut_outside block named (by omega) outside
    rw [block.cut_outside (by omega) outside] at ends
    exact ⟨unnamed.symm, ends⟩

/-- The parser gives the tree of a block that begins with its root exactly where it reads all that
shows in it. -/
theorem Encodes.parses_iff (encodes : Encodes m address tree located)
    (inside : InBlock (FDTHeader.at m address)
      (address + (FDTHeader.at m address).offDtStruct.toNat))
    (type : word m (address + (FDTHeader.at m address).offDtStruct.toNat) = FDT_BEGIN_NODE) :
    (∃ stop, Parses m (FDTHeader.at m address) .none .empty
      (address + (FDTHeader.at m address).offDtStruct.toNat)
      (address + (FDTHeader.at m address).offDtStruct.toNat) (some tree, stop)) ↔
      Visible (FDTHeader.at m address) located := by
  have reads : Reads m (FDTHeader.at m address) (cut (FDTHeader.at m address) located)
      (address + (FDTHeader.at m address).offDtStruct.toNat) :=
    encodes.structureBlock.reads rfl (Nat.le_add_right _ _) fun b t mem _ _ =>
      (encodes.structureBlock.paddedEnd_lt b t mem).trans_le encodes.below
  obtain ⟨name, below, next, rfl, -, block, after⟩ := encodes.structureBlock.root type
  obtain ⟨name', ts, cutEq, all⟩ := cut_root m below name inside
  have token : ¬(InBlock (FDTHeader.at m address)
        (address + (FDTHeader.at m address).offDtStruct.toNat) ∧
      (word m (address + (FDTHeader.at m address).offDtStruct.toNat) = 0 ∨
        word m (address + (FDTHeader.at m address).offDtStruct.toNat) = FDT_NOP)) := by
    simp [type, FDT_BEGIN_NODE, FDT_NOP]
  rw [cutEq] at reads
  constructor
  · rintro ⟨stop, parses⟩
    obtain ⟨node, rest, body, -⟩ := Body.total (Nat.le_refl ts.length) ⟨name', [], []⟩
    obtain ⟨-, -, stop', parses', -⟩ := reads.parseNode token body fun b reads => reads.parses body
    obtain rfl : tree = node := Option.some.inj (Prod.mk.inj (parses.unique parses')).1
    have kept := body.items
    apply Visible.of_items
    rw [encodes.tokens, cutEq]
    simp only [FDTNode.tokens, List.map_nil, childTokens, items_cons, items_append, items_nil,
      Token.items] at kept ⊢
    omega
  · intro visible
    obtain ⟨rfl, k, rest⟩ :=
      all block (Nat.le_add_right _ _) after encodes.named_below visible
    obtain ⟨treeName, body, tokens, full⟩ := Body.of_tokens [] tree
    rw [List.append_nil, ← encodes.tokens, List.map_cons, List.cons.injEq,
      Token.beginNode.injEq] at tokens
    obtain ⟨rfl, rfl⟩ := tokens
    rw [rest] at full
    obtain ⟨rest', body⟩ := full.dropEnds
    obtain ⟨-, -, stop, parses, -⟩ := reads.parseNode token body fun b reads => reads.parses body
    exact ⟨stop, parses⟩

/-- **Parsing recovers the tree** of a blob exactly where the block begins with the root, and every
property and every name begins less than `size_dt_struct` from the header; where the parser takes
the block for empty, the tree has neither. -/
theorem parse_recovers_iff (encodes : Encodes m address tree located) :
    (∃ fuel parser,
      FDTParser.parse m fuel address = some parser ∧ parser.rootNode = some tree) ↔
    ((FDTHeader.at m address).sizeDtStruct ≤ (FDTHeader.at m address).offDtStruct ∨
      word m (address + (FDTHeader.at m address).offDtStruct.toNat) = FDT_BEGIN_NODE) ∧
    ∀ a t, (a, t) ∈ located → t.Carries →
      a + 4 - address < (FDTHeader.at m address).sizeDtStruct.toNat := by
  rw [parse_iff encodes.reserveMap, ← encodes.visible_iff]
  have position : InBlock (FDTHeader.at m address)
        (address + (FDTHeader.at m address).offDtStruct.toNat) ↔
      ¬(FDTHeader.at m address).sizeDtStruct ≤ (FDTHeader.at m address).offDtStruct := by
    rw [BitVec.le_def, Nat.not_le]
    apply (inBlock_iff (Nat.le_add_right address _)).trans
    show address + _ - address < _ ↔ _
    rw [Nat.add_sub_cancel_left]
  by_cases inside : InBlock (FDTHeader.at m address)
    (address + (FDTHeader.at m address).offDtStruct.toNat)
  · by_cases type : word m (address + (FDTHeader.at m address).offDtStruct.toNat) = FDT_BEGIN_NODE
    · rw [encodes.parses_iff inside type]
      exact ⟨fun visible => ⟨.inr type, visible⟩, fun condition => condition.2⟩
    · constructor
      · rintro ⟨stop, parses⟩
        have null := parses.unique (.noNode inside type)
        exact absurd (Prod.mk.inj null).1 (by simp)
      · rintro ⟨starts, -⟩
        exact absurd starts (not_or.2 ⟨position.1 inside, type⟩)
  · have hidden : ∀ a t, (a, t) ∈ located → ¬InBlock (FDTHeader.at m address) (a + 4) := by
      intro a t mem next
      have le := encodes.structureBlock.le_of_mem a t mem
      exact inside (next.of_le (Nat.le_add_right _ _) (by omega))
    constructor
    · rintro ⟨stop, parses⟩
      have empty := parses.unique (.past inside)
      obtain rfl : tree = .empty := Option.some.inj (Prod.mk.inj empty).1
      refine ⟨.inl (Decidable.not_not.1 (mt position.2 inside)), ?_⟩
      intro a t mem carries
      have mem : t ∈ FDTNode.empty.tokens := encodes.tokens ▸ List.mem_map_of_mem mem
      simp only [FDTNode.empty, FDTNode.tokens, List.map_nil, childTokens, List.nil_append,
        List.mem_cons, List.not_mem_nil, or_false] at mem
      rcases mem with rfl | rfl
      · exact absurd rfl carries
      · exact carries.elim
    · rintro ⟨-, visible⟩
      have empty : tree = .empty := by
        apply encodes.named.eq_empty
        intro t mem carries
        rw [← encodes.tokens] at mem
        obtain ⟨⟨a, t⟩, member, rfl⟩ := List.mem_map.1 mem
        exact hidden a t member (visible a t member carries)
      rw [empty]
      exact ⟨_, .past inside⟩

end Tree

/-! ## A root with one property -/

/-- A tree of a root with one property `a`. -/
def oneProperty (value : Bytes) : FDTNode := ⟨[], [⟨[0x61], value⟩], []⟩

/-- Its blob, with the reserve map at 40 and the structure block at 56. -/
def onePropertyBlob (value : Bytes) : Bytes :=
  let length := BitVec.ofNat 8 value.length
  [0xd0, 0x0d, 0xfe, 0xed, 0, 0, 0, 86 + length, 0, 0, 0, 56, 0, 0, 0, 84 + length,
    0, 0, 0, 40, 0, 0, 0, 17, 0, 0, 0, 16, 0, 0, 0, 0, 0, 0, 0, 2, 0, 0, 0, 28 + length] ++
  List.replicate 16 0 ++
  [0, 0, 0, 1, 0, 0, 0, 0, 0, 0, 0, 3, 0, 0, 0, length, 0, 0, 0, 0] ++ value ++
  [0, 0, 0, 2, 0, 0, 0, 9, 0x61, 0]

def onePropertyMemory (value : Bytes) : Memory := fun a => (onePropertyBlob value).getD (a - 4096) 0

def onePropertyTokens (value : Bytes) : List (Nat × Token) :=
  [(4152, .beginNode []), (4160, .prop ⟨[0x61], value⟩), (4172 + value.length, .endNode)]

/-- What the memory holds at the addresses that the parser reads. -/
theorem onePropertyMemory_reads (n : Nat) (small : n = 4 ∨ n = 48) :
    let m := onePropertyMemory (List.replicate n 7)
    (FDTHeader.at m 4096 = ⟨4096, 56, BitVec.ofNat 32 (84 + n), 40, BitVec.ofNat 32 (28 + n)⟩ ∧
      doubleWord m 4136 = 0) ∧
    (word m 4152 = FDT_BEGIN_NODE ∧ m 4156 = 0) ∧
    (word m 4160 = FDT_PROP ∧ (word m 4164).toNat = n ∧ BytesAt m 4172 (List.replicate n 7)) ∧
    (BytesAt m (4180 + n + (word m 4168).toNat) [0x61] ∧ m (4181 + n + (word m 4168).toNat) = 0) ∧
    word m (4172 + n) = FDT_END_NODE ∧ word m (4176 + n) = FDT_END := by
  rcases small with rfl | rfl <;> decide +kernel

theorem onePropertyMemory_encodes (n : Nat) (small : n = 4 ∨ n = 48) :
    Encodes (onePropertyMemory (List.replicate n 7)) 4096 (oneProperty (List.replicate n 7))
      (onePropertyTokens (List.replicate n 7)) := by
  obtain ⟨⟨header, reserveMap⟩, ⟨begins, noName⟩, ⟨prop, length, value⟩, ⟨name, nameEnds⟩, ends,
    ending⟩ := onePropertyMemory_reads n small
  refine ⟨⟨⟩, rfl, ?_, ?_, ?_, 0, ?_⟩
  · rw [header]
    rcases small with rfl | rfl
    all_goals
      refine .beginNode begins ⟨⟨⟩, noName, List.not_mem_nil⟩ ?_ ?_
      · intro b low high
        have low : 4156 ≤ b := low
        have high : b < 4160 := high
        obtain rfl | rfl | rfl | rfl : b = 4156 ∨ b = 4157 ∨ b = 4158 ∨ b = 4159 := by omega
        all_goals rfl
      · refine .prop prop length ?_ value ?_
        · exact ⟨name, nameEnds, by decide⟩
        · exact .endNode ends (.ending ending)
  · rw [header]
    exact (by decide : (4096 + (56 : BitVec 32).toNat) % 4 = 0)
  · rw [header]
    rcases small with rfl | rfl <;> decide
  · rw [header]
    exact reserveMap

/-- The block of 32 bytes begins 56 bytes after the header, and the parser sees none of it. -/
theorem parse_not_recovers : ∃ m address tree located, Encodes m address tree located ∧
    ¬∃ fuel parser, FDTParser.parse m fuel address = some parser ∧ parser.rootNode = some tree := by
  refine ⟨_, _, _, _, onePropertyMemory_encodes 4 (.inl rfl), ?_⟩
  rintro ⟨fuel, parser, run, root⟩
  have reserveMap := (onePropertyMemory_encodes 4 (.inl rfl)).reserveMap
  obtain ⟨stop, parses⟩ := (parse_iff reserveMap).1 ⟨fuel, parser, run, root⟩
  have empty := parses.unique (.past (by decide +kernel))
  exact absurd (Prod.mk.inj empty).1 (by simp [oneProperty, FDTNode.empty])

/-- A property of 48 bytes leaves only the end of the root unread. -/
theorem parse_recovers_oneProperty : ∃ fuel parser,
    FDTParser.parse (onePropertyMemory (List.replicate 48 7)) fuel 4096 = some parser ∧
      parser.rootNode = some (oneProperty (List.replicate 48 7)) := by
  rw [parse_recovers_iff (onePropertyMemory_encodes 48 (.inr rfl))]
  refine ⟨.inr (by decide +kernel), ?_⟩
  intro a t mem carries
  simp only [onePropertyTokens, List.mem_cons, Prod.mk.injEq, List.not_mem_nil, or_false] at mem
  rcases mem with ⟨rfl, rfl⟩ | ⟨rfl, rfl⟩ | ⟨rfl, rfl⟩
  · exact absurd rfl carries
  · decide +kernel
  · exact carries.elim

end MatteOS.Firmware
