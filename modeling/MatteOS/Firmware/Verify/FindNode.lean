import Mathlib.Data.List.TakeWhile
import MatteOS.Firmware.FindNode
import MatteOS.Utils.Verify.Segments

/-!
# What the searches find

A path leads from the root along a chain of children that have its components as base names. Both
searches follow the first child with the right base name and never go back: `find_node` arrives
exactly if there is a chain of such first siblings (`findNode_succeeds_iff`), and `find_nodes`
collects the children of the node before (`findNode_findNodes_agree`).
-/

namespace MatteOS.Firmware

open Utils Strings

/-! ## Chains of nodes -/

/-- The node has a base name, which is not empty. -/
def FDTNode.HasBaseName (node : FDTNode) : Prop := ∃ name, node.getName = some name ∧ name ≠ []

mutual

/-- Every node below this one has a base name. -/
def FDTNode.BaseNamed : FDTNode → Prop
  | ⟨_, _, children⟩ => AllBaseNamed children

def AllBaseNamed : List FDTNode → Prop
  | [] => True
  | child :: children => child.HasBaseName ∧ child.BaseNamed ∧ AllBaseNamed children

end

/-- The first part of a name that does not end with the sign is its first segment. -/
theorem FDTNode.getName_eq_segment {node : FDTNode} {front : Bytes} {char : BitVec 8}
    (name : node.name = front ++ [char]) (noSign : char ≠ unitSign) :
    node.getName = (segments unitSign node.name)[0]? := by
  rw [getName, name, split_concat_eq_segments_iff.2 fun sign => absurd sign noSign]

/-- A name with a base, and perhaps a unit address behind the sign, has that base name. -/
theorem FDTNode.getName_of_base {node : FDTNode} {base : Bytes} (part : IsPart unitSign base)
    (name : node.name = base ∨ ∃ unit, IsPart unitSign unit ∧
      node.name = base ++ unitSign :: unit) : node.getName = some base := by
  rcases name with whole | ⟨unit, unitPart, name⟩
  · obtain ⟨front, char, last⟩ := (List.eq_nil_or_concat base).resolve_left part.ne_nil
    have noSign : char ≠ unitSign := fun same => part.no_separator (by simp [last, same])
    rw [List.concat_eq_append] at last
    rw [getName_eq_segment (whole.trans last) noSign, whole,
      segments_of_not_mem part.no_separator, if_neg part.ne_nil]
    rfl
  · obtain ⟨front, char, last⟩ := (List.eq_nil_or_concat unit).resolve_left unitPart.ne_nil
    have noSign : char ≠ unitSign := fun same => unitPart.no_separator (by simp [last, same])
    have name' : node.name = (base ++ unitSign :: front) ++ [char] := by simp [name, last]
    rw [getName_eq_segment name' noSign, name, segments_append_cons,
      segments_of_not_mem part.no_separator, if_neg part.ne_nil]
    rfl

/-- What a path in a C string can have between its separators. -/
structure IsPathComponent (component : Bytes) : Prop where
  part : IsPart pathSeparator component
  noNul : 0 ∉ component

namespace NodePointer

variable {p q child : NodePointer} {name : Bytes} {names : List Bytes}

/-- The children with a base name, in their order. -/
def childrenNamed (p : NodePointer) (name : Bytes) : List NodePointer :=
  p.children.filter fun child => child.node.getName = some name

/-- A chain of nodes from a child of `p` to `q` has these base names. -/
def Chain : List Bytes → NodePointer → NodePointer → Prop
  | [], p, q => q = p
  | name :: names, p, q => ∃ child ∈ p.childrenNamed name, Chain names child q

/-- A chain of which each node is the first of its siblings with its base name. -/
def FirstChain : List Bytes → NodePointer → NodePointer → Prop
  | [], p, q => q = p
  | name :: names, p, q => ∃ child, (p.childrenNamed name).head? = some child ∧
    FirstChain names child q

theorem FirstChain.chain (first : FirstChain names p q) : Chain names p q := by
  induction names generalizing p with
  | nil => exact first
  | cons name names ih =>
    obtain ⟨child, head, first⟩ := first
    exact ⟨child, List.mem_of_mem_head? head, ih first⟩

theorem FirstChain.unique {q' : NodePointer} (first : FirstChain names p q)
    (second : FirstChain names p q') : q = q' := by
  induction names generalizing p with
  | nil => exact first.trans second.symm
  | cons name names ih =>
    obtain ⟨child, head, first⟩ := first
    obtain ⟨child', head', second⟩ := second
    obtain rfl := Option.some.inj (head.symm.trans head')
    exact ih first second

theorem firstChain_append {front : List Bytes} :
    FirstChain (front ++ names) p q ↔ ∃ r, FirstChain front p r ∧ FirstChain names r q := by
  induction front generalizing p with
  | nil =>
    constructor
    · intro first
      exact ⟨p, rfl, first⟩
    · rintro ⟨r, rfl, first⟩
      exact first
  | cons name front ih =>
    constructor
    · rintro ⟨child, head, first⟩
      obtain ⟨r, first, rest⟩ := ih.1 first
      exact ⟨r, ⟨child, head, first⟩, rest⟩
    · rintro ⟨r, ⟨child, head, first⟩, rest⟩
      exact ⟨child, head, ih.2 ⟨r, first, rest⟩⟩

theorem hasBaseName_of_mem {nodes : List FDTNode} (named : AllBaseNamed nodes) {node : FDTNode}
    (mem : node ∈ nodes) : node.HasBaseName ∧ node.BaseNamed := by
  induction nodes with
  | nil => cases mem
  | cons first nodes ih =>
    obtain ⟨name, below, rest⟩ := named
    rcases List.mem_cons.1 mem with rfl | mem
    · exact ⟨name, below⟩
    · exact ih rest mem

theorem baseNamed_of_mem (named : p.node.BaseNamed) (mem : child ∈ p.children) :
    child.node.HasBaseName ∧ child.node.BaseNamed := by
  obtain ⟨position, ⟨ownName, properties, nodes⟩⟩ := p
  obtain ⟨i, lt, rfl⟩ := List.mem_mapIdx.1 mem
  exact hasBaseName_of_mem named (List.getElem_mem _)

theorem mem_childrenNamed :
    child ∈ p.childrenNamed name ↔ child ∈ p.children ∧ child.node.getName = some name := by
  simp [childrenNamed]

/-- Children are different nodes. -/
theorem children_nodup (p : NodePointer) : p.children.Nodup := by
  rw [List.nodup_iff_pairwise_ne, List.pairwise_iff_getElem]
  intro i j hi hj lt same
  simp only [children, List.getElem_mapIdx, NodePointer.mk.injEq, List.append_cancel_left_eq,
    List.cons.injEq, and_true] at same
  omega

end NodePointer

open NodePointer

/-! ## The loops -/

section

variable {pathArray : List Bytes} {p q : NodePointer} {component : Bytes} {i k : Nat}

theorem equals_iff {name : Bytes} (noNul : 0 ∉ component) :
    Strings.equals name component = true ↔ name = component := by
  have whole : component.takeWhile (· != 0) = component := by
    rw [List.takeWhile_eq_self_iff]
    intro byte mem
    simp only [bne_iff_ne, ne_eq]
    rintro rfl
    exact noNul mem
  rw [Strings.equals, whole, beq_iff_eq]

/-- One round of `find_node`. -/
theorem findNodeLoop_round (lt : i < p.children.length) (here : pathArray[k]? = some component)
    (noNul : 0 ∉ component) (named : p.children[i].node.HasBaseName) (fuel : Nat) :
    findNodeLoop pathArray (fuel + 1) p i k =
      if p.children[i].node.getName = some component then
        findNodeLoop pathArray fuel p.children[i] 0 (k + 1)
      else findNodeLoop pathArray fuel p (i + 1) k := by
  obtain ⟨name, base, -⟩ := named
  have inside : k < pathArray.length := (List.getElem?_eq_some_iff.1 here).1
  rw [findNodeLoop, if_pos ⟨lt, inside⟩, List.getElem?_eq_getElem lt, here]
  simp only [Option.bind_eq_bind, Option.bind_some, base, equals_iff noNul, Option.some.injEq]

theorem findNodeLoop_end (outside : p.children.length ≤ i ∨ pathArray.length ≤ k) (fuel : Nat) :
    findNodeLoop pathArray (fuel + 1) p i k = some (p, k) := by
  rw [findNodeLoop, if_neg (by omega)]

/-- With enough fuel the loop of `find_node` leaves with `r`. -/
def FindsTo (pathArray : List Bytes) (p : NodePointer) (i k : Nat) (r : NodePointer × Nat) : Prop :=
  ∃ n, ∀ fuel, findNodeLoop pathArray (fuel + n) p i k = some r

/-- The loop goes on to the first of the children from `i` on with the base name, and leaves the
node where there is none. -/
theorem findsTo_level (here : pathArray[k]? = some component) (noNul : 0 ∉ component)
    (named : ∀ child ∈ p.children, child.node.HasBaseName) {r : NodePointer × Nat} (i : Nat)
    (next : match ((p.children.drop i).filter fun child =>
        child.node.getName = some component).head? with
      | some child => FindsTo pathArray child 0 (k + 1) r
      | none => r = (p, k)) :
    FindsTo pathArray p i k r := by
  by_cases lt : i < p.children.length
  · have round := findNodeLoop_round lt here noNul (named _ (List.getElem_mem lt))
    rw [List.drop_eq_getElem_cons lt] at next
    by_cases same : p.children[i].node.getName = some component
    · rw [List.filter_cons_of_pos (by simpa using same)] at next
      obtain ⟨n, run⟩ := next
      refine ⟨n + 1, fun fuel => ?_⟩
      rw [← Nat.add_assoc, round, if_pos same, run]
    · rw [List.filter_cons_of_neg (by simpa using same)] at next
      obtain ⟨n, run⟩ := findsTo_level here noNul named (i + 1) next
      refine ⟨n + 1, fun fuel => ?_⟩
      rw [← Nat.add_assoc, round, if_neg same, run]
  · rw [List.drop_eq_nil_of_le (Nat.not_lt.1 lt)] at next
    obtain rfl := next
    exact ⟨1, findNodeLoop_end (.inl (Nat.not_lt.1 lt))⟩
termination_by p.children.length - i

/-- One round of `find_nodes`. -/
theorem findNodesLoop_round (lt : i < p.children.length) (here : pathArray[k]? = some component)
    (noNul : 0 ∉ component) (named : p.children[i].node.HasBaseName) (fuel : Nat)
    (nodes : List NodePointer) :
    findNodesLoop pathArray (fuel + 1) p i k nodes =
      if p.children[i].node.getName = some component then
        if k = pathArray.length - 1 then
          findNodesLoop pathArray fuel p (i + 1) k (nodes ++ [p.children[i]])
        else findNodesLoop pathArray fuel p.children[i] 0 (k + 1) nodes
      else findNodesLoop pathArray fuel p (i + 1) k nodes := by
  obtain ⟨name, base, -⟩ := named
  have inside : k < pathArray.length := (List.getElem?_eq_some_iff.1 here).1
  rw [findNodesLoop, if_pos ⟨lt, inside⟩, List.getElem?_eq_getElem lt, here]
  simp only [Option.bind_eq_bind, Option.bind_some, base, equals_iff noNul, Option.some.injEq]

theorem findNodesLoop_end (outside : p.children.length ≤ i ∨ pathArray.length ≤ k) (fuel : Nat)
    (nodes : List NodePointer) : findNodesLoop pathArray (fuel + 1) p i k nodes = some nodes := by
  rw [findNodesLoop, if_neg (by omega)]

/-- With enough fuel the loop of `find_nodes` leaves with `found`, having collected `nodes` before. -/
def CollectsTo (pathArray : List Bytes) (p : NodePointer) (i k : Nat)
    (nodes found : List NodePointer) : Prop :=
  ∃ n, ∀ fuel, findNodesLoop pathArray (fuel + n) p i k nodes = some found

/-- Before the last component, `find_nodes` goes on as `find_node` does. -/
theorem collectsTo_level (here : pathArray[k]? = some component) (noNul : 0 ∉ component)
    (named : ∀ child ∈ p.children, child.node.HasBaseName) (before : k + 1 < pathArray.length)
    {nodes found : List NodePointer} (i : Nat)
    (next : match ((p.children.drop i).filter fun child =>
        child.node.getName = some component).head? with
      | some child => CollectsTo pathArray child 0 (k + 1) nodes found
      | none => found = nodes) :
    CollectsTo pathArray p i k nodes found := by
  by_cases lt : i < p.children.length
  · have round := findNodesLoop_round lt here noNul (named _ (List.getElem_mem lt))
    rw [List.drop_eq_getElem_cons lt] at next
    by_cases same : p.children[i].node.getName = some component
    · rw [List.filter_cons_of_pos (by simpa using same)] at next
      obtain ⟨n, run⟩ := next
      refine ⟨n + 1, fun fuel => ?_⟩
      rw [← Nat.add_assoc, round, if_pos same, if_neg (by omega), run]
    · rw [List.filter_cons_of_neg (by simpa using same)] at next
      obtain ⟨n, run⟩ := collectsTo_level here noNul named before (i + 1) next
      refine ⟨n + 1, fun fuel => ?_⟩
      rw [← Nat.add_assoc, round, if_neg same, run]
  · rw [List.drop_eq_nil_of_le (Nat.not_lt.1 lt)] at next
    obtain rfl := next
    exact ⟨1, fun fuel => findNodesLoop_end (.inl (Nat.not_lt.1 lt)) fuel _⟩
termination_by p.children.length - i

/-- At the last component it collects the children with the base name. -/
theorem collectsTo_last (here : pathArray[k]? = some component) (noNul : 0 ∉ component)
    (named : ∀ child ∈ p.children, child.node.HasBaseName) (last : k = pathArray.length - 1)
    (nodes : List NodePointer) (i : Nat) :
    CollectsTo pathArray p i k nodes
      (nodes ++ (p.children.drop i).filter fun child => child.node.getName = some component) := by
  by_cases lt : i < p.children.length
  · have round := findNodesLoop_round lt here noNul (named _ (List.getElem_mem lt))
    rw [List.drop_eq_getElem_cons lt]
    by_cases same : p.children[i].node.getName = some component
    · obtain ⟨n, run⟩ := collectsTo_last here noNul named last (nodes ++ [p.children[i]]) (i + 1)
      refine ⟨n + 1, fun fuel => ?_⟩
      rw [← Nat.add_assoc, round, if_pos same, if_pos last, run,
        List.filter_cons_of_pos (by simpa using same), List.append_assoc, List.singleton_append]
    · obtain ⟨n, run⟩ := collectsTo_last here noNul named last nodes (i + 1)
      refine ⟨n + 1, fun fuel => ?_⟩
      rw [← Nat.add_assoc, round, if_neg same, run,
        List.filter_cons_of_neg (by simpa using same)]
  · rw [List.drop_eq_nil_of_le (Nat.not_lt.1 lt), List.filter_nil, List.append_nil]
    exact ⟨1, fun fuel => findNodesLoop_end (.inl (Nat.not_lt.1 lt)) fuel _⟩
termination_by p.children.length - i

/-! ## Paths -/

variable {names front : List Bytes}

theorem component_of_path {name : Bytes} (path : pathArray = front ++ name :: names) :
    pathArray[front.length]? = some name := by
  rw [path, List.getElem?_append_right (Nat.le_refl _), Nat.sub_self]
  rfl

/-- `find_node` goes along the chain of first siblings, to its end. -/
theorem findsTo_of_firstChain (path : pathArray = front ++ names) (noNul : ∀ name ∈ names, 0 ∉ name)
    (named : p.node.BaseNamed) (first : FirstChain names p q) :
    FindsTo pathArray p 0 front.length (q, pathArray.length) := by
  induction names generalizing p front with
  | nil =>
    obtain rfl := first
    rw [List.append_nil] at path
    rw [path]
    exact ⟨1, findNodeLoop_end (.inr (Nat.le_refl _))⟩
  | cons name names ih =>
    obtain ⟨child, head, first⟩ := first
    have here := component_of_path path
    have below := baseNamed_of_mem named (mem_childrenNamed.1 (List.mem_of_mem_head? head)).1
    refine findsTo_level here (noNul name List.mem_cons_self)
      (fun child mem => (baseNamed_of_mem named mem).1) 0 ?_
    rw [List.drop_zero, ← childrenNamed, head]
    have rest := @ih child (front ++ [name]) (by rw [path, List.append_cons])
      (fun name mem => noNul name (List.mem_cons_of_mem _ mem)) below.2 first
    rwa [List.length_append] at rest

/-- Where the chain of first siblings ends before the path, `find_node` stops there. -/
theorem findsTo_of_not_firstChain (path : pathArray = front ++ names)
    (noNul : ∀ name ∈ names, 0 ∉ name) (named : p.node.BaseNamed)
    (lost : ∀ q, ¬FirstChain names p q) :
    ∃ q k, k < pathArray.length ∧ FindsTo pathArray p 0 front.length (q, k) := by
  induction names generalizing p front with
  | nil => exact absurd rfl (lost p)
  | cons name names ih =>
    have here := component_of_path path
    have level := fun r => @findsTo_level pathArray p name front.length here
      (noNul name List.mem_cons_self) (fun child mem => (baseNamed_of_mem named mem).1) r 0
    rw [List.drop_zero, ← childrenNamed] at level
    cases head : (p.childrenNamed name).head? with
    | none =>
      rw [head] at level
      exact ⟨p, front.length, (List.getElem?_eq_some_iff.1 here).1, level _ rfl⟩
    | some child =>
      rw [head] at level
      have below := baseNamed_of_mem named (mem_childrenNamed.1 (List.mem_of_mem_head? head)).1
      obtain ⟨q, k, lt, rest⟩ := @ih child (front ++ [name]) (by rw [path, List.append_cons])
        (fun name mem => noNul name (List.mem_cons_of_mem _ mem)) below.2
        fun q first => lost q ⟨child, head, first⟩
      rw [List.length_append] at rest
      exact ⟨q, k, lt, level _ rest⟩

/-- `find_nodes` goes the same way, and collects the children of the node before the last. -/
theorem collectsTo_of_firstChain {last : Bytes} (path : pathArray = front ++ (names ++ [last]))
    (noNul : ∀ name ∈ names ++ [last], 0 ∉ name) (named : p.node.BaseNamed)
    (first : FirstChain names p q) :
    CollectsTo pathArray p 0 front.length [] (q.childrenNamed last) := by
  induction names generalizing p front with
  | nil =>
    obtain rfl := first
    have here := component_of_path path
    have collected := collectsTo_last here (noNul last (by simp))
      (fun child mem => (baseNamed_of_mem named mem).1) (by simp [path]) [] 0
    rwa [List.drop_zero, List.nil_append, ← childrenNamed] at collected
  | cons name names ih =>
    obtain ⟨child, head, first⟩ := first
    have here := component_of_path path
    have below := baseNamed_of_mem named (mem_childrenNamed.1 (List.mem_of_mem_head? head)).1
    refine collectsTo_level here (noNul name List.mem_cons_self)
      (fun child mem => (baseNamed_of_mem named mem).1) (by simp [path]) 0 ?_
    rw [List.drop_zero, ← childrenNamed, head]
    have rest := @ih child (front ++ [name]) (by rw [path, List.cons_append, List.append_cons])
      (fun name mem => noNul name (List.mem_cons_of_mem _ mem)) below.2 first
    rwa [List.length_append] at rest

theorem collectsTo_of_not_firstChain {last : Bytes} (path : pathArray = front ++ (names ++ [last]))
    (noNul : ∀ name ∈ names ++ [last], 0 ∉ name) (named : p.node.BaseNamed)
    (lost : ∀ q, ¬FirstChain names p q) : CollectsTo pathArray p 0 front.length [] [] := by
  induction names generalizing p front with
  | nil => exact absurd rfl (lost p)
  | cons name names ih =>
    have here := component_of_path path
    refine collectsTo_level here (noNul name List.mem_cons_self)
      (fun child mem => (baseNamed_of_mem named mem).1) (by simp [path]) 0 ?_
    rw [List.drop_zero, ← childrenNamed]
    cases head : (p.childrenNamed name).head? with
    | none => rfl
    | some child =>
      have below := baseNamed_of_mem named (mem_childrenNamed.1 (List.mem_of_mem_head? head)).1
      have rest := @ih child (front ++ [name]) (by rw [path, List.cons_append, List.append_cons])
        (fun name mem => noNul name (List.mem_cons_of_mem _ mem)) below.2
        fun q first => lost q ⟨child, head, first⟩
      rwa [List.length_append] at rest

end

/-! ## The searches -/

/-- The path with these components. -/
abbrev pathTo (components : List Bytes) : Bytes := Strings.join pathSeparator components

/-- `find_node` leaves its loop and returns `result`. -/
def FDTParser.Finds (parser : FDTParser) (path : Bytes)
    (result : Except String (Option NodePointer)) : Prop :=
  ∃ n, ∀ fuel, parser.findNode (fuel + n) path = some result

/-- `find_nodes` leaves its loop and returns `nodes`. -/
def FDTParser.Collects (parser : FDTParser) (path : Bytes) (nodes : List NodePointer) : Prop :=
  ∃ n, ∀ fuel, parser.findNodes (fuel + n) path = some nodes

theorem FDTParser.Finds.unique {parser : FDTParser} {path : Bytes}
    {result result' : Except String (Option NodePointer)} (finds : parser.Finds path result)
    (finds' : parser.Finds path result') : result = result' := by
  obtain ⟨n, run⟩ := finds
  obtain ⟨n', run'⟩ := finds'
  have same := run n'
  rw [Nat.add_comm, run' n] at same
  exact (Option.some.inj same).symm

theorem FDTParser.Collects.unique {parser : FDTParser} {path : Bytes}
    {nodes nodes' : List NodePointer} (collects : parser.Collects path nodes)
    (collects' : parser.Collects path nodes') : nodes = nodes' := by
  obtain ⟨n, run⟩ := collects
  obtain ⟨n', run'⟩ := collects'
  have same := run n'
  rw [Nat.add_comm, run' n] at same
  exact (Option.some.inj same).symm

section

variable {parser : FDTParser} {node : FDTNode} {components : List Bytes} {path : Bytes}

theorem split_pathTo (valid : ∀ component ∈ components, IsPathComponent component) :
    Strings.split (pathTo components) pathSeparator = components :=
  split_join fun component mem => (valid component mem).part

/-- `find_node` returns the end of the chain of first siblings. -/
theorem finds_of_firstChain (isRoot : parser.rootNode = some node) (named : node.BaseNamed)
    (splits : Strings.split path pathSeparator = components)
    (noNul : ∀ component ∈ components, 0 ∉ component) {q : NodePointer}
    (first : FirstChain components (.root node) q) : parser.Finds path (.ok (some q)) := by
  obtain ⟨n, run⟩ :=
    findsTo_of_firstChain (List.nil_append components).symm noNul named first
  refine ⟨n, fun fuel => ?_⟩
  rw [List.length_nil] at run
  unfold FDTParser.findNode
  rw [isRoot, splits]
  simp only [run, Option.map_some, Option.bind_eq_bind, Option.bind_some, if_pos]
  rfl

theorem finds_of_not_firstChain (isRoot : parser.rootNode = some node) (named : node.BaseNamed)
    (splits : Strings.split path pathSeparator = components)
    (noNul : ∀ component ∈ components, 0 ∉ component)
    (lost : ∀ q, ¬FirstChain components (.root node) q) :
    parser.Finds path (.error "Node not found") := by
  obtain ⟨q, k, lt, n, run⟩ :=
    findsTo_of_not_firstChain (List.nil_append components).symm noNul named lost
  refine ⟨n, fun fuel => ?_⟩
  rw [List.length_nil] at run
  unfold FDTParser.findNode
  rw [isRoot, splits]
  simp only [run, Option.map_some, Option.bind_eq_bind, Option.bind_some,
    if_neg (Nat.ne_of_lt lt)]
  rfl

/-- `find_node` succeeds exactly if the path leads along some chain of nodes from a child of the
root, and returns the end of one. -/
def FDTParser.FindsPath (parser : FDTParser) (node : FDTNode) (components : List Bytes) : Prop :=
  ∃ result, parser.Finds (pathTo components) result ∧
    ((∃ q, result = .ok q) ↔ ∃ q, Chain components (.root node) q) ∧
    ∀ q, result = .ok q → ∃ p, q = some p ∧ Chain components (.root node) p

/-- **Finding a node.** A path is found if and only if a chain of nodes that it leads along can
always be chosen to go through the first sibling with each base name. -/
theorem findsPath_iff (isRoot : parser.rootNode = some node) (named : node.BaseNamed)
    (valid : ∀ component ∈ components, IsPathComponent component) :
    parser.FindsPath node components ↔
      ((∃ q, Chain components (.root node) q) → ∃ q, FirstChain components (.root node) q) := by
  have splits := split_pathTo valid
  have noNul := fun name mem => (valid name mem).noNul
  by_cases first : ∃ q, FirstChain components (.root node) q
  · obtain ⟨q, first⟩ := first
    refine iff_of_true ⟨_, finds_of_firstChain isRoot named splits noNul first, ?_, ?_⟩
      fun _ => ⟨q, first⟩
    · exact iff_of_true ⟨_, rfl⟩ ⟨q, first.chain⟩
    · intro q' same
      obtain rfl := Except.ok.inj same
      exact ⟨q, rfl, first.chain⟩
  · have finds := finds_of_not_firstChain isRoot named splits noNul (not_exists.1 first)
    constructor
    · rintro ⟨result, finds', succeeds, -⟩ chain
      obtain rfl := finds.unique finds'
      obtain ⟨q, ok⟩ := succeeds.2 chain
      cases ok
    · intro chain
      refine ⟨_, finds, ?_, fun q ok => by cases ok⟩
      constructor
      · rintro ⟨q, ok⟩
        cases ok
      · intro leads
        exact absurd (chain leads) first

/-- What `find_node` and `find_nodes` return for a path belongs together. -/
structure FDTParser.Agree (parser : FDTParser) (components : List Bytes)
    (found : Except String (Option NodePointer)) (nodes : List NodePointer) : Prop where
  error : (∃ e, found = .error e) ↔ nodes = []
  first : ∀ q, found = .ok q → ∃ p, q = some p ∧ nodes.head? = some p
  named : ∀ q ∈ nodes, q.node.getName = components.getLast?
  siblings : nodes ≠ [] → ∃ node names parent, parser.rootNode = some node ∧
    Chain names (.root node) parent ∧ nodes.Sublist parent.children
  nodup : nodes.Nodup

theorem collects_of_firstChain {last : Bytes} (isRoot : parser.rootNode = some node)
    (named : node.BaseNamed) (splits : Strings.split path pathSeparator = components ++ [last])
    (noNul : ∀ component ∈ components ++ [last], 0 ∉ component) {q : NodePointer}
    (first : FirstChain components (.root node) q) :
    parser.Collects path (q.childrenNamed last) := by
  obtain ⟨n, run⟩ := collectsTo_of_firstChain (List.nil_append _).symm noNul named first
  refine ⟨n, fun fuel => ?_⟩
  rw [FDTParser.findNodes, isRoot, splits]
  exact run fuel

theorem collects_of_not_firstChain {last : Bytes} (isRoot : parser.rootNode = some node)
    (named : node.BaseNamed) (splits : Strings.split path pathSeparator = components ++ [last])
    (noNul : ∀ component ∈ components ++ [last], 0 ∉ component)
    (lost : ∀ q, ¬FirstChain components (.root node) q) : parser.Collects path [] := by
  obtain ⟨n, run⟩ := collectsTo_of_not_firstChain (List.nil_append _).symm noNul named lost
  refine ⟨n, fun fuel => ?_⟩
  rw [FDTParser.findNodes, isRoot, splits]
  exact run fuel

/-- Neither search finds anything. -/
theorem agree_nothing : parser.Agree components (.error "Node not found") [] where
  error := iff_of_true ⟨_, rfl⟩ rfl
  first _ ok := by cases ok
  named _ mem := by cases mem
  siblings some := absurd rfl some
  nodup := List.nodup_nil

/-- On the components that a path splits into, the two searches agree, and they find nothing exactly
where the chain of first siblings ends before the path. -/
theorem agree_of_split (named : ∀ node, parser.rootNode = some node → node.BaseNamed)
    (splits : Strings.split path pathSeparator = components)
    (noNul : ∀ component ∈ components, 0 ∉ component) (nonempty : components ≠ []) :
    ∃ found nodes, parser.Finds path found ∧ parser.Collects path nodes ∧
      parser.Agree components found nodes ∧
      (nodes = [] ↔ ∀ node q, parser.rootNode = some node →
        ¬FirstChain components (.root node) q) := by
  obtain ⟨front, last, rfl⟩ : ∃ front last, components = front ++ [last] :=
    ⟨_, _, (List.dropLast_concat_getLast nonempty).symm⟩
  cases isRoot : parser.rootNode with
  | none =>
    refine ⟨_, [], ⟨0, fun fuel => ?_⟩, ⟨0, fun fuel => ?_⟩, agree_nothing,
      iff_of_true rfl fun node q isNode => by cases isNode⟩
    · unfold FDTParser.findNode
      rw [isRoot, splits]
      simp only [Option.bind_eq_bind, Option.bind_some, List.length_append, List.length_singleton,
        if_neg (Nat.succ_ne_zero _).symm]
      rfl
    · rw [FDTParser.findNodes, isRoot]
  | some node =>
    have named := named node isRoot
    by_cases reached : ∃ q, FirstChain front (.root node) q
    · obtain ⟨parent, first⟩ := reached
      have collects := collects_of_firstChain isRoot named splits noNul first
      cases head : (parent.childrenNamed last).head? with
      | none =>
        have lost : ∀ q, ¬FirstChain (front ++ [last]) (.root node) q := by
          intro q chain
          obtain ⟨parent', first', child, head', -⟩ := firstChain_append.1 chain
          obtain rfl := first.unique first'
          rw [head] at head'
          cases head'
        rw [List.head?_eq_none_iff.1 head] at collects
        refine ⟨_, [], finds_of_not_firstChain isRoot named splits noNul lost, collects,
          agree_nothing, iff_of_true rfl fun node' q isNode => ?_⟩
        cases isNode
        exact lost q
      | some child =>
        have whole : FirstChain (front ++ [last]) (.root node) child :=
          firstChain_append.2 ⟨parent, first, child, head, rfl⟩
        have some : parent.childrenNamed last ≠ [] := by
          intro nothing
          rw [nothing] at head
          cases head
        refine ⟨_, _, finds_of_firstChain isRoot named splits noNul whole, collects,
          ⟨?_, ?_, ?_, ?_, ?_⟩, iff_of_false some fun lost => lost node child rfl whole⟩
        · exact iff_of_false (fun ⟨e, error⟩ => by cases error) some
        · intro q ok
          obtain rfl := Except.ok.inj ok
          exact ⟨child, rfl, head⟩
        · intro q mem
          rw [(mem_childrenNamed.1 mem).2, List.getLast?_concat]
        · intro _
          exact ⟨node, front, parent, isRoot, first.chain, List.filter_sublist⟩
        · exact List.Nodup.sublist List.filter_sublist (children_nodup parent)
    · have lost := not_exists.1 reached
      have lost' : ∀ q, ¬FirstChain (front ++ [last]) (.root node) q := by
        intro q chain
        obtain ⟨parent, first, -⟩ := firstChain_append.1 chain
        exact lost parent first
      refine ⟨_, [], finds_of_not_firstChain isRoot named splits noNul lost',
        collects_of_not_firstChain isRoot named splits noNul lost, agree_nothing,
        iff_of_true rfl fun node' q isNode => ?_⟩
      cases isNode
      exact lost' q

/-- The path ends with a separator behind a component. -/
def EndsWithSeparator (path : Bytes) : Prop :=
  ∃ front char, char ≠ pathSeparator ∧ path = front ++ [char, pathSeparator]

/-- Where the last component is dropped, the searches still agree if they find nothing by the others,
or the last two are the same. -/
def FDTParser.AgreeWithoutLast (parser : FDTParser) (components : List Bytes) : Prop :=
  components.dropLast ≠ [] ∧ (components.dropLast.getLast? = components.getLast? ∨
    ∀ node q, parser.rootNode = some node → ¬FirstChain components.dropLast (.root node) q)

/-- A path without components leads `find_node` to the root and `find_nodes` to nothing. -/
theorem not_agree_of_split_nil (named : ∀ node, parser.rootNode = some node → node.BaseNamed)
    (splits : Strings.split path pathSeparator = []) :
    ∃ found, parser.Finds path (.ok found) ∧ parser.Collects path [] := by
  cases isRoot : parser.rootNode with
  | none =>
    refine ⟨none, ⟨0, fun fuel => ?_⟩, ⟨0, fun fuel => ?_⟩⟩
    · unfold FDTParser.findNode
      rw [isRoot, splits]
      rfl
    · rw [FDTParser.findNodes, isRoot]
  | some node =>
    refine ⟨some (.root node), finds_of_firstChain isRoot (named node isRoot) splits (by simp) rfl,
      1, fun fuel => ?_⟩
    rw [FDTParser.findNodes, isRoot, splits]
    exact findNodesLoop_end (.inr (Nat.le_refl 0)) fuel []

/-- **The two searches.** For every path with a component, both return. Exactly if no separator is
behind the last component, or dropping that component makes no difference, `find_node` fails where
`find_nodes` finds nothing and returns the first of its nodes otherwise, and these are children of
one node, in their order and each once, with the last component as base name. -/
theorem findNode_findNodes_agree_iff
    (named : ∀ node, parser.rootNode = some node → node.BaseNamed) (noNul : 0 ∉ path)
    (nonempty : segments pathSeparator path ≠ []) :
    ∃ found nodes, parser.Finds path found ∧ parser.Collects path nodes ∧
      (parser.Agree (segments pathSeparator path) found nodes ↔
        ¬EndsWithSeparator path ∨ parser.AgreeWithoutLast (segments pathSeparator path)) := by
  have noNul' : ∀ component ∈ segments pathSeparator path, 0 ∉ component :=
    fun component mem zero => noNul (mem_of_mem_segments mem zero)
  by_cases ends : EndsWithSeparator path
  swap
  · obtain ⟨found, nodes, finds, collects, agree, -⟩ :=
      agree_of_split named (split_eq_segments ends) noNul' nonempty
    exact ⟨found, nodes, finds, collects, iff_of_true agree (.inl ends)⟩
  have splits : Strings.split path pathSeparator = (segments pathSeparator path).dropLast := by
    obtain ⟨front, char, other, rfl⟩ := ends
    exact split_append_separator other
  rcases List.eq_nil_or_concat (segments pathSeparator path).dropLast with none | some
  · obtain ⟨found, finds, collects⟩ := not_agree_of_split_nil named (splits.trans none)
    refine ⟨_, [], finds, collects, iff_of_false (fun agree => ?_) ?_⟩
    · obtain ⟨e, error⟩ := agree.error.2 rfl
      cases error
    · rintro (other | ⟨some, -⟩)
      · exact other ends
      · exact some none
  · have some' : (segments pathSeparator path).dropLast ≠ [] := by
      obtain ⟨front, last, same⟩ := some
      rw [same]
      simp
    obtain ⟨found, nodes, finds, collects, agree, nothing⟩ := agree_of_split named splits
      (fun component mem => noNul' component (List.dropLast_subset _ mem)) some'
    refine ⟨found, nodes, finds, collects, ?_, ?_⟩
    · intro whole
      refine .inr ⟨some', ?_⟩
      by_cases empty : nodes = []
      · exact .inr (nothing.1 empty)
      · obtain ⟨q, mem⟩ := List.exists_mem_of_ne_nil nodes empty
        exact .inl ((agree.named q mem).symm.trans (whole.named q mem))
    · rintro (other | ⟨-, same | lost⟩)
      · exact absurd ends other
      · exact { agree with named := fun q mem => (agree.named q mem).trans same }
      · have empty := nothing.2 lost
        exact { agree with named := fun q mem => by rw [empty] at mem; cases mem }

end

/-! ## Siblings with one base name -/

/-- A root with the nodes `cpu@0` and `cpu@1`, of which the second has a node `l2`. -/
def cpuTree : FDTNode :=
  ⟨[], [], [⟨[0x63, 0x70, 0x75, 0x40, 0x30], [], []⟩,
    ⟨[0x63, 0x70, 0x75, 0x40, 0x31], [], [⟨[0x6C, 0x32], [], []⟩]⟩]⟩

theorem cpuTree_baseNamed : cpuTree.BaseNamed := by
  have cpu : IsPart unitSign [0x63, 0x70, 0x75] := ⟨by decide, by decide⟩
  have l2 : IsPart unitSign [0x6C, 0x32] := ⟨by decide, by decide⟩
  refine ⟨⟨_, FDTNode.getName_of_base cpu (.inr ⟨[0x30], ⟨by decide, by decide⟩, rfl⟩), cpu.ne_nil⟩,
    trivial,
    ⟨_, FDTNode.getName_of_base cpu (.inr ⟨[0x31], ⟨by decide, by decide⟩, rfl⟩), cpu.ne_nil⟩,
    ⟨⟨_, FDTNode.getName_of_base l2 (.inl rfl), l2.ne_nil⟩, trivial, trivial⟩, trivial⟩

theorem cpuTree_chain : Chain [[0x63, 0x70, 0x75], [0x6C, 0x32]] (.root cpuTree)
    ⟨[1, 0], ⟨[0x6C, 0x32], [], []⟩⟩ :=
  ⟨⟨[1], ⟨[0x63, 0x70, 0x75, 0x40, 0x31], [], [⟨[0x6C, 0x32], [], []⟩]⟩⟩,
    mem_childrenNamed.2 ⟨.tail _ (.head _), rfl⟩, _,
    mem_childrenNamed.2 ⟨.head _, rfl⟩, rfl⟩

/-- The search for `/cpu/l2` ends at the first `cpu`. -/
theorem cpuTree_not_firstChain (q : NodePointer) :
    ¬FirstChain [[0x63, 0x70, 0x75], [0x6C, 0x32]] (.root cpuTree) q := by
  rintro ⟨child, head, grandchild, head', -⟩
  have first : ((NodePointer.root cpuTree).childrenNamed [0x63, 0x70, 0x75]).head? =
      some ⟨[0], ⟨[0x63, 0x70, 0x75, 0x40, 0x30], [], []⟩⟩ := rfl
  rw [first] at head
  cases head
  cases head'

theorem cpuPath_valid : ∀ component ∈ ([[0x63, 0x70, 0x75], [0x6C, 0x32]] : List Bytes),
    IsPathComponent component := by
  intro component mem
  simp only [List.mem_cons, List.not_mem_nil, or_false] at mem
  rcases mem with rfl | rfl
  · exact ⟨⟨by decide, by decide⟩, by decide⟩
  · exact ⟨⟨by decide, by decide⟩, by decide⟩

theorem findsPath_iff_cpu :
    (⟨[], some cpuTree⟩ : FDTParser).FindsPath cpuTree [[0x63, 0x70, 0x75]] ↔
      ((∃ q, Chain [[0x63, 0x70, 0x75]] (.root cpuTree) q) →
        ∃ q, FirstChain [[0x63, 0x70, 0x75]] (.root cpuTree) q) :=
  findsPath_iff rfl cpuTree_baseNamed fun component mem =>
    cpuPath_valid component (List.mem_cons.2 (.inl (List.mem_singleton.1 mem)))

/-- `/cpu/l2` is not found, though `cpu@1` has a node `l2`. -/
theorem not_findsPath_cpu :
    ¬(⟨[], some cpuTree⟩ : FDTParser).FindsPath cpuTree [[0x63, 0x70, 0x75], [0x6C, 0x32]] := by
  rintro ⟨result, finds, succeeds, -⟩
  obtain ⟨q, rfl⟩ := succeeds.2 ⟨_, cpuTree_chain⟩
  cases finds.unique (finds_of_not_firstChain rfl cpuTree_baseNamed (split_pathTo cpuPath_valid)
    (fun name mem => (cpuPath_valid name mem).noNul) cpuTree_not_firstChain)

/-- `/cpu` -/
theorem findNode_findNodes_agree_iff_cpu : ∃ found nodes,
    (⟨[], some cpuTree⟩ : FDTParser).Finds [0x2F, 0x63, 0x70, 0x75] found ∧
    (⟨[], some cpuTree⟩ : FDTParser).Collects [0x2F, 0x63, 0x70, 0x75] nodes ∧
    (⟨[], some cpuTree⟩ : FDTParser).Agree [[0x63, 0x70, 0x75]] found nodes := by
  obtain ⟨found, nodes, finds, collects, agree⟩ := @findNode_findNodes_agree_iff
    ⟨[], some cpuTree⟩ [0x2F, 0x63, 0x70, 0x75]
    (fun _ isRoot => Option.some.inj isRoot ▸ cpuTree_baseNamed) (by decide) (by decide)
  refine ⟨found, nodes, finds, collects, agree.2 (.inl ?_)⟩
  rintro ⟨front, char, -, same⟩
  have last := congrArg List.getLast? same
  simp [pathSeparator] at last

/-- `/cpu/` leads `find_node` to the root. -/
theorem not_agree_cpu : ¬ ∀ (parser : FDTParser) (path : Bytes),
    (∀ node, parser.rootNode = some node → node.BaseNamed) → 0 ∉ path →
    segments pathSeparator path ≠ [] → ∃ found nodes, parser.Finds path found ∧
      parser.Collects path nodes ∧ parser.Agree (segments pathSeparator path) found nodes := by
  intro agrees
  have named : ∀ node, (⟨[], some cpuTree⟩ : FDTParser).rootNode = some node → node.BaseNamed :=
    fun _ isRoot => Option.some.inj isRoot ▸ cpuTree_baseNamed
  obtain ⟨found, nodes, finds, collects, agree⟩ :=
    agrees ⟨[], some cpuTree⟩ [0x2F, 0x63, 0x70, 0x75, 0x2F] named (by decide) (by decide)
  obtain ⟨root, finds', collects'⟩ := @not_agree_of_split_nil
    ⟨[], some cpuTree⟩ [0x2F, 0x63, 0x70, 0x75, 0x2F] named (by decide)
  obtain ⟨e, error⟩ := agree.error.2 (collects.unique collects')
  rw [finds.unique finds'] at error
  cases error

end MatteOS.Firmware
