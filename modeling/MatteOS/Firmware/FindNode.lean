import MatteOS.Firmware.DeviceTree
import MatteOS.Utils.Strings

/-!
# Finding nodes

`FDTParser::find_node` and `FDTParser::find_nodes`, each a loop with one index into the children of
the current node and one into the components of the path. A child is never a null pointer, since
`parse_node` adds none, so that the test for it is left out. A loop gives `none` for a lack of fuel,
and where a node has no base name, so that `get_name` reads a slot that holds no string.
-/

namespace MatteOS.Firmware

open Utils

/-- `'@'`, before the unit address in the name of a node. -/
def unitSign : BitVec 8 := 0x40

/-- `'/'` -/
def pathSeparator : BitVec 8 := 0x2F

/-- `FDTNode::get_name`, the first part of the name. -/
def FDTNode.getName (node : FDTNode) : Option Bytes := (Strings.split node.name unitSign)[0]?

/-- An `FDTNode*`: the indices of the children that lead from the root to the node, and the node. -/
structure NodePointer where
  position : List Nat
  node : FDTNode

namespace NodePointer

def root (node : FDTNode) : NodePointer := ⟨[], node⟩

/-- `m_children` -/
def children (p : NodePointer) : List NodePointer :=
  p.node.children.mapIdx fun i child => ⟨p.position ++ [i], child⟩

end NodePointer

/-- The loop of `find_node`: the current node and the index into the path on leaving it. -/
def findNodeLoop (pathArray : List Bytes) :
    Nat → NodePointer → Nat → Nat → Option (NodePointer × Nat)
  | 0, _, _, _ => none
  | fuel + 1, currentNode, i, pathArrayIndex =>
    if i < currentNode.children.length ∧ pathArrayIndex < pathArray.length then do
      let child ← currentNode.children[i]?
      let component ← pathArray[pathArrayIndex]?
      let name ← child.node.getName
      if Strings.equals name component then
        findNodeLoop pathArray fuel child 0 (pathArrayIndex + 1)
      else findNodeLoop pathArray fuel currentNode (i + 1) pathArrayIndex
    else some (currentNode, pathArrayIndex)

/-- `FDTParser::find_node`. Without a root the loop is not entered. -/
def FDTParser.findNode (parser : FDTParser) (fuel : Nat) (path : Bytes) :
    Option (Except String (Option NodePointer)) := do
  let pathArray := Strings.split path pathSeparator
  let (currentNode, pathArrayIndex) ←
    match parser.rootNode with
    | some node => (findNodeLoop pathArray fuel (.root node) 0 0).map fun r => (some r.1, r.2)
    | none => some (none, 0)
  if pathArrayIndex = pathArray.length then return .ok currentNode
  else return .error "Node not found"

/-- The loop of `find_nodes`. -/
def findNodesLoop (pathArray : List Bytes) :
    Nat → NodePointer → Nat → Nat → List NodePointer → Option (List NodePointer)
  | 0, _, _, _, _ => none
  | fuel + 1, currentNode, i, pathArrayIndex, nodes =>
    if i < currentNode.children.length ∧ pathArrayIndex < pathArray.length then do
      let child ← currentNode.children[i]?
      let component ← pathArray[pathArrayIndex]?
      let name ← child.node.getName
      if Strings.equals name component then
        if pathArrayIndex = pathArray.length - 1 then
          findNodesLoop pathArray fuel currentNode (i + 1) pathArrayIndex (nodes ++ [child])
        else findNodesLoop pathArray fuel child 0 (pathArrayIndex + 1) nodes
      else findNodesLoop pathArray fuel currentNode (i + 1) pathArrayIndex nodes
    else some nodes

/-- `FDTParser::find_nodes` -/
def FDTParser.findNodes (parser : FDTParser) (fuel : Nat) (path : Bytes) :
    Option (List NodePointer) :=
  let pathArray := Strings.split path pathSeparator
  match parser.rootNode with
  | some node => findNodesLoop pathArray fuel (.root node) 0 0 []
  | none => some []

end MatteOS.Firmware
