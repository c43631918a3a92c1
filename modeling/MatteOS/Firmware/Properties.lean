import MatteOS.Firmware.FindNode
import MatteOS.Utils.NumberBuffer

/-!
# Properties of nodes

What the drivers ask a node for: its unit address, and a property with its value as a string or as
big-endian words. `none` is a read behind the end of a value.
-/

namespace MatteOS.Firmware

open Utils

def FDTNode.properties : FDTNode → List FDTProperty
  | ⟨_, properties, _⟩ => properties

/-- `FDTNode::get_address`, which indexes the parts of the name: a name without any has no second
one. -/
def FDTNode.getAddress (node : FDTNode) : Option Bytes :=
  let splitted := Strings.split node.name unitSign
  if splitted.length = 1 then some [] else splitted[1]?

/-- `get_address().to_uint(16)` -/
def FDTNode.address (node : FDTNode) : Option (BitVec 64) :=
  node.getAddress.map fun address => atoi (address.takeWhile (· ≠ 0)) 16

/-- `FDTNode::find_property` -/
def FDTNode.findProperty (node : FDTNode) (name : Bytes) : Except String FDTProperty :=
  match node.properties.find? fun property => Strings.equals property.name name with
  | some property => .ok property
  | none => .error "Property not found"

namespace FDTProperty

/-- `FDTProperty::get_value_as_string` -/
def getValueAsString (property : FDTProperty) : Bytes := property.value.takeWhile (· ≠ 0)

/-- `FDTProperty::number_of_u32_values` -/
def numberOfU32Values (property : FDTProperty) : BitVec 32 := .ofNat 32 (property.value.length / 4)

/-- `FDTProperty::get_value_as_u32` -/
def getValueAsU32 (property : FDTProperty) (index : Nat) : Option (BitVec 32) := do
  let byte0 ← property.value[4 * index]?
  let byte1 ← property.value[4 * index + 1]?
  let byte2 ← property.value[4 * index + 2]?
  let byte3 ← property.value[4 * index + 3]?
  return byte0 ++ byte1 ++ byte2 ++ byte3

end FDTProperty

/-- The loop of `VirtIODriver::init` and `MMIODriver::init` over the property `interrupts`, which
need not be there. -/
def FDTNode.interrupts (node : FDTNode) : Option (List (BitVec 64)) :=
  match node.findProperty (literal "interrupts") with
  | .ok property =>
    (List.range property.numberOfU32Values.toNat).mapM fun i =>
      (property.getValueAsU32 i).map (·.setWidth 64)
  | .error _ => some []

end MatteOS.Firmware
