import MatteOS.Utils.StringValue
import MatteOS.Utils.Assertions

/-!
# String views

The operations of `Utils::StringView` on a view with an offset. `value` and `length` start at the
offset, `operator[]` is that far behind `value`, and the comparisons and the conversion take the
value that the view shares from its first character on.
-/

namespace MatteOS.Utils

/-- `to_lower` -/
def toLower (c : BitVec 8) : BitVec 8 := if 0x41 ≤ c ∧ c ≤ 0x5A then c + 32 else c

/-- The comparison of the first `length` characters, whatever their case is. -/
def sameLetters (length : Nat) (value other : List (BitVec 8)) : Bool :=
  (List.range length).all fun i => toLower (value.getD i 0) == toLower (other.getD i 0)

namespace StringView

/-- `StringView(const char*)` -/
def ofCString (cstring : List (BitVec 8)) (terminated : 0 ∈ cstring) : StringView :=
  ofString (.ofCString cstring terminated)

/-- `StringView::offset`, which sets the offset. -/
def offsetBy (view : StringView) (offset : Nat) : StringView := { view with offset := offset }

/-- `StringView::length`, a `size_t`. -/
def length (view : StringView) : Nat :=
  if view.offset ≤ view.value.length then view.value.length - view.offset
  else view.value.length + 2 ^ 64 - view.offset

/-- `StringView::operator[]` -/
def index (view : StringView) (i : Nat) : Except Fault (BitVec 8) :=
  orUndefined view.chars[view.offset + i]?

/-- `StringView::equals_ignore_case(const char*)` -/
def equalsIgnoreCaseCString (view : StringView) (other : List (BitVec 8)) : Bool :=
  if view.value.length ≠ StringValue.calculateSize other then false
  else sameLetters view.value.length view.value.buffer other

/-- `StringView::equals_ignore_case(const String&)` -/
def equalsIgnoreCaseString (view : StringView) (other : StringValue) : Bool :=
  view.equalsIgnoreCaseCString other.buffer

/-- `StringView::equals_ignore_case(const StringView&)` -/
def equalsIgnoreCase (view other : StringView) : Bool := view.equalsIgnoreCaseCString other.chars

/-- `StringView::operator String`, of the value as it is. -/
def toString (view : StringView) : StringValue := view.value

end StringView

end MatteOS.Utils
