import Mathlib.Tactic.Common

/-!
# Splitting strings

`String::split` for a separator of one character, for which the loop that compares the
rest of the separator does not run (`split`), and for any separator (`splitBy`).
-/

namespace MatteOS.Utils.Strings

/-- The parts found so far, and `last_index`. -/
abbrev SplitState := List (List (BitVec 8)) × Nat

/-- One round of the loop of `String::split`. -/
def splitRound (value : List (BitVec 8)) (separator : BitVec 8) (s : SplitState) (i : Nat) :
    SplitState :=
  let (result, lastIndex) := s
  if value.getD i 0 = separator then
    if i = 0 ∨ i = value.length - 1 then (result, i + 1)
    else if i - lastIndex > 0 then
      (result ++ [(value.drop lastIndex).take (i - lastIndex)], i + 1)
    else (result, i + 1)
  else (result, lastIndex)

/-- `String::split` -/
def split (value : List (BitVec 8)) (separator : BitVec 8) : List (List (BitVec 8)) :=
  let (result, lastIndex) := (List.range value.length).foldl (splitRound value separator) ([], 0)
  if lastIndex < value.length ∧ value.length - lastIndex > 0 then
    result ++ [(value.drop lastIndex).take (value.length - lastIndex)]
  else result

/-- `String::equals`, on the C string of the other string, which its first NUL ends. -/
def equals (value other : List (BitVec 8)) : Bool := value == other.takeWhile (· != 0)

/-! ## Longer separators -/

/-- The loop that compares the rest of the string with the rest of the separator, up to the end of
the string. `none` is the failed assertion of `StringValue::operator[]` past the separator. -/
def compareRest : List (BitVec 8) → List (BitVec 8) → Option Bool
  | [], _ => some true
  | _ :: _, [] => none
  | char :: value, char' :: separator =>
    if char ≠ char' then some false else compareRest value separator

/-- One round of the loop of `String::split`. It gives `none` also where `i - last_index` wraps around,
so that the part would have almost `2 ^ 64` characters. -/
def splitByRound (value separator : List (BitVec 8)) (s : SplitState) (i : Nat) :
    Option SplitState := do
  let (result, lastIndex) := s
  let first ← separator[0]?
  if value.getD i 0 = first then
    if i = 0 ∨ i = value.length - 1 then return (result, i + 1)
    let found ←
      if separator.length > 1 then compareRest (value.drop (i + 1)) (separator.drop 1)
      else some true
    if found then
      if i < lastIndex then none
      else if i - lastIndex > 0 then
        return (result ++ [(value.drop lastIndex).take (i - lastIndex)], i + separator.length)
      else return (result, i + separator.length)
    else return (result, lastIndex)
  else return (result, lastIndex)

/-- `String::split` -/
def splitBy (value separator : List (BitVec 8)) : Option (List (List (BitVec 8))) := do
  let (result, lastIndex) ←
    (List.range value.length).foldlM (splitByRound value separator) ([], 0)
  if lastIndex < value.length ∧ value.length - lastIndex > 0 then
    return result ++ [(value.drop lastIndex).take (value.length - lastIndex)]
  else return result

end MatteOS.Utils.Strings
