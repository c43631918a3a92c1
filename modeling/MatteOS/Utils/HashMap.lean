import Mathlib.Logic.Function.Basic
import Mathlib.Tactic.Common

/-!
# Hash maps

`Utils::HashMap` with its twenty buckets. A bucket is the chain of entries that starts at
`m_entries[i]`, and a null `RefPtr` is the empty chain. An operation gives `none` where the
code reads a member of a null entry.
-/

namespace MatteOS.Utils

namespace HashFunctions

/-- `HashFunctions::djb2` on the bytes of a `HashInput`; `char` is unsigned. -/
def djb2 (input : List (BitVec 8)) : BitVec 32 :=
  input.foldl (fun hash c => (hash <<< 5) + hash + c.setWidth 32) 5381

end HashFunctions

/-- A map from keys, which `function` hashes, to values. -/
structure HashMap {Key : Type} (function : Key → BitVec 32) (Value : Type) where
  entries : Nat → List (Key × Value)

namespace HashMap

/-- `DefaultSize` -/
def DefaultSize : Nat := 20

variable {Key Value : Type} [DecidableEq Key] {function : Key → BitVec 32}

/-- `HashMap()` -/
def empty : HashMap function Value := { entries := fun _ => [] }

def index (function : Key → BitVec 32) (key : Key) : Nat := (function key).toNat % DefaultSize

/-- The loop of `get`. -/
def find (key : Key) : List (Key × Value) → Except String Value
  | [] => .error "Key not found in map!"
  | entry :: next => if entry.1 = key then .ok entry.2 else find key next

/-- `HashMap::get` -/
def get (m : HashMap function Value) (key : Key) : Except String Value :=
  find key (m.entries (index function key))

/-- The loop of `set`, which goes on while an entry has no next one: how many entries it leaves
behind. -/
def skip : List (Key × Value) → Option Nat
  | [] => none
  | _ :: next => if next.isEmpty then (skip next).map (· + 1) else some 0

/-- `HashMap::set` -/
def set (m : HashMap function Value) (key : Key) (value : Value) :
    Option (HashMap function Value) :=
  let i := index function key
  match m.entries i with
  | [] => some { entries := Function.update m.entries i [(key, value)] }
  | entry :: next => do
    let n ← skip (entry :: next)
    some { entries :=
      Function.update m.entries i ((entry :: next).take (n + 1) ++ [(key, value)]) }

/-- `HashMap::remove`. Its loop runs while there is no entry. -/
def remove (m : HashMap function Value) (key : Key) : Option (HashMap function Value) :=
  match m.entries (index function key) with
  | [] => none
  | _ :: _ => some m

/-- The loop of `has_key`. -/
def contains (key : Key) : List (Key × Value) → Bool
  | [] => false
  | entry :: next => if entry.1 = key then true else contains key next

/-- `HashMap::has_key` -/
def hasKey (m : HashMap function Value) (key : Key) : Bool :=
  contains key (m.entries (index function key))

/-- The calls `for_each` makes of its callback, in order. -/
def forEach (m : HashMap function Value) : List (Key × Value) :=
  (List.range DefaultSize).flatMap m.entries

/-- A sequence of `set` calls. -/
def sets (m : HashMap function Value) (calls : List (Key × Value)) :
    Option (HashMap function Value) :=
  calls.foldlM (fun m call => m.set call.1 call.2) m

end HashMap

end MatteOS.Utils
