import MatteOS.Utils.Assertions

/-!
# Blocks of bytes

Blocks, and the functions on them: `memcmp` tells whether the first bytes of two blocks are equal,
and `memcpy` and `memset` count with an `int`.
-/

namespace MatteOS.Utils

/-- Bytes that a `size_t` counts. -/
abbrev Bytes64 := { bytes : List (BitVec 8) // bytes.length < 2 ^ 64 }

/-- How often `for(; n; n--)` goes around for a count that is handed over as an `int`. A negative one
overflows in the end. -/
def intRounds (n : Nat) : Except Fault Nat :=
  if n % 2 ^ 32 < 2 ^ 31 then .ok (n % 2 ^ 32) else .error .undefined

/-- `memcmp`, which is true for equal bytes. -/
def memcmp : List (BitVec 8) → List (BitVec 8) → Nat → Except Fault Bool
  | _, _, 0 => .ok true
  | byte :: ptr1, byte' :: ptr2, num + 1 =>
    if byte ≠ byte' then .ok false else memcmp ptr1 ptr2 num
  | _, _, _ + 1 => .error .undefined

/-- Inside both blocks `memcmp` compares their first bytes. -/
theorem memcmp_eq {ptr1 ptr2 : List (BitVec 8)} {num : Nat} (inside : num ≤ ptr1.length)
    (inside' : num ≤ ptr2.length) :
    memcmp ptr1 ptr2 num = .ok (decide (ptr1.take num = ptr2.take num)) := by
  induction num generalizing ptr1 ptr2 with
  | zero => simp [memcmp]
  | succ num ih =>
    cases ptr1 with
    | nil => cases inside
    | cons byte ptr1 =>
      cases ptr2 with
      | nil => cases inside'
      | cons byte' ptr2 =>
        rw [memcmp, ih (Nat.le_of_succ_le_succ inside) (Nat.le_of_succ_le_succ inside'),
          List.take_succ_cons, List.take_succ_cons]
        by_cases same : byte = byte' <;> simp [same]

end MatteOS.Utils
