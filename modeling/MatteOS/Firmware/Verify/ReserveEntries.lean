import Mathlib.Data.List.TakeWhile
import MatteOS.Firmware.FDTParser

/-!
# Reserved memory

A memory reservation block is a list of address and size pairs that a pair of zeros ends.
`FDTParser::parse_reserve_entries` goes on only while neither word of an entry is zero, so it
collects the entries up to the first with a zero address or a zero size.
-/

namespace MatteOS.Firmware

open ByteMemory

theorem parseReserveEntries_mono {m : Memory} {fuel fuel' a : Nat} {entries : List FDTReserveEntry}
    (h : parseReserveEntries m fuel a = some entries) (le : fuel ≤ fuel') :
    parseReserveEntries m fuel' a = some entries := by
  induction fuel generalizing fuel' a entries with
  | zero => simp [parseReserveEntries] at h
  | succ fuel ih =>
    obtain ⟨k, rfl⟩ : ∃ k, fuel' = k + 1 := ⟨fuel' - 1, by omega⟩
    simp only [parseReserveEntries] at h ⊢
    split at h
    · rw [if_pos ‹_›]
      obtain ⟨tail, read, rfl⟩ := Option.map_eq_some_iff.1 h
      rw [ih read (by omega)]
      rfl
    · rwa [if_neg ‹_›]

theorem parseReserveEntries_unique {m : Memory} {fuel other a : Nat}
    {entries others : List FDTReserveEntry} (first : parseReserveEntries m fuel a = some entries)
    (second : parseReserveEntries m other a = some others) : entries = others := by
  have one := parseReserveEntries_mono first (Nat.le_max_left fuel other)
  have two := parseReserveEntries_mono second (Nat.le_max_right fuel other)
  exact Option.some.inj (one.symm.trans two)

theorem parseReserveEntries_ends {m : Memory} {n a : Nat} (ends : doubleWord m (a + 16 * n) = 0) :
    ∃ entries, parseReserveEntries m (n + 1) a = some entries := by
  induction n generalizing a with
  | zero => exact ⟨[], by simp_all [parseReserveEntries]⟩
  | succ n ih =>
    rw [Nat.mul_add, Nat.mul_one, Nat.add_comm _ 16, ← Nat.add_assoc] at ends
    obtain ⟨entries, read⟩ := ih ends
    rw [parseReserveEntries]
    split
    · exact ⟨_, by rw [read, Option.map_some]⟩
    · exact ⟨[], rfl⟩

/-- The `FDTReserveEntry` at an address -/
def FDTReserveEntry.at (m : Memory) (address : Nat) : FDTReserveEntry :=
  { address := doubleWord m address, size := doubleWord m (address + 8) }

/-- A memory reservation block at an address: its entries, and the terminator behind them. -/
def ReservationBlock (m : Memory) : Nat → List FDTReserveEntry → Prop
  | a, [] => FDTReserveEntry.at m a = ⟨0, 0⟩
  | a, entry :: entries =>
    FDTReserveEntry.at m a = entry ∧ entry ≠ ⟨0, 0⟩ ∧ ReservationBlock m (a + 16) entries

/-- The test of the loop. -/
def FDTReserveEntry.GoesOn (entry : FDTReserveEntry) : Prop := entry.address ≠ 0 ∧ entry.size ≠ 0

instance (entry : FDTReserveEntry) : Decidable entry.GoesOn :=
  inferInstanceAs (Decidable (_ ∧ _))

theorem parseReserveEntries_succ (m : Memory) (fuel a : Nat) :
    parseReserveEntries m (fuel + 1) a =
      if (FDTReserveEntry.at m a).GoesOn then
        (parseReserveEntries m fuel (a + 16)).map (FDTReserveEntry.at m a :: ·)
      else some [] :=
  rfl

/-- The entries collected are those before the first that the loop does not go on at. -/
theorem ReservationBlock.parseReserveEntries {m : Memory} {a : Nat}
    {entries : List FDTReserveEntry} (block : ReservationBlock m a entries) :
    parseReserveEntries m (entries.length + 1) a =
      some (entries.takeWhile fun entry => entry.GoesOn) := by
  induction entries generalizing a with
  | nil =>
    rw [parseReserveEntries_succ, show FDTReserveEntry.at m a = ⟨0, 0⟩ from block]
    rfl
  | cons entry entries ih =>
    obtain ⟨here, -, rest⟩ := block
    rw [parseReserveEntries_succ, here, List.length_cons, ih rest, List.takeWhile_cons]
    by_cases goesOn : entry.GoesOn
    · simp [goesOn]
    · simp [goesOn]

/-- A memory reservation block is read whole exactly when no entry of it has a zero word. -/
theorem parseReserveEntries_iff {m : Memory} {a : Nat} {entries : List FDTReserveEntry}
    (block : ReservationBlock m a entries) :
    (∃ fuel, parseReserveEntries m fuel a = some entries) ↔
      ∀ entry ∈ entries, entry.address ≠ 0 ∧ entry.size ≠ 0 := by
  have collected := block.parseReserveEntries
  constructor
  · rintro ⟨fuel, run⟩ entry mem
    have whole := parseReserveEntries_unique collected run
    exact of_decide_eq_true (List.takeWhile_eq_self_iff.1 whole entry mem)
  · intro goOn
    have whole : entries.takeWhile (fun entry => entry.GoesOn) = entries :=
      List.takeWhile_eq_self_iff.2 fun entry mem => decide_eq_true (goOn entry mem)
    rw [whole] at collected
    exact ⟨_, collected⟩

/-- One entry, of 4 KiB at address zero. -/
def lowMemory : Memory := fun a => if a = 14 then 0x10 else 0

theorem lowMemory_block : ReservationBlock lowMemory 0 [⟨0, 0x1000⟩] :=
  ⟨by decide +kernel, by decide,
    show FDTReserveEntry.at lowMemory 16 = ⟨0, 0⟩ by decide +kernel⟩

theorem parseReserveEntries_drops :
    ReservationBlock lowMemory 0 [⟨0, 0x1000⟩] ∧
      ¬∃ fuel, parseReserveEntries lowMemory fuel 0 = some [⟨0, 0x1000⟩] := by
  refine ⟨lowMemory_block, ?_⟩
  rintro ⟨fuel, run⟩
  have nothing : parseReserveEntries lowMemory 2 0 = some [] := by decide +kernel
  cases parseReserveEntries_unique nothing run

/-- Two entries, of 4 KiB at the addresses 0x1000 and 0x3000. -/
def highMemory : Memory := fun a =>
  if a = 6 ∨ a = 14 ∨ a = 30 then 0x10 else if a = 22 then 0x30 else 0

theorem highMemory_block : ReservationBlock highMemory 0 [⟨0x1000, 0x1000⟩, ⟨0x3000, 0x1000⟩] :=
  ⟨by decide +kernel, by decide, by decide +kernel, by decide,
    show FDTReserveEntry.at highMemory 32 = ⟨0, 0⟩ by decide +kernel⟩

/-- The block with two entries is read whole, and the one with the entry at zero is not. -/
theorem parseReserveEntries_iff_highMemory :
    (∃ fuel, parseReserveEntries highMemory fuel 0 = some [⟨0x1000, 0x1000⟩, ⟨0x3000, 0x1000⟩]) ∧
      ¬∃ fuel, parseReserveEntries lowMemory fuel 0 = some [⟨0, 0x1000⟩] :=
  ⟨(parseReserveEntries_iff highMemory_block).2 (by decide),
    mt (parseReserveEntries_iff lowMemory_block).1 (by decide)⟩

end MatteOS.Firmware
