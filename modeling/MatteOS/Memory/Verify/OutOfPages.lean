import MatteOS.Memory.Mapping

/-!
# Mapping without free pages

`map` does not look at what `zalloc(1)` returned. When no page is left it makes an entry valid all
the same, with the page at physical address 0 as the next table, and goes on there.
-/

namespace MatteOS.Memory

open ByteMemory

section OutOfPages

variable (pages : Nat → Nat) (root : Nat) (v : VirtualAddress) (level : Nat)

/-- Where the loop of `map` is after the given rounds. -/
def walk (rounds : List Nat) (s : Vm) : Nat × Vm :=
  rounds.foldl (mapStep pages v) (entryAddress root v.vpn2, s)

/-- In some round of the loop of `map` the entry it is at becomes valid, with page 0 as its table. -/
def HangsNullTable (s : Vm) : Prop :=
  ∃ rounds i rest, [1, 0].filter (level ≤ ·) = rounds ++ i :: rest ∧
    ¬ (loadEntry (walk pages root v rounds s).2.memory (walk pages root v rounds s).1).isValid ∧
    (loadEntry (walk pages root v (rounds ++ [i]) s).2.memory
      (walk pages root v rounds s).1).isValid ∧
    (loadEntry (walk pages root v (rounds ++ [i]) s).2.memory
      (walk pages root v rounds s).1).ppn = 0

/-- A call of `map` hangs in no table at physical address 0, leaves the page there alone and keeps
the translations there were. -/
structure KeepsTables (p : PhysicalAddress) (bits : BitVec 64) (s : Vm) : Prop where
  noNullTable : ¬ HangsNullTable pages root v level s
  nullPage : ∀ x < PAGE_SIZE, (map pages root v p bits level s).memory x = s.memory x
  translations : ∀ a q, translate s.memory root a = .ok q →
    translate (map pages root v p bits level s).memory root a = .ok q

end OutOfPages

section NullTable

variable {pages : Nat → Nat} {root : Nat} {v : VirtualAddress} {level : Nat}

/-- A round that gets no page makes the entry lead to page 0. -/
theorem mapStep_of_null {vs : Nat × Vm} (i : Nat)
    (invalid : ¬ (loadEntry vs.2.memory vs.1).isValid) (null : pages vs.2.zallocs = 0) :
    (loadEntry (mapStep pages v vs i).2.memory vs.1).isValid ∧
      (loadEntry (mapStep pages v vs i).2.memory vs.1).ppn = 0 := by
  obtain ⟨a, s⟩ := vs
  have invalid : (loadEntry s.memory a).isValid = false := by simpa using invalid
  have hung : (mapStep pages v (a, s) i).2.memory =
      storeEntry s.memory a (hang (loadEntry s.memory a) 0) := by
    rw [mapStep, (pageStream pages).mapStep_of_invalid invalid]
    simp only [pageStream, zalloc, null, if_true]
    rfl
  simp only [hung, loadEntry_storeEntry]
  refine ⟨rfl, ?_⟩
  change (0 : BitVec 26) ++ (0 : BitVec 9) ++ (0 : BitVec 9) = 0
  decide

/-- The rounds of a loop that were done when it got no page. -/
theorem exists_null_round {rounds : List Nat} {vs : Nat × Vm} {k : Nat}
    (first : vs.2.zallocs ≤ k) (last : k < (rounds.foldl (mapStep pages v) vs).2.zallocs) :
    ∃ done i rest, rounds = done ++ i :: rest ∧
      ¬ (loadEntry (done.foldl (mapStep pages v) vs).2.memory
        (done.foldl (mapStep pages v) vs).1).isValid ∧
      (done.foldl (mapStep pages v) vs).2.zallocs = k := by
  induction rounds generalizing vs with
  | nil => exact absurd last (Nat.not_lt.2 first)
  | cons i rounds ih =>
    by_cases now : k < (mapStep pages v vs i).2.zallocs
    · rw [mapStep_zallocs] at now
      split at now
      · exact absurd now (Nat.not_lt.2 first)
      case isFalse invalid => exact ⟨[], i, rounds, rfl, invalid, by change vs.2.zallocs = k; omega⟩
    · obtain ⟨done, j, rest, rfl, found⟩ := ih (Nat.not_lt.1 now) last
      exact ⟨i :: done, j, rest, rfl, found⟩

/-- Whenever a call of `map` gets no page, it hangs in the table at physical address 0. -/
theorem hangsNullTable_of_null {s : Vm} {p : PhysicalAddress} {bits : BitVec 64} {k : Nat}
    (null : pages k = 0) (first : s.zallocs ≤ k)
    (last : k < (map pages root v p bits level s).zallocs) :
    HangsNullTable pages root v level s := by
  rw [map_eq] at last
  obtain ⟨done, i, rest, rounds, invalid, rfl⟩ : ∃ done i rest,
      [1, 0].filter (level ≤ ·) = done ++ i :: rest ∧
      ¬ (loadEntry (walk pages root v done s).2.memory (walk pages root v done s).1).isValid ∧
      (walk pages root v done s).2.zallocs = k := exists_null_round first last
  refine ⟨done, i, rest, rounds, invalid, ?_⟩
  rw [walk, List.foldl_append]
  exact mapStep_of_null i invalid null

/-- **Running out of pages corrupts the page table**, in every call of `map` in which it happens. -/
theorem not_keepsTables_of_null {s : Vm} {p : PhysicalAddress} {bits : BitVec 64} {k : Nat}
    (null : pages k = 0) (first : s.zallocs ≤ k)
    (last : k < (map pages root v p bits level s).zallocs) :
    ¬ KeepsTables pages root v level p bits s :=
  fun keeps => keeps.noNullTable (hangsNullTable_of_null null first last)

end NullTable

/-- No page is left for a table of the middle level. -/
theorem not_keepsTables_of_null_first :
    ¬ KeepsTables (fun _ => 0) 0x80000000 (.ofU64 0x1000) 0 (.ofU64 0x5000) 0x7
      ⟨fun _ => 0, 0⟩ :=
  not_keepsTables_of_null (k := 0) rfl (Nat.le_refl 0) (by decide +kernel)

/-- A call of `map` for the page 0x1000 of a cleared table when no page is left. -/
theorem exists_not_keepsTables : ¬ ∀ (pages : Nat → Nat) (root : Nat) (v : VirtualAddress)
    (level : Nat) (p : PhysicalAddress) (bits : BitVec 64) (s : Vm),
    (∃ k, pages k = 0 ∧ s.zallocs ≤ k ∧ k < (map pages root v p bits level s).zallocs) →
    KeepsTables pages root v level p bits s := by
  intro keeps
  have last : 0 < (map (fun _ => 0) 0x80000000 (.ofU64 0x1000) (.ofU64 0x5000) 0x7 0
      ⟨fun _ => 0, 0⟩).zallocs := by decide +kernel
  have kept := keeps (fun _ => 0) 0x80000000 (.ofU64 0x1000) 0 (.ofU64 0x5000) 0x7 ⟨fun _ => 0, 0⟩
    ⟨0, rfl, Nat.le_refl 0, last⟩
  exact kept.noNullTable (hangsNullTable_of_null rfl (Nat.le_refl 0) last)

end MatteOS.Memory
