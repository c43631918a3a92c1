import Mathlib.Data.List.Induction
import Mathlib.Logic.Function.Basic
import MatteOS.FileSystem.FileDescriptorTable

/-!
# The file-descriptor table is a finite map

The slots hold the map of the descriptors that were opened and not closed since (`Represents`).
`open` takes the smallest free descriptor, and every operation answers as the map does
(`run_refines`).
-/

namespace MatteOS.FileSystem.FileDescriptorTable

variable {D : Type}

/-! ## The map of a history -/

/-- What an operation that succeeded did. -/
inductive Event (D : Type) where
  | opened (fd : Nat) (descriptor : D)
  | closed (fd : Nat)
  | closedAll

/-- The descriptor last opened at each number and not closed since. -/
def Event.apply (m : Nat → Option D) : Event D → Nat → Option D
  | .opened fd descriptor => Function.update m fd (some descriptor)
  | .closed fd => Function.update m fd none
  | .closedAll => fun _ => none

def openMap (history : List (Event D)) : Nat → Option D :=
  history.foldl Event.apply fun _ => none

/-- A call of an operation. -/
inductive Action (D : Type) where
  | open (descriptor : D)
  | close (fd : Nat)
  | closeAll
  | get (fd : Nat)

/-- A table and what was done with it. -/
structure History (D : Type) where
  table : FileDescriptorTable D
  events : List (Event D)

def History.run (s : History D) : Action D → History D
  | .open descriptor =>
    match s.table.openDescriptor descriptor with
    | (.ok fd, table) => ⟨table, s.events ++ [.opened fd descriptor]⟩
    | (.error _, table) => ⟨table, s.events⟩
  | .close fd =>
    match s.table.close fd with
    | (.ok _, table) => ⟨table, s.events ++ [.closed fd]⟩
    | (.error _, table) => ⟨table, s.events⟩
  | .closeAll =>
    match s.table.closeAll with
    | (.ok _, table) => ⟨table, s.events ++ [.closedAll]⟩
    | (.error _, table) => ⟨table, s.events⟩
  | .get _ => s

def History.runAll (actions : List (Action D)) : History D :=
  actions.foldl History.run ⟨empty, []⟩

/-- The operations answer as a map of descriptors does. -/
structure Refines (table : FileDescriptorTable D) (m : Nat → Option D) : Prop where
  open_least : ∀ descriptor fd table', table.openDescriptor descriptor = (.ok fd, table') →
    fd < MAX_FDS ∧ m fd = none ∧ ∀ j < fd, m j ≠ none
  open_full : ∀ descriptor, (∃ error, (table.openDescriptor descriptor).1 = .error error) ↔
    ∀ fd < MAX_FDS, m fd ≠ none
  open_fails : ∀ descriptor error table',
    table.openDescriptor descriptor = (.error error, table') → table' = table
  get_eq : ∀ fd < MAX_FDS, table.get fd =
    some (match m fd with
      | some descriptor => .ok descriptor
      | none => .error "Invalid file descriptor!")
  close_iff : ∀ fd, (table.close fd).1 = .ok () ↔ m fd ≠ none
  close_fails : ∀ fd error table', table.close fd = (.error error, table') → table' = table
  close_other : ∀ fd j, j ≠ fd → (table.close fd).2.get j = table.get j
  closeAll_get : ∀ fd < MAX_FDS,
    table.closeAll.2.get fd = some (.error "Invalid file descriptor!")

/-! ## The slots -/

variable (table : FileDescriptorTable D)

/-- No operation changes the number of slots. -/
theorem openDescriptor_length (descriptor : D) :
    (table.openDescriptor descriptor).2.fds.length = table.fds.length := by
  unfold openDescriptor
  split
  · exact List.length_set
  · rfl

theorem empty_length : (empty : FileDescriptorTable D).fds.length = MAX_FDS :=
  List.length_replicate

/-- The slots hold the map. -/
structure Represents (m : Nat → Option D) : Prop where
  length : table.fds.length = MAX_FDS
  slots : ∀ fd, m fd = table.fds[fd]?.join

variable {table} {m : Nat → Option D}

theorem represents_empty : (empty : FileDescriptorTable D).Represents fun _ => none where
  length := empty_length
  slots fd := by
    rw [empty, List.getElem?_replicate]
    split <;> rfl

namespace Represents

theorem slot (rep : table.Represents m) {fd : Nat} (inside : fd < MAX_FDS) :
    table.fds[fd]? = some (m fd) := by
  have less : fd < table.fds.length := by
    rw [rep.length]
    exact inside
  rw [rep.slots, List.getElem?_eq_getElem less]
  rfl

theorem outside (rep : table.Represents m) {fd : Nat} (outside : MAX_FDS ≤ fd) :
    table.fds[fd]? = none ∧ m fd = none := by
  have none : table.fds[fd]? = none := by
    rw [List.getElem?_eq_none_iff, rep.length]
    exact outside
  exact ⟨none, by rw [rep.slots, none]; rfl⟩

/-- Writing one slot changes the map there. -/
theorem set (rep : table.Represents m) {fd : Nat} (inside : fd < MAX_FDS) (value : Option D) :
    Represents { fds := table.fds.set fd value } (Function.update m fd value) where
  length := by
    rw [List.length_set]
    exact rep.length
  slots j := by
    have less : fd < table.fds.length := by
      rw [rep.length]
      exact inside
    by_cases same : j = fd
    · subst same
      rw [Function.update_self, List.getElem?_set_self less]
      rfl
    · rw [Function.update_of_ne same, List.getElem?_set_ne (Ne.symm same)]
      exact rep.slots j

/-- **`open`** takes the smallest free slot, if there is one. -/
theorem openDescriptor (rep : table.Represents m) (descriptor : D) :
    (∃ fd < MAX_FDS, m fd = none ∧ (∀ j < fd, m j ≠ none) ∧
      table.openDescriptor descriptor =
        (.ok fd, { fds := table.fds.set fd (some descriptor) })) ∨
    (∀ fd < MAX_FDS, m fd ≠ none) ∧
      table.openDescriptor descriptor = (.error "No free file descriptors!", table) := by
  unfold FileDescriptorTable.openDescriptor
  cases found : table.fds.findIdx? Option.isNone with
  | some fd =>
    obtain ⟨inside, free, first⟩ := List.findIdx?_eq_some_iff_getElem.1 found
    have slot : ∀ j (less : j < table.fds.length), table.fds[j] = m j := fun j less => by
      rw [rep.slots, List.getElem?_eq_getElem less]
      rfl
    refine .inl ⟨fd, rep.length ▸ inside, ?_, fun j less => ?_, rfl⟩
    · rw [← slot fd inside]
      exact Option.isNone_iff_eq_none.1 free
    · have taken := first j less
      rw [slot j (Nat.lt_trans less inside)] at taken
      intro none
      rw [none] at taken
      exact taken rfl
  | none =>
    refine .inr ⟨fun fd inside none => ?_, rfl⟩
    have taken := List.findIdx?_eq_none_iff.1 found _
      (List.mem_of_getElem? (rep.slot inside))
    rw [none] at taken
    cases taken

theorem close (rep : table.Represents m) (fd : Nat) :
    (∃ descriptor, m fd = some descriptor ∧ fd < MAX_FDS ∧
      table.close fd = (.ok (), { fds := table.fds.set fd none })) ∨
    m fd = none ∧ ∃ error, table.close fd = (.error error, table) := by
  unfold FileDescriptorTable.close
  by_cases inside : fd < MAX_FDS
  · rw [rep.slot inside]
    cases m fd with
    | none => exact .inr ⟨rfl, _, rfl⟩
    | some descriptor => exact .inl ⟨descriptor, rfl, inside, rfl⟩
  · obtain ⟨slot, none⟩ := rep.outside (Nat.le_of_not_lt inside)
    rw [slot]
    exact .inr ⟨none, _, rfl⟩

theorem closeAll (rep : table.Represents m) : table.closeAll.2.Represents fun _ => none where
  length := by
    change (table.fds.map fun _ => none).length = MAX_FDS
    rw [List.length_map]
    exact rep.length
  slots fd := by
    change none = (table.fds.map fun _ => (none : Option D))[fd]?.join
    rw [List.getElem?_map]
    cases table.fds[fd]? <;> rfl

theorem get (rep : table.Represents m) {fd : Nat} (inside : fd < MAX_FDS) :
    table.get fd = some (match m fd with
      | some descriptor => .ok descriptor
      | none => .error "Invalid file descriptor!") := by
  rw [FileDescriptorTable.get, rep.slot inside]
  cases m fd <;> rfl

/-- A table that holds a map answers as the map does. -/
theorem refines (rep : table.Represents m) : table.Refines m where
  open_least descriptor fd table' opened := by
    rcases rep.openDescriptor descriptor with ⟨fd', inside, free, first, result⟩ | ⟨-, result⟩
    · rw [result] at opened
      cases opened
      exact ⟨inside, free, first⟩
    · rw [result] at opened
      cases opened
  open_full descriptor := by
    rcases rep.openDescriptor descriptor with ⟨fd, inside, free, -, result⟩ | ⟨full, result⟩
    · rw [result]
      exact ⟨fun ⟨_, failed⟩ => (nomatch failed), fun full => absurd free (full fd inside)⟩
    · rw [result]
      exact ⟨fun _ => full, fun _ => ⟨_, rfl⟩⟩
  open_fails descriptor error table' failed := by
    rcases rep.openDescriptor descriptor with ⟨fd, -, -, -, result⟩ | ⟨-, result⟩
    · rw [result] at failed
      cases failed
    · rw [result] at failed
      cases failed
      rfl
  get_eq fd inside := rep.get inside
  close_iff fd := by
    rcases rep.close fd with ⟨descriptor, held, -, result⟩ | ⟨none, error, result⟩
    · rw [result, held]
      exact ⟨fun _ => nofun, fun _ => rfl⟩
    · rw [result]
      exact ⟨fun closed => (nomatch closed), fun held => absurd none held⟩
  close_fails fd error table' failed := by
    rcases rep.close fd with ⟨descriptor, -, -, result⟩ | ⟨-, error', result⟩
    · rw [result] at failed
      cases failed
    · rw [result] at failed
      cases failed
      rfl
  close_other fd j other := by
    rcases rep.close fd with ⟨descriptor, -, -, result⟩ | ⟨-, error, result⟩
    · rw [result, FileDescriptorTable.get, FileDescriptorTable.get,
        List.getElem?_set_ne (Ne.symm other)]
    · rw [result]
  closeAll_get fd inside := rep.closeAll.get inside

end Represents

/-! ## Runs -/

theorem Represents.run {s : History D} (rep : s.table.Represents (openMap s.events))
    (action : Action D) :
    (s.run action).table.Represents (openMap (s.run action).events) := by
  have extended : ∀ event : Event D,
      openMap (s.events ++ [event]) = event.apply (openMap s.events) :=
    fun event => List.foldl_append
  cases action with
  | «open» descriptor =>
    rcases rep.openDescriptor descriptor with ⟨fd, inside, -, -, result⟩ | ⟨-, result⟩
    · simp only [History.run, result, extended]
      exact rep.set inside _
    · simp only [History.run, result]
      exact rep
  | close fd =>
    rcases rep.close fd with ⟨descriptor, -, inside, result⟩ | ⟨-, error, result⟩
    · simp only [History.run, result, extended]
      exact rep.set inside _
    · simp only [History.run, result]
      exact rep
  | closeAll =>
    simp only [History.run, FileDescriptorTable.closeAll, extended]
    exact rep.closeAll
  | get fd => exact rep

/-- **The file-descriptor table refines a partial map** in every state that is reached. -/
theorem run_refines (actions : List (Action D)) :
    (History.runAll actions).table.Refines (openMap (History.runAll actions).events) := by
  have rep : (History.runAll actions).table.Represents
      (openMap (History.runAll actions).events) := by
    induction actions using List.reverseRecOn with
    | nil => exact represents_empty
    | append_singleton actions action ih =>
      rw [History.runAll, List.foldl_append]
      exact ih.run action
  exact rep.refines

end MatteOS.FileSystem.FileDescriptorTable
