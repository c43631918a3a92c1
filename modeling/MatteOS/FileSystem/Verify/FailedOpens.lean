import MatteOS.FileSystem.Verify.OpenFiles

/-!
# Failed opens

`FileSystem::open` returns its errors from inside the loop, past the descriptor that it opened for
the first component and does not close. So a failed call leaves the table as it was exactly if it
fails before that (`sameOpen_iff_failsFirst`).
-/

namespace MatteOS.FileSystem

open Utils Strings OpenFileDescriptorTable

variable {Inode : Type}

/-- The tables that calls of a table lead to. -/
inductive Used : OpenFileDescriptorTable Inode → Prop where
  | empty (inode : Inode) : Used (.empty inode)
  | created {table table' : OpenFileDescriptorTable Inode} {path : Name} {inode : Inode} {d : Nat}
      (before : Used table) (run : table.createDescriptorAndOpen path inode = some (d, table')) :
      Used table'
  | opened {table : OpenFileDescriptorTable Inode} (path : Name) (before : Used table) :
      Used (table.openDescriptor path).2
  | closed {table table' : OpenFileDescriptorTable Inode} {resumes : Bool} {held : Nat → Nat}
      {path : Name} {r : Except String Unit} (before : Used table)
      (run : table.close resumes held path = some (r, table')) : Used table'

/-- The same paths are open, with as many openers. -/
structure SameOpen (table table' : OpenFileDescriptorTable Inode) : Prop where
  paths : ∀ p, (table'.registered p).isSome = (table.registered p).isSome
  openers : ∀ p, table'.openers p = table.openers p

/-- The root is no directory, cannot be listed or does not list the first component, or it has no
child for it and the component is not open. -/
def FailsFirst (tree : FileTree Inode) (table : OpenFileDescriptorTable Inode) (path : Name) : Prop :=
  ∃ name ∈ (split path FileTree.slash).head?,
    Stops tree table tree.root name (FileTree.slash :: name)

/-! ## Tables in use -/

section

variable {table table' : OpenFileDescriptorTable Inode} {path : Name} {d : Nat}

theorem Intact.openDescriptor (intact : Intact table) (path : Name) :
    Intact (table.openDescriptor path).2 := by
  cases here : table.registered path with
  | some d =>
    rw [openDescriptor_eq here]
    exact intact.setObject d _
  | none =>
    rw [openDescriptor_absent here]
    exact intact

theorem Intact.close (intact : Intact table) {resumes : Bool} {held : Nat → Nat}
    {r : Except String Unit} (run : table.close resumes held path = some (r, table')) :
    Intact table' := by
  cases here : table.registered path with
  | some d =>
    rw [close_cases here run]
    exact intact.setObject d _
  | none =>
    rw [close_absent resumes held here] at run
    obtain ⟨-, rfl⟩ := Prod.mk.inj (Option.some.inj run)
    exact intact

theorem Used.intact (used : Used table) : Intact table := by
  induction used with
  | empty inode => exact .empty inode
  | created _ run ih => exact ih.create run
  | opened path _ ih => exact ih.openDescriptor path
  | closed _ run ih => exact ih.close run

end

/-! ## What the loop leaves alone -/

section

variable {tree : FileTree Inode} {table table' : OpenFileDescriptorTable Inode}
  {inode child : Inode} {name path p : Name}

theorem Opens.intact (intact : Intact table) (opens : Opens tree inode name path table child table') :
    Intact table' ∧ ∃ d, table'.registered path = some d := by
  rcases opens with ⟨d, here, -, rfl⟩ | ⟨-, -, d, create⟩
  · exact ⟨intact.setObject d _, d, here⟩
  · obtain ⟨-, -, -, -, registered⟩ := createDescriptorAndOpen_cases intact.sparse create
    exact ⟨intact.create create, d, by rw [registered, if_pos rfl]⟩

theorem Opens.openers_of_ne (intact : Intact table)
    (opens : Opens tree inode name path table child table') (ne : p ≠ path) :
    table'.openers p = table.openers p := by
  rcases opens with ⟨d, here, -, rfl⟩ | ⟨-, -, d, create⟩
  · exact intact.openers_setObject here _ ne
  · exact intact.openers_create create ne

variable [DecidableEq Inode] {resumes : Bool} {held : Nat → Nat}

theorem Round.intact (intact : Intact table)
    (round : Round tree resumes held inode name path table child table') : Intact table' := by
  obtain ⟨opened, opens, close⟩ := round
  have intact' := (opens.intact intact).1
  split at close
  · obtain ⟨r, close⟩ := close
    exact intact'.close close
  · rwa [close]

theorem Round.openers_of_ne (intact : Intact table)
    (round : Round tree resumes held inode name path table child table') (ne : p ≠ path) :
    table'.openers p = table.openers p := by
  obtain ⟨opened, opens, close⟩ := round
  obtain ⟨intact', d, here⟩ := opens.intact intact
  have before := opens.openers_of_ne intact ne
  split at close
  · obtain ⟨r, close⟩ := close
    rw [close_cases here close, intact'.openers_setObject here _ ne]
    exact before
  · rwa [close]

/-- The loop does not touch paths that are no longer than the prefix it has come to. -/
theorem traverse_frame {pathSoFar : Name} {parts : List Name} {r : Except String Nat}
    (intact : Intact table)
    (run : tree.traverse resumes held path parts inode pathSoFar table = some (r, table'))
    (short : p.length ≤ pathSoFar.length) :
    table'.registered p = table.registered p ∧ table'.openers p = table.openers p := by
  induction parts generalizing inode pathSoFar table with
  | nil =>
    obtain ⟨-, rfl⟩ := Prod.mk.inj (Option.some.inj run)
    exact ⟨rfl, rfl⟩
  | cons name parts ih =>
    rcases traverse_cons run with ⟨-, rfl, -⟩ | ⟨child, middle, round, rest⟩
    · exact ⟨rfl, rfl⟩
    · have ne : p ≠ pathSoFar ++ FileTree.slash :: name := by
        rintro rfl
        rw [List.length_append, List.length_cons] at short
        omega
      obtain ⟨registered, openers⟩ := ih (round.intact intact) rest
        (by rw [List.length_append]; exact Nat.le_add_right_of_le short)
      exact ⟨registered.trans (round.registered_of_ne intact ne),
        openers.trans (round.openers_of_ne intact ne)⟩

/-- In the root directory, a round opens a path and leaves it open. -/
theorem Round.opened (intact : Intact table)
    (round : Round tree resumes held tree.root name path table child table')
    (paths : (table'.registered path).isSome = (table.registered path).isSome) :
    table'.openers path ≠ table.openers path := by
  obtain ⟨opened, opens, close⟩ := round
  rw [if_neg (not_not.2 rfl)] at close
  subst close
  rcases opens with ⟨d, here, -, rfl⟩ | ⟨absent, -, d, create⟩
  · have here' : (table.setObject d (table.objects d).opened).registered path = some d := here
    rw [openers_eq here, openers_eq here']
    simp [setObject, OpenFileDescriptor.opened]
  · obtain ⟨-, -, -, -, registered⟩ := createDescriptorAndOpen_cases intact.sparse create
    rw [registered, if_pos rfl, absent] at paths
    cases paths

/-- A call that stops at a component has changed nothing since. -/
theorem traverse_of_stops {pathSoFar : Name} {parts : List Name}
    (stops : Stops tree table inode name (pathSoFar ++ FileTree.slash :: name)) :
    ∃ error, tree.traverse resumes held path (name :: parts) inode pathSoFar table =
      some (.error error, table) := by
  unfold FileTree.traverse
  cases directory : tree.isDirectory inode with
  | false => exact ⟨_, rfl⟩
  | true =>
    cases list : tree.listDir inode with
    | error error => exact ⟨error, rfl⟩
    | ok entries =>
      cases listed : entries.any fun entry => Utils.Strings.equals entry name with
      | false =>
        simp only [listed]
        exact ⟨_, rfl⟩
      | true =>
        -- only the last reason to stop is left
        rcases stops with file | missing | ⟨absent, lost⟩
        · rw [directory] at file
          cases file
        · rw [missing entries list] at listed
          cases listed
        · cases get : tree.getChild inode name with
          | ok child => exact absurd get (lost child)
          | error error =>
            have closed : table.hasDescriptor (pathSoFar ++ FileTree.slash :: name) = false :=
              hasKey_eq_false absent
            simp only [listed, closed]
            exact ⟨error, rfl⟩

/-- A call that fails has gone through the loop. -/
theorem openPath_error {error : String}
    (failed : tree.openPath resumes held table path = some (.error error, table')) :
    ∃ name parts, split path FileTree.slash = name :: parts ∧
      tree.traverse resumes held path (name :: parts) tree.root [] table =
        some (.error error, table') := by
  unfold FileTree.openPath at failed
  split at failed
  · rename_i present
    obtain ⟨d, here⟩ := Option.isSome_iff_exists.1 (hasDescriptor_iff.1 present)
    rw [openDescriptor_eq here] at failed
    cases failed
  · cases parts : split path FileTree.slash with
    | nil =>
      rw [parts] at failed
      obtain ⟨⟨d, created⟩, -, last⟩ := Option.bind_eq_some_iff.1 failed
      cases last
    | cons name parts' =>
      rw [parts] at failed
      exact ⟨name, parts', rfl, failed⟩

/-- **Failed opens.** In any table in use, a call of `open` that returns an error leaves the same paths
open with the same numbers of openers if and only if it fails at the first component. -/
theorem sameOpen_iff_failsFirst (used : Used table) {error : String}
    (failed : tree.openPath resumes held table path = some (.error error, table')) :
    SameOpen table table' ↔ FailsFirst tree table path := by
  obtain ⟨name, parts, split, run⟩ := openPath_error failed
  have first : FailsFirst tree table path ↔
      Stops tree table tree.root name ([] ++ FileTree.slash :: name) := by
    simp [FailsFirst, split]
  rw [first]
  constructor
  · rintro ⟨paths, openers⟩
    rcases traverse_cons run with ⟨-, -, stops⟩ | ⟨child, middle, round, rest⟩
    · exact stops
    · have intact := used.intact
      obtain ⟨registered, same⟩ := traverse_frame (round.intact intact) rest (Nat.le_refl _)
      have paths := paths ([] ++ FileTree.slash :: name)
      rw [registered] at paths
      exact absurd (same.symm.trans (openers _)) (round.opened intact paths)
  · intro stops
    obtain ⟨error', run'⟩ := traverse_of_stops stops
    obtain ⟨-, rfl⟩ := Prod.mk.inj (Option.some.inj (run.symm.trans run'))
    exact ⟨fun _ => rfl, fun _ => rfl⟩

end

/-- `/c` is not listed in the root. -/
theorem sameOpen_iff_failsFirst_c : ∃ error table',
    sampleTree.openPath false (fun _ => 0) (.empty 0) [0x2f, 0x63] = some (.error error, table') ∧
    SameOpen (.empty 0) table' := by
  have failed : sampleTree.openPath false (fun _ => 0) (.empty 0) [0x2f, 0x63] =
      some (.error "Path not found", .empty 0) := rfl
  refine ⟨_, _, failed, (sameOpen_iff_failsFirst (.empty 0) failed).2 ⟨[0x63], ?_, ?_⟩⟩
  · decide
  · refine Or.inr (Or.inl ?_)
    rintro entries ⟨⟩
    decide

/-- `/a/c` is not listed in `/a`, which stays open. -/
theorem not_sameOpen_a_c : ∃ error table',
    sampleTree.openPath false (fun _ => 0) (.empty 0) [0x2f, 0x61, 0x2f, 0x63] =
      some (.error error, table') ∧
    ¬ SameOpen (.empty 0) table' :=
  ⟨_, _, rfl, fun same => absurd (same.paths [0x2f, 0x61]) (by decide)⟩

end MatteOS.FileSystem
