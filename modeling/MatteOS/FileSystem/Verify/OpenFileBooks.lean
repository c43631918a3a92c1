import MatteOS.FileSystem.Verify.OpenFiles
import MatteOS.Lib.Transition

/-!
# What the open-file table counts

`close` asserts that there is one reference to a descriptor while the map and two local variables
refer to it, and `HashMap::remove` leaves it in the map. The table accounts for the opens and
closes of all paths exactly as long as no path in it is closed, each path is created in an empty
bucket, and none is opened `2 ^ 64` times (`accounts_iff`).
-/

namespace MatteOS.FileSystem

open Transition OpenFileDescriptorTable Utils

variable {Inode : Type}

/-- A call of the table; `held` is how many references callers hold when `close` is called. -/
inductive TableCall (Inode : Type) where
  | create (path : Name) (inode : Inode)
  | openPath (path : Name)
  | close (held : Nat → Nat) (path : Name)

/-- The table with the number of successful opens and closes of each path. -/
structure OpenFileBooks (Inode : Type) where
  table : OpenFileDescriptorTable Inode
  opens : Name → Nat
  closes : Name → Nat

namespace OpenFileBooks

/-- The books of a new table. -/
def new (inode : Inode) : OpenFileBooks Inode :=
  { table := .empty inode, opens := fun _ => 0, closes := fun _ => 0 }

def count (counts : Name → Nat) (path : Name) : Name → Nat :=
  Function.update counts path (counts path + 1)

variable (books : OpenFileBooks Inode)

/-- A call, which gives `none` if an assertion fails or a null pointer is followed. -/
def perform : TableCall Inode → Option (OpenFileBooks Inode)
  | .create path inode => do
    let (_, table) ← books.table.createDescriptorAndOpen path inode
    return { books with table, opens := count books.opens path }
  | .openPath path =>
    match books.table.openDescriptor path with
    | (.ok _, table) => some { books with table, opens := count books.opens path }
    | (.error _, table) => some { books with table }
  | .close held path => do
    let (result, table) ← books.table.close false held path
    match result with
    | .ok _ => return { books with table, closes := count books.closes path }
    | .error _ => return { books with table }

/-- A path is present if it was opened more often than closed, and counts the difference. -/
structure Balanced : Prop where
  present : ∀ path, (books.table.registered path).isSome ↔ books.closes path < books.opens path
  openers : ∀ path d, books.table.registered path = some d →
    (books.table.objects d).numberOfOpeners.toNat = books.opens path - books.closes path

/-- To open or close an absent path fails and changes nothing. -/
def Refuses : TableCall Inode → Prop
  | .create _ _ => True
  | .openPath path => books.table.registered path = none →
    ∃ error, books.table.openDescriptor path = (.error error, books.table)
  | .close held path => books.table.registered path = none →
    ∃ error, books.table.close false held path = some (.error error, books.table)

/-- The path of a `create` has an empty bucket, that of an `open` does not get to `2 ^ 64` opens,
and that of a `close` is absent. -/
def Spares : TableCall Inode → Prop
  | .create path _ => ∀ p, (books.table.registered p).isSome → bucket p ≠ bucket path
  | .openPath path => (books.table.registered path).isSome → books.opens path + 1 < 2 ^ 64
  | .close _ path => books.table.registered path = none

section

variable {books} {path : Name} {d : Nat}

/-! ## Absent and present paths -/

/-- The two local variables of `close` alone are more references than it asserts. -/
theorem close_present {table : OpenFileDescriptorTable Inode} (held : Nat → Nat)
    (here : table.registered path = some d) : table.close false held path = none := by
  have present : table.descriptors.hasKey path = true :=
    hasDescriptor_iff.2 (Option.isSome_iff_exists.2 ⟨d, here⟩)
  have many (table : OpenFileDescriptorTable Inode) : (table.refCount held d == 1) = false := by
    rw [beq_eq_false_iff_ne, refCount]
    omega
  rw [registered_eq_some_iff] at here
  simp only [close, present, here, Bool.not_true, Bool.false_eq_true, if_false, setObject,
    HashMap.remove_eq here, Option.bind_eq_bind, Option.bind_some, ite_self, runtimeAssert, many,
    Bool.or_false, Option.bind_none]

theorem refuses (call : TableCall Inode) : books.Refuses call := by
  cases call with
  | create path inode => exact trivial
  | openPath path => exact fun absent => ⟨_, openDescriptor_absent absent⟩
  | close held path => exact fun absent => ⟨_, close_absent false held absent⟩

/-! ## Calls -/

theorem perform_open_absent (absent : books.table.registered path = none) :
    books.perform (.openPath path) = some books := by
  simp only [perform, openDescriptor_absent absent]

theorem perform_open_present (here : books.table.registered path = some d) :
    books.perform (.openPath path) = some
      { books with
        table := books.table.setObject d (books.table.objects d).opened
        opens := count books.opens path } := by
  simp only [perform, openDescriptor_eq here]

theorem perform_close_absent (held : Nat → Nat) (absent : books.table.registered path = none) :
    books.perform (.close held path) = some books := by
  simp only [perform, close_absent false held absent, Option.bind_eq_bind, Option.bind_some]
  rfl

theorem perform_close_present (held : Nat → Nat) (here : books.table.registered path = some d) :
    books.perform (.close held path) = none := by
  simp only [perform, close_present held here, Option.bind_eq_bind, Option.bind_none]

theorem count_self {counts : Name → Nat} : count counts path path = counts path + 1 :=
  Function.update_self _ _ _

theorem count_of_ne {counts : Name → Nat} {p : Name} (other : p ≠ path) :
    count counts path p = counts p :=
  Function.update_of_ne other _ _

end

/-! ## Runs that have been accounted for so far -/

/-- Registered descriptors are objects of their own, and nothing was closed. -/
structure Inv : Prop where
  sparse : books.table.descriptors.Sparse
  created : ∀ p d, books.table.registered p = some d → d < books.table.created
  distinct : ∀ p q d, books.table.registered p = some d → books.table.registered q = some d → p = q
  closes : ∀ p, books.closes p = 0
  balanced : books.Balanced

theorem new_inv (inode : Inode) : (new inode).Inv where
  sparse := HashMap.empty_sparse
  created p d here := by cases here
  distinct p q d here there := by cases here
  closes _ := rfl
  balanced := by
    constructor
    · intro path
      exact iff_of_false Bool.false_ne_true (Nat.lt_irrefl 0)
    · intro path d here
      cases here

namespace Inv

variable {books} {path : Name}

theorem intact (inv : books.Inv) : Intact books.table := ⟨inv.sparse, inv.created, inv.distinct⟩

theorem opens_eq_zero (inv : books.Inv) (absent : books.table.registered path = none) :
    books.opens path = 0 := by
  have balanced := inv.balanced.present path
  rw [absent, inv.closes path] at balanced
  have none : ¬ 0 < books.opens path := fun opened => Bool.false_ne_true (balanced.2 opened)
  omega

/-- A path created in an empty bucket has one opener. -/
theorem create (inv : books.Inv) {inode : Inode} {d : Nat} {table : OpenFileDescriptorTable Inode}
    (absent : books.table.registered path = none)
    (run : books.table.createDescriptorAndOpen path inode = some (d, table)) :
    Inv { books with table, opens := count books.opens path } := by
  obtain ⟨sparse, created, distinct⟩ := inv.intact.create run
  obtain ⟨rfl, -, -, objects, registered⟩ := createDescriptorAndOpen_cases inv.sparse run
  refine ⟨sparse, created, distinct, inv.closes, fun p => ?_, fun p d here => ?_⟩
  · simp only [registered]
    by_cases same : p = path
    · subst same
      rw [if_pos rfl, count_self, inv.closes]
      exact iff_of_true rfl (Nat.succ_pos _)
    · rw [if_neg same, count_of_ne same]
      exact inv.balanced.present p
  · simp only [registered] at here
    simp only [objects]
    by_cases same : p = path
    · subst same
      rw [if_pos rfl] at here
      rw [← Option.some.inj here, Function.update_self, count_self, inv.opens_eq_zero absent,
        inv.closes]
      rfl
    · rw [if_neg same] at here
      have ne : d ≠ books.table.created := Nat.ne_of_lt (inv.created p d here)
      rw [Function.update_of_ne ne, count_of_ne same]
      exact inv.balanced.openers p d here

theorem opened_openers (inv : books.Inv) {d : Nat} (here : books.table.registered path = some d) :
    (books.table.objects d).opened.numberOfOpeners.toNat = (books.opens path + 1) % 2 ^ 64 := by
  have openers := inv.balanced.openers path d here
  rw [inv.closes, Nat.sub_zero] at openers
  rw [OpenFileDescriptor.opened, BitVec.toNat_add, openers]
  rfl

/-- A path that is opened once more counts it, unless that wraps around. -/
theorem opened (inv : books.Inv) {d : Nat} (here : books.table.registered path = some d)
    (few : books.opens path + 1 < 2 ^ 64) :
    Inv { books with
      table := books.table.setObject d (books.table.objects d).opened
      opens := count books.opens path } := by
  have openers := inv.opened_openers here
  refine ⟨inv.sparse, inv.created, inv.distinct, inv.closes, fun p => ?_, fun p d' there => ?_⟩
  · by_cases same : p = path
    · subst same
      simp only [count_self, inv.closes]
      exact iff_of_true (Option.isSome_iff_exists.2 ⟨d, here⟩) (Nat.succ_pos _)
    · simp only [count_of_ne same]
      exact inv.balanced.present p
  · have there : books.table.registered p = some d' := there
    simp only [setObject]
    by_cases same : p = path
    · subst same
      obtain rfl : d = d' := Option.some.inj (here.symm.trans there)
      rw [Function.update_self, openers, count_self, inv.closes, Nat.mod_eq_of_lt few, Nat.sub_zero]
    · have ne : d' ≠ d := by
        rintro rfl
        exact same (inv.distinct _ _ _ there here)
      rw [Function.update_of_ne ne, count_of_ne same]
      exact inv.balanced.openers p d' there

end Inv

/-! ## One call more -/

/-- A `create` is of a path that is not present. -/
def CreatesAbsent (state : Option (OpenFileBooks Inode)) (call : TableCall Inode) : Prop :=
  ∀ books, state = some books → ∀ path inode, call = .create path inode →
    books.table.registered path = none

/-- The call returns, so that no assertion failed, the books are balanced after it, and it fails and
changes nothing if it opens or closes an absent path. -/
def Accounts (state : Option (OpenFileBooks Inode)) (call : TableCall Inode) : Prop :=
  ∃ books, state = some books ∧ books.Refuses call ∧
    ∃ books', books.perform call = some books' ∧ books'.Balanced

/-- The call spares the table. -/
def Sparing (state : Option (OpenFileBooks Inode)) (call : TableCall Inode) : Prop :=
  ∀ books, state = some books → books.Spares call

def step (state : Option (OpenFileBooks Inode)) (call : TableCall Inode) :
    Option (OpenFileBooks Inode) :=
  state.bind fun books => books.perform call

section

variable {books} {call : TableCall Inode}

/-- A call that spares the table leaves the invariant. -/
theorem Inv.of_spares (inv : books.Inv) (absent : CreatesAbsent (some books) call)
    (spares : books.Spares call) : ∃ books', books.perform call = some books' ∧ books'.Inv := by
  cases call with
  | create path inode =>
    have missing := absent books rfl path inode rfl
    obtain ⟨⟨d, table⟩, run⟩ := Option.isSome_iff_exists.1
      ((@createDescriptorAndOpen_isSome_iff _ _ _ inv.sparse inode).2 spares)
    refine ⟨_, ?_, inv.create missing run⟩
    simp only [perform, run]
    rfl
  | openPath path =>
    cases here : books.table.registered path with
    | none => exact ⟨books, perform_open_absent here, inv⟩
    | some d =>
      have few := spares (Option.isSome_iff_exists.2 ⟨d, here⟩)
      exact ⟨_, perform_open_present here, inv.opened here few⟩
  | close held path => exact ⟨books, perform_close_absent held spares, inv⟩

/-- A call that leaves balanced books spares the table. -/
theorem Inv.spares (inv : books.Inv) {books' : OpenFileBooks Inode}
    (run : books.perform call = some books') (balanced : books'.Balanced) :
    books.Spares call := by
  cases call with
  | create path inode =>
    obtain ⟨created, create, -⟩ := Option.bind_eq_some_iff.1 run
    exact (@createDescriptorAndOpen_isSome_iff _ _ _ inv.sparse inode).1
      (Option.isSome_iff_exists.2 ⟨created, create⟩)
  | openPath path =>
    intro present
    obtain ⟨d, here⟩ := Option.isSome_iff_exists.1 present
    rw [perform_open_present here] at run
    obtain rfl := Option.some.inj run
    have openers := balanced.openers path d here
    simp only [setObject, Function.update_self, count_self, inv.closes, Nat.sub_zero] at openers
    rw [inv.opened_openers here] at openers
    exact openers ▸ Nat.mod_lt _ (by decide)
  | close held path =>
    cases here : books.table.registered path with
    | none => exact here
    | some d =>
      rw [perform_close_present held here] at run
      cases run

theorem accounts_iff_of_inv (inv : books.Inv) (absent : CreatesAbsent (some books) call) :
    Accounts (some books) call ↔ Sparing (some books) call := by
  constructor
  · rintro ⟨_, ⟨⟩, -, books', run, balanced⟩ _ ⟨⟩
    exact inv.spares run balanced
  · intro sparing
    obtain ⟨books', run, inv'⟩ := inv.of_spares absent (sparing books rfl)
    exact ⟨books, rfl, refuses call, books', run, inv'.balanced⟩

end

/-- **Accounting.** Along a sequence of calls on a new table that creates only absent paths, each
call returns, fails and changes nothing if it opens or closes an absent path, and leaves exactly the
paths present that were opened more often than closed, with the difference as their number of
openers, if and only if each `create` is in an empty bucket, no `open` is the `2 ^ 64`th of its path
and each `close` is of an absent path. -/
theorem accounts_iff (inode : Inode) (calls : List (TableCall Inode))
    (absent : Along step CreatesAbsent (some (new inode)) calls) :
    Along step Accounts (some (new inode)) calls ↔
      Along step Sparing (some (new inode)) calls := by
  have agree (state : Option (OpenFileBooks Inode)) (call : TableCall Inode)
      (inv : ∃ books, state = some books ∧ books.Inv) (absent : CreatesAbsent state call) :
      Accounts state call ↔ Sparing state call := by
    obtain ⟨books, rfl, inv⟩ := inv
    exact accounts_iff_of_inv inv absent
  refine Along.iff agree ?_ ⟨new inode, rfl, new_inv inode⟩ absent
  rintro state call inv absent accounts
  have sparing := (agree state call inv absent).1 accounts
  obtain ⟨books, rfl, inv⟩ := inv
  exact inv.of_spares absent (sparing books rfl)

theorem accounts_iff_twice :
    Along step Accounts (some (new 0)) [.create [0x61] 1, .openPath [0x61]] := by
  have absent : Along step CreatesAbsent (some (new 0)) [.create [0x61] 1, .openPath [0x61]] := by
    refine ⟨?_, ?_, trivial⟩
    · rintro _ ⟨⟩ path inode create
      rfl
    · rintro books - path inode create
      cases create
  refine (accounts_iff 0 _ absent).2 ⟨?_, ?_, trivial⟩
  · rintro _ ⟨⟩ p present
    cases present
  · rintro _ ⟨⟩ present
    decide

/-- What is created is closed. -/
theorem not_accounts_closed :
    Along step CreatesAbsent (some (new 0)) [.create [0x61] 1, .close (fun _ => 0) [0x61]] ∧
    ¬ Along step Accounts (some (new 0)) [.create [0x61] 1, .close (fun _ => 0) [0x61]] := by
  refine ⟨⟨?_, ?_, trivial⟩, ?_⟩
  · rintro _ ⟨⟩ path inode create
    rfl
  · rintro books - path inode create
    cases create
  · rintro ⟨-, ⟨books, second, -, books', run, -⟩, -⟩
    have here : books.table.registered [0x61] = some 0 := by
      rw [← Option.some.inj second]
      rfl
    rw [perform_close_present _ here] at run
    cases run

end OpenFileBooks

end MatteOS.FileSystem
