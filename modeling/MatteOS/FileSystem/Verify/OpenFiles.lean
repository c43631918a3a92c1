import MatteOS.FileSystem.FileSystem
import MatteOS.Utils.Verify.HashMap
import MatteOS.Utils.Verify.Strings

/-!
# When opening a path keeps the table balanced

`FileSystem::open` registers each prefix of a path, and from the second component on it closes
the descriptor it has just opened, the last one included, while the first one stays open. A
path that is not registered yet is opened as it should be exactly if it has one component
and its bucket of the hash map is empty (`openPath_balanced_iff`).
-/

namespace MatteOS.FileSystem

open Utils

variable {Inode : Type}

namespace OpenFileDescriptorTable

variable {table table' : OpenFileDescriptorTable Inode}

/-- The descriptor registered under a path. -/
def registered (table : OpenFileDescriptorTable Inode) (path : Name) : Option Nat :=
  (table.descriptors.get path).toOption

/-- The opener count of a path, 0 where it is not registered. -/
def openers (table : OpenFileDescriptorTable Inode) (path : Name) : BitVec 64 :=
  match table.registered path with
  | some d => (table.objects d).numberOfOpeners
  | none => 0

/-- The bucket of a path. -/
def bucket (path : Name) : Nat := HashMap.index HashFunctions.djb2 path

theorem registered_eq_some_iff {path : Name} {d : Nat} :
    table.registered path = some d ↔ table.descriptors.get path = .ok d := by
  unfold registered
  cases table.descriptors.get path <;> simp [Except.toOption]

theorem hasDescriptor_iff {path : Name} :
    table.hasDescriptor path = true ↔ (table.registered path).isSome := by
  rw [hasDescriptor, HashMap.hasKey_iff, Option.isSome_iff_exists]
  simp only [registered_eq_some_iff]

theorem openers_eq {path : Name} {d : Nat} (h : table.registered path = some d) :
    table.openers path = (table.objects d).numberOfOpeners := by
  simp only [openers, h]

/-! ## Operations -/

section

variable {path : Name} {d : Nat}

theorem openDescriptor_eq (h : table.registered path = some d) :
    table.openDescriptor path = (.ok d, table.setObject d (table.objects d).opened) := by
  have present : table.descriptors.hasKey path = true :=
    hasDescriptor_iff.2 (Option.isSome_iff_exists.2 ⟨d, h⟩)
  rw [registered_eq_some_iff] at h
  simp only [openDescriptor, present, h, Bool.not_true, Bool.false_eq_true, if_false]

theorem getDescriptor_eq (h : table.registered path = some d) :
    table.getDescriptor path = .ok d := by
  have present : table.descriptors.hasKey path = true :=
    hasDescriptor_iff.2 (Option.isSome_iff_exists.2 ⟨d, h⟩)
  rw [registered_eq_some_iff] at h
  simp only [getDescriptor, present, h, Bool.not_true, Bool.false_eq_true, if_false]

theorem hasKey_eq_false (absent : table.registered path = none) :
    table.descriptors.hasKey path = false := by
  have missing : ¬ table.hasDescriptor path = true := by
    rw [hasDescriptor_iff, absent]
    exact Bool.false_ne_true
  exact Bool.eq_false_iff.2 missing

theorem openDescriptor_absent (absent : table.registered path = none) :
    table.openDescriptor path = (.error "File not found, cannot open", table) := by
  simp only [openDescriptor, hasKey_eq_false absent, Bool.not_false, if_true]

theorem close_absent (resumes : Bool) (held : Nat → Nat)
    (absent : table.registered path = none) :
    table.close resumes held path = some (.error "File not found, cannot close", table) := by
  simp only [close, hasKey_eq_false absent, Bool.not_false, if_true]

/-- A `close` that returns has counted down and left the path in the map. -/
theorem close_cases {resumes : Bool} {held : Nat → Nat} {r : Except String Unit}
    (h : table.registered path = some d) (run : table.close resumes held path = some (r, table')) :
    table' = table.setObject d (table.objects d).closed.2 := by
  have present : table.descriptors.hasKey path = true :=
    hasDescriptor_iff.2 (Option.isSome_iff_exists.2 ⟨d, h⟩)
  rw [registered_eq_some_iff] at h
  simp only [close, present, h, Bool.not_true, Bool.false_eq_true, if_false] at run
  simp only [setObject, HashMap.remove_eq h, Option.bind_eq_bind, Option.bind_some, ite_self] at run
  obtain ⟨-, -, run⟩ := Option.bind_eq_some_iff.1 run
  exact (congrArg Prod.snd (Option.some.inj run)).symm

/-- A path can be registered where its bucket is empty. -/
theorem createDescriptorAndOpen_isSome_iff (sparse : table.descriptors.Sparse) {inode : Inode} :
    (table.createDescriptorAndOpen path inode).isSome ↔
      ∀ p, (table.registered p).isSome → bucket p ≠ bucket path := by
  simp only [← hasDescriptor_iff]
  refine Iff.trans ?_ (@HashMap.Sparse.set_isSome_iff _ _ _ _ _ path table.created sparse)
  unfold createDescriptorAndOpen
  simp only [setObject, Option.bind_eq_bind]
  cases table.descriptors.set path table.created <;> rfl

theorem createDescriptorAndOpen_cases (sparse : table.descriptors.Sparse) {inode : Inode}
    (run : table.createDescriptorAndOpen path inode = some (d, table')) :
    d = table.created ∧ table'.descriptors.Sparse ∧ table'.created = table.created + 1 ∧
      table'.objects = Function.update table.objects d (OpenFileDescriptor.new inode).opened ∧
      ∀ p, table'.registered p = if p = path then some d else table.registered p := by
  unfold createDescriptorAndOpen at run
  obtain ⟨descriptors, set, run⟩ := Option.bind_eq_some_iff.1 run
  obtain ⟨rfl, rfl⟩ : table.created = d ∧ _ = table' := by simpa using run
  refine ⟨rfl, sparse.set set, rfl, rfl, fun p => ?_⟩
  simp only [registered, sparse.get_set set]
  split <;> rfl

end

end OpenFileDescriptorTable

/-! ## Paths in a tree -/

open Strings

namespace FileTree

variable (tree : FileTree Inode)

/-- The child of a directory that lists it. -/
def child (inode : Inode) (name : Name) : Option Inode :=
  if tree.isDirectory inode then
    match tree.listDir inode with
    | .error _ => none
    | .ok entries =>
      if entries.any fun entry => Utils.Strings.equals entry name then (tree.getChild inode name).toOption
      else none
  else none

/-- The inode reached by following components. -/
def follow (inode : Inode) (names : List Name) : Option Inode := names.foldlM tree.child inode

variable {tree}

theorem follow_concat {inode : Inode} {names : List Name} {name : Name} :
    tree.follow inode (names ++ [name]) =
      (tree.follow inode names).bind fun inode => tree.child inode name := by
  simp [follow, List.foldlM_append]

theorem child_cases {inode child : Inode} {name : Name} (h : tree.child inode name = some child) :
    tree.isDirectory inode = true ∧ (∃ entries, tree.listDir inode = .ok entries ∧
      (entries.any fun entry => Utils.Strings.equals entry name) = true) ∧
      tree.getChild inode name = .ok child := by
  unfold FileTree.child at h
  split at h
  swap
  · cases h
  rename_i directory
  split at h
  · cases h
  rename_i entries list
  split at h
  swap
  · cases h
  rename_i listed
  refine ⟨directory, ⟨entries, list, listed⟩, ?_⟩
  cases get : tree.getChild inode name with
  | error error =>
    rw [get] at h
    cases h
  | ok inode' =>
    rw [get] at h
    rw [Option.some.inj h]

/-- Only the empty path leads to the root. -/
theorem follow_ne_root {names : List Name} {name : Name} {inode : Inode}
    (h : tree.follow tree.root (names ++ [name]) = some inode) : inode ≠ tree.root := by
  rw [follow_concat] at h
  obtain ⟨directory, -, last⟩ := Option.bind_eq_some_iff.1 h
  exact tree.child_ne_root _ _ _ (child_cases last).2.2

end FileTree

/-- A name that can be a component of a path. -/
abbrev IsComponent (name : Name) : Prop := IsPart FileTree.slash name

/-- The path with these components. -/
abbrev pathOf (names : List Name) : Name := join FileTree.slash names

theorem pathOf_injective {names names' : List Name} (valid : ∀ name ∈ names, IsComponent name)
    (valid' : ∀ name ∈ names', IsComponent name) (same : pathOf names = pathOf names') :
    names = names' := by
  rw [← split_join valid, ← split_join valid']
  exact congrArg (split · FileTree.slash) same

/-! ## Consistent tables -/

open OpenFileDescriptorTable

/-- Registered descriptors are objects of their own. -/
structure Intact (table : OpenFileDescriptorTable Inode) : Prop where
  sparse : table.descriptors.Sparse
  created : ∀ p d, table.registered p = some d → d < table.created
  distinct : ∀ p q d, table.registered p = some d → table.registered q = some d → p = q

namespace Intact

variable {table table' : OpenFileDescriptorTable Inode} {path p : Name} {d : Nat}

theorem empty (inode : Inode) : Intact (.empty inode) where
  sparse := HashMap.empty_sparse
  created p d h := by cases h
  distinct p q d h := by cases h

theorem setObject (intact : Intact table) (d : Nat) (descriptor : OpenFileDescriptor Inode) :
    Intact (table.setObject d descriptor) :=
  ⟨intact.sparse, intact.created, intact.distinct⟩

theorem create (intact : Intact table) {inode : Inode}
    (run : table.createDescriptorAndOpen path inode = some (d, table')) : Intact table' := by
  obtain ⟨rfl, sparse, created, -, registered⟩ := createDescriptorAndOpen_cases intact.sparse run
  have old (p : Name) (h : table.registered p = some table.created) : False :=
    Nat.lt_irrefl _ (intact.created p _ h)
  refine ⟨sparse, fun p d h => ?_, fun p q d hp hq => ?_⟩
  · rw [registered] at h
    rw [created]
    split at h
    · rw [← Option.some.inj h]
      exact Nat.lt_succ_self _
    · exact Nat.lt_succ_of_lt (intact.created p d h)
  · rw [registered] at hp hq
    split at hp <;> split at hq
    · rename_i ep eq
      rw [ep, eq]
    · exact (old q (hq.trans hp.symm)).elim
    · exact (old p (hp.trans hq.symm)).elim
    · exact intact.distinct p q d hp hq

/-- No other path has the descriptor of a path. -/
theorem openers_setObject (intact : Intact table) (here : table.registered path = some d)
    (descriptor : OpenFileDescriptor Inode) (ne : p ≠ path) :
    (table.setObject d descriptor).openers p = table.openers p := by
  cases there : table.registered p with
  | none =>
    have there' : (table.setObject d descriptor).registered p = none := there
    simp only [openers, there, there']
  | some d' =>
    have there' : (table.setObject d descriptor).registered p = some d' := there
    have other : d' ≠ d := by
      rintro rfl
      exact ne (intact.distinct _ _ _ there here)
    rw [openers_eq there, openers_eq there']
    simp [OpenFileDescriptorTable.setObject, Function.update_of_ne other]

theorem openers_create (intact : Intact table) {inode : Inode}
    (run : table.createDescriptorAndOpen path inode = some (d, table')) (ne : p ≠ path) :
    table'.openers p = table.openers p := by
  obtain ⟨rfl, -, -, objects, registered⟩ := createDescriptorAndOpen_cases intact.sparse run
  have same : table'.registered p = table.registered p := by rw [registered, if_neg ne]
  cases there : table.registered p with
  | none => simp only [openers, same, there]
  | some d =>
    have other : d ≠ table.created := Nat.ne_of_lt (intact.created p d there)
    rw [openers_eq there, openers_eq (same.trans there), objects, Function.update_of_ne other]

end Intact

/-- Registered descriptors are objects of their own and wrap the inode their path leads to. -/
structure Consistent (tree : FileTree Inode) (table : OpenFileDescriptorTable Inode) : Prop where
  sparse : table.descriptors.Sparse
  created : ∀ p d, table.registered p = some d → d < table.created
  distinct : ∀ p q d, table.registered p = some d → table.registered q = some d → p = q
  reached : ∀ names d, names ≠ [] → (∀ name ∈ names, IsComponent name) →
    table.registered (pathOf names) = some d →
    tree.follow tree.root names = some (table.objects d).inode

theorem empty_consistent (tree : FileTree Inode) : Consistent tree (.empty tree.root) where
  sparse := HashMap.empty_sparse
  created p d h := by cases h
  distinct p q d h := by cases h
  reached names d _ _ h := by cases h

namespace Consistent

variable {tree : FileTree Inode} {table table' : OpenFileDescriptorTable Inode}

/-- Counting openers. -/
theorem setObject (cons : Consistent tree table) {d : Nat} {descriptor : OpenFileDescriptor Inode}
    (same : descriptor.inode = (table.objects d).inode) :
    Consistent tree (table.setObject d descriptor) where
  sparse := cons.sparse
  created := cons.created
  distinct := cons.distinct
  reached names d' ne valid h := by
    rw [cons.reached names d' ne valid h]
    simp only [OpenFileDescriptorTable.setObject]
    by_cases e : d' = d
    · subst e
      rw [Function.update_self, same]
    · rw [Function.update_of_ne e]

theorem intact (cons : Consistent tree table) : Intact table :=
  ⟨cons.sparse, cons.created, cons.distinct⟩

/-- Registering a path with the inode it leads to. -/
theorem create (cons : Consistent tree table) {path : Name} {inode : Inode} {d : Nat}
    (run : table.createDescriptorAndOpen path inode = some (d, table'))
    (leads : ∀ names, names ≠ [] → (∀ name ∈ names, IsComponent name) → pathOf names = path →
      tree.follow tree.root names = some inode) : Consistent tree table' := by
  obtain ⟨sparse, created, distinct⟩ := cons.intact.create run
  obtain ⟨rfl, -, -, objects, registered⟩ := createDescriptorAndOpen_cases cons.sparse run
  refine ⟨sparse, created, distinct, fun names d ne valid h => ?_⟩
  rw [registered] at h
  rw [objects]
  split at h
  · rename_i same
    obtain rfl := Option.some.inj h
    rw [Function.update_self, leads names ne valid same]
    rfl
  · have other : d ≠ table.created := Nat.ne_of_lt (cons.created _ d h)
    rw [Function.update_of_ne other]
    exact cons.reached names d ne valid h

end Consistent

/-! ## Rounds of the loop -/

/-- The descriptor of a prefix is opened, or created for the child; `child` is the next inode. -/
def Opens (tree : FileTree Inode) (inode : Inode) (name path : Name)
    (table : OpenFileDescriptorTable Inode) (child : Inode)
    (table' : OpenFileDescriptorTable Inode) : Prop :=
  (∃ d, table.registered path = some d ∧ child = (table.objects d).inode ∧
    table' = table.setObject d (table.objects d).opened) ∨
  (table.registered path = none ∧ tree.child inode name = some child ∧
    ∃ d, table.createDescriptorAndOpen path child = some (d, table'))

/-- A round is not begun: the inode is no directory, does not list the name, or has no child for a
prefix that is not registered. -/
def Stops (tree : FileTree Inode) (table : OpenFileDescriptorTable Inode) (inode : Inode)
    (name path : Name) : Prop :=
  tree.isDirectory inode = false ∨
  (∀ entries, tree.listDir inode = .ok entries →
    (entries.any fun entry => Utils.Strings.equals entry name) = false) ∨
  (table.registered path = none ∧ ∀ child, tree.getChild inode name ≠ .ok child)

/-- The descriptor of the prefix is registered and wraps the inode the prefix leads to. -/
theorem Opens.consistent {tree : FileTree Inode} {table table' : OpenFileDescriptorTable Inode}
    (cons : Consistent tree table) {names : List Name} {name : Name} {inode child : Inode}
    (valid : ∀ part ∈ names ++ [name], IsComponent part)
    (reached : tree.follow tree.root names = some inode)
    (opens : Opens tree inode name (pathOf (names ++ [name])) table child table') :
    Consistent tree table' ∧ tree.follow tree.root (names ++ [name]) = some child ∧
      ∃ d, table'.registered (pathOf (names ++ [name])) = some d := by
  rcases opens with ⟨d, here, rfl, rfl⟩ | ⟨absent, leads, d, create⟩
  · exact ⟨cons.setObject rfl, cons.reached _ _ (by simp) valid here, d, here⟩
  · have follows : tree.follow tree.root (names ++ [name]) = some child := by
      rw [FileTree.follow_concat, reached]
      exact leads
    obtain ⟨-, -, -, -, registered⟩ := createDescriptorAndOpen_cases cons.sparse create
    refine ⟨cons.create create fun other _ valid' same => ?_, follows, d, ?_⟩
    · rw [pathOf_injective valid' valid same]
      exact follows
    · rw [registered, if_pos rfl]

section

variable [DecidableEq Inode] {tree : FileTree Inode} {resumes : Bool} {held : Nat → Nat}
  {table table' : OpenFileDescriptorTable Inode}

/-- A round: the descriptor of the prefix is opened, and closed again unless `inode` is the root. -/
def Round (tree : FileTree Inode) (resumes : Bool) (held : Nat → Nat) (inode : Inode)
    (name path : Name) (table : OpenFileDescriptorTable Inode) (child : Inode)
    (table' : OpenFileDescriptorTable Inode) : Prop :=
  ∃ opened, Opens tree inode name path table child opened ∧
    if tree.root ≠ inode then ∃ r, opened.close resumes held path = some (r, table')
    else table' = opened

/-- A call of the loop that returns has stopped with an error or gone through a round. -/
theorem traverse_cons {path pathSoFar name : Name} {parts : List Name} {inode : Inode}
    {r : Except String Nat}
    (run : tree.traverse resumes held path (name :: parts) inode pathSoFar table =
      some (r, table')) :
    ((∃ error, r = .error error) ∧ table' = table ∧
      Stops tree table inode name (pathSoFar ++ FileTree.slash :: name)) ∨
    ∃ child middle, Round tree resumes held inode name (pathSoFar ++ FileTree.slash :: name) table
        child middle ∧
      tree.traverse resumes held path parts child (pathSoFar ++ FileTree.slash :: name) middle =
        some (r, table') := by
  have failed {error : String} (e : some ((.error error : Except String Nat), table) =
      some (r, table')) : (∃ error, r = .error error) ∧ table' = table := by
    obtain ⟨rfl, rfl⟩ := Prod.mk.inj (Option.some.inj e)
    exact ⟨⟨_, rfl⟩, rfl⟩
  unfold FileTree.traverse at run
  split at run
  · rename_i file
    obtain ⟨error, same⟩ := failed run
    exact Or.inl ⟨error, same, Or.inl (by simpa using file)⟩
  rename_i directory
  split at run
  · rename_i unreadable
    obtain ⟨error, same⟩ := failed run
    refine Or.inl ⟨error, same, Or.inr (Or.inl fun entries list => ?_)⟩
    rw [unreadable] at list
    cases list
  rename_i entries list
  split at run
  · rename_i missing
    obtain ⟨error, same⟩ := failed run
    refine Or.inl ⟨error, same, Or.inr (Or.inl fun entries' list' => ?_)⟩
    rw [← Except.ok.inj (list.symm.trans list')]
    simpa using missing
  rename_i listed
  -- what follows once the descriptor is open
  have rest {child : Inode} {opened : OpenFileDescriptorTable Inode}
      (opens : Opens tree inode name (pathSoFar ++ FileTree.slash :: name) table child opened)
      (next : (if tree.root ≠ inode then
          (opened.close resumes held (pathSoFar ++ FileTree.slash :: name)).bind fun x =>
            tree.traverse resumes held path parts child (pathSoFar ++ FileTree.slash :: name) x.2
        else tree.traverse resumes held path parts child (pathSoFar ++ FileTree.slash :: name)
          opened) = some (r, table')) :
      ∃ child middle, Round tree resumes held inode name (pathSoFar ++ FileTree.slash :: name)
          table child middle ∧
        tree.traverse resumes held path parts child (pathSoFar ++ FileTree.slash :: name) middle =
          some (r, table') := by
    by_cases deeper : tree.root ≠ inode
    · rw [if_pos deeper] at next
      obtain ⟨⟨r', middle⟩, close, next⟩ := Option.bind_eq_some_iff.1 next
      exact ⟨child, middle, ⟨opened, opens, by rw [if_pos deeper]; exact ⟨r', close⟩⟩, next⟩
    · rw [if_neg deeper] at next
      exact ⟨child, opened, ⟨opened, opens, by rw [if_neg deeper]⟩, next⟩
  simp only at run
  split at run
  · rename_i present
    obtain ⟨d, here⟩ := Option.isSome_iff_exists.1 (hasDescriptor_iff.1 present)
    have same : ((table.setObject d (table.objects d).opened).objects d).inode =
        (table.objects d).inode := by
      simp [OpenFileDescriptorTable.setObject, OpenFileDescriptor.opened]
    rw [openDescriptor_eq here] at run
    simp only [same] at run
    exact Or.inr (rest (Or.inl ⟨d, here, rfl, rfl⟩) run)
  rename_i absent
  rw [hasDescriptor_iff, Option.isSome_iff_ne_none, not_not] at absent
  split at run
  · rename_i lost
    obtain ⟨error, same⟩ := failed run
    refine Or.inl ⟨error, same, Or.inr (Or.inr ⟨absent, fun child get => ?_⟩)⟩
    rw [lost] at get
    cases get
  rename_i child get
  obtain ⟨⟨d, opened⟩, create, next⟩ := Option.bind_eq_some_iff.1 run
  refine Or.inr (rest (Or.inr ⟨absent, ?_, d, create⟩) next)
  simp only [Bool.not_eq_true', Bool.not_eq_false] at directory listed
  simp [FileTree.child, directory, list, listed, get, Except.toOption]

theorem Round.consistent (cons : Consistent tree table) {names : List Name} {name : Name}
    {inode child : Inode} (valid : ∀ part ∈ names ++ [name], IsComponent part)
    (reached : tree.follow tree.root names = some inode)
    (round : Round tree resumes held inode name (pathOf (names ++ [name])) table child table') :
    Consistent tree table' ∧ tree.follow tree.root (names ++ [name]) = some child := by
  obtain ⟨opened, opens, close⟩ := round
  obtain ⟨cons', follows, d, here⟩ := opens.consistent cons valid reached
  refine ⟨?_, follows⟩
  split at close
  · obtain ⟨r, close⟩ := close
    rw [close_cases here close]
    exact cons'.setObject rfl
  · rw [close]
    exact cons'

/-- A round registers no other path. -/
theorem Round.registered_of_ne (intact : Intact table) {name path p : Name}
    {inode child : Inode} (round : Round tree resumes held inode name path table child table')
    (ne : p ≠ path) : table'.registered p = table.registered p := by
  obtain ⟨opened, opens, close⟩ := round
  have before : opened.registered p = table.registered p ∧
      ∃ d, opened.registered path = some d := by
    rcases opens with ⟨d, here, -, rfl⟩ | ⟨-, -, d, create⟩
    · exact ⟨rfl, d, here⟩
    · obtain ⟨-, -, -, -, registered⟩ := createDescriptorAndOpen_cases intact.sparse create
      exact ⟨by rw [registered, if_neg ne], d, by rw [registered, if_pos rfl]⟩
  obtain ⟨other, d, here⟩ := before
  split at close
  · obtain ⟨r, close⟩ := close
    rw [close_cases here close]
    exact other
  · rw [close]
    exact other

/-- Below the root, what a round registers has no opener. -/
theorem Round.openers_eq_zero (cons : Consistent tree table) {name path : Name}
    {inode child : Inode} (round : Round tree resumes held inode name path table child table')
    (deeper : tree.root ≠ inode) (absent : table.registered path = none) :
    table'.openers path = 0 := by
  obtain ⟨opened, opens, close⟩ := round
  rw [if_pos deeper] at close
  obtain ⟨r, close⟩ := close
  rcases opens with ⟨d, here, -, -⟩ | ⟨-, -, d, create⟩
  · rw [absent] at here
    cases here
  · obtain ⟨-, -, -, objects, registered⟩ := createDescriptorAndOpen_cases cons.sparse create
    have here : opened.registered path = some d := by rw [registered, if_pos rfl]
    rw [close_cases here close]
    have here' : (opened.setObject d (opened.objects d).closed.2).registered path = some d := here
    rw [openers_eq here']
    simp [OpenFileDescriptorTable.setObject, objects, OpenFileDescriptor.new,
      OpenFileDescriptor.opened, OpenFileDescriptor.closed]

/-! ## Runs of the loop -/

theorem traverse_consistent {path : Name} {parts names : List Name} {inode : Inode}
    {r : Except String Nat} (cons : Consistent tree table)
    (valid : ∀ part ∈ names ++ parts, IsComponent part)
    (reached : tree.follow tree.root names = some inode)
    (run : tree.traverse resumes held path parts inode (pathOf names) table = some (r, table')) :
    Consistent tree table' := by
  induction parts generalizing names inode table with
  | nil =>
    obtain ⟨-, rfl⟩ := Prod.mk.inj (Option.some.inj run)
    exact cons
  | cons name parts ih =>
    rcases traverse_cons run with ⟨-, rfl, -⟩ | ⟨child, middle, round, rest⟩
    · exact cons
    · have path_eq : pathOf names ++ FileTree.slash :: name = pathOf (names ++ [name]) :=
        (join_concat names name).symm
      rw [path_eq] at round rest
      have valid' : ∀ part ∈ names ++ [name], IsComponent part := by
        intro part mem
        apply valid
        simp only [List.mem_append, List.mem_cons] at mem ⊢
        tauto
      obtain ⟨cons', follows⟩ := round.consistent cons valid' reached
      exact ih cons' (by simpa using valid) follows rest

theorem openPath_consistent {path : Name} {r : Except String Nat} (cons : Consistent tree table)
    (run : tree.openPath resumes held table path = some (r, table')) : Consistent tree table' := by
  unfold FileTree.openPath at run
  split at run
  · rename_i present
    obtain ⟨d, here⟩ := Option.isSome_iff_exists.1 (hasDescriptor_iff.1 present)
    rw [openDescriptor_eq here] at run
    obtain ⟨-, rfl⟩ := Prod.mk.inj (Option.some.inj run)
    exact cons.setObject rfl
  · simp only at run
    split at run
    · rename_i none
      obtain ⟨⟨d, created⟩, create, last⟩ := Option.bind_eq_some_iff.1 run
      obtain ⟨-, rfl⟩ := Prod.mk.inj (Option.some.inj last)
      refine cons.create create fun names ne valid same => ?_
      -- a path without parts is none of components
      rw [← same, split_join valid, List.isEmpty_iff] at none
      exact absurd none ne
    · have valid : ∀ part ∈ [] ++ split path FileTree.slash, IsComponent part :=
        fun part mem => isPart_of_mem_split mem
      exact traverse_consistent cons valid rfl run

/-- Below the root, a path that was not registered ends without an opener. -/
theorem traverse_openers {parts names : List Name} {inode : Inode} {d : Nat}
    (cons : Consistent tree table) (ne : parts ≠ [])
    (valid : ∀ part ∈ names ++ parts, IsComponent part)
    (reached : tree.follow tree.root names = some inode) (deeper : tree.root ≠ inode)
    (absent : table.registered (pathOf (names ++ parts)) = none)
    (run : tree.traverse resumes held (pathOf (names ++ parts)) parts inode (pathOf names) table =
      some (.ok d, table')) : table'.openers (pathOf (names ++ parts)) = 0 := by
  induction parts generalizing names inode table with
  | nil => exact absurd rfl ne
  | cons name parts ih =>
    rcases traverse_cons run with ⟨⟨error, failed⟩, -⟩ | ⟨child, middle, round, rest⟩
    · cases failed
    have path_eq : pathOf names ++ FileTree.slash :: name = pathOf (names ++ [name]) :=
      (join_concat names name).symm
    have assoc : names ++ name :: parts = names ++ [name] ++ parts := by simp
    have valid' : ∀ part ∈ names ++ [name], IsComponent part := by
      intro part mem
      apply valid
      rw [assoc]
      exact List.mem_append_left _ mem
    rw [path_eq] at round rest
    obtain ⟨cons', follows⟩ := round.consistent cons valid' reached
    by_cases last : parts = []
    · subst last
      obtain ⟨-, rfl⟩ := Prod.mk.inj (Option.some.inj rest)
      exact round.openers_eq_zero cons deeper absent
    · have other : pathOf (names ++ name :: parts) ≠ pathOf (names ++ [name]) := by
        intro same
        have := pathOf_injective valid valid' same
        simp only [List.append_cancel_left_eq, List.cons.injEq, true_and] at this
        exact last this
      have absent' := (round.registered_of_ne cons.intact other).trans absent
      rw [assoc] at rest valid absent' ⊢
      exact ih cons' last valid follows (FileTree.follow_ne_root follows).symm absent' rest

/-! ## Opening -/

/-- The tables a file system can have: after any calls of `open`. -/
inductive Reachable (tree : FileTree Inode) : OpenFileDescriptorTable Inode → Prop where
  | empty : Reachable tree (.empty tree.root)
  | openPath {table table' : OpenFileDescriptorTable Inode} {resumes : Bool} {held : Nat → Nat}
      {path : Name} {r : Except String Nat} (before : Reachable tree table)
      (run : tree.openPath resumes held table path = some (r, table')) : Reachable tree table'

theorem Reachable.consistent (reachable : Reachable tree table) : Consistent tree table := by
  induction reachable with
  | empty => exact empty_consistent tree
  | openPath _ run ih => exact openPath_consistent ih run

/-- The call succeeds with the descriptor registered under the path, which wraps the inode the path
leads to; the path has one opener more and the other paths are as they were. -/
def Balanced (tree : FileTree Inode) (names : List Name) (table : OpenFileDescriptorTable Inode)
    (result : Option (Except String Nat × OpenFileDescriptorTable Inode)) : Prop :=
  ∃ d table', result = some (.ok d, table') ∧ table'.registered (pathOf names) = some d ∧
    tree.follow tree.root names = some (table'.objects d).inode ∧
    table'.openers (pathOf names) = table.openers (pathOf names) + 1 ∧
    ∀ p, p ≠ pathOf names → (table'.registered p).isSome = (table.registered p).isSome ∧
      table'.openers p = table.openers p

/-- A registered path is found at once. -/
theorem balanced_of_registered (cons : Consistent tree table) {names : List Name} (ne : names ≠ [])
    (valid : ∀ name ∈ names, IsComponent name) {d : Nat}
    (here : table.registered (pathOf names) = some d) :
    Balanced tree names table (tree.openPath resumes held table (pathOf names)) := by
  have present := hasDescriptor_iff.2 (Option.isSome_iff_exists.2 ⟨d, here⟩)
  refine ⟨d, table.setObject d (table.objects d).opened, ?_, here, ?_, ?_, fun p other => ?_⟩
  · rw [FileTree.openPath, if_pos present, openDescriptor_eq here]
  · rw [cons.reached names d ne valid here]
    simp [OpenFileDescriptorTable.setObject, OpenFileDescriptor.opened]
  · have here' : (table.setObject d (table.objects d).opened).registered (pathOf names) = some d :=
      here
    rw [openers_eq here, openers_eq here']
    simp [OpenFileDescriptorTable.setObject, OpenFileDescriptor.opened]
  · exact ⟨rfl, cons.intact.openers_setObject here _ other⟩

/-- A single component that is not registered is registered with its inode. -/
theorem openPath_single {name : Name} (valid : IsComponent name) {inode : Inode}
    (reached : tree.follow tree.root [name] = some inode)
    (absent : table.registered (pathOf [name]) = none) :
    tree.openPath resumes held table (pathOf [name]) =
      (table.createDescriptorAndOpen (pathOf [name]) inode).bind fun x =>
        some (x.2.getDescriptor (pathOf [name]), x.2) := by
  have missing : table.hasDescriptor (pathOf [name]) = false := by
    rw [Bool.eq_false_iff, ne_eq, hasDescriptor_iff, absent]
    simp
  have parts : split (pathOf [name]) FileTree.slash = [name] := split_join (by simpa using valid)
  have leads : tree.child tree.root name = some inode := by
    simpa [FileTree.follow] using reached
  obtain ⟨directory, ⟨entries, list, listed⟩, get⟩ := FileTree.child_cases leads
  have path_eq : [] ++ FileTree.slash :: name = pathOf [name] := (join_concat [] name).symm
  simp only [FileTree.openPath, missing, parts, List.isEmpty_cons, Bool.false_eq_true, if_false,
    FileTree.traverse, directory, list, listed, Bool.not_true, path_eq, get, ne_eq, not_true_eq_false,
    Option.bind_eq_bind]

/-- A single component is registered in the root directory, if its bucket is empty. -/
theorem balanced_single_iff (cons : Consistent tree table) {name : Name} (valid : IsComponent name)
    {inode : Inode} (reached : tree.follow tree.root [name] = some inode)
    (absent : table.registered (pathOf [name]) = none) :
    Balanced tree [name] table (tree.openPath resumes held table (pathOf [name])) ↔
      ∀ p, (table.registered p).isSome → bucket p ≠ bucket (pathOf [name]) := by
  rw [← @createDescriptorAndOpen_isSome_iff _ _ _ cons.sparse inode,
    openPath_single valid reached absent]
  constructor
  · rintro ⟨d, table', run, -⟩
    obtain ⟨created, create, -⟩ := Option.bind_eq_some_iff.1 run
    exact Option.isSome_iff_exists.2 ⟨created, create⟩
  · intro free
    obtain ⟨⟨d, table'⟩, create⟩ := Option.isSome_iff_exists.1 free
    obtain ⟨rfl, -, -, objects, registered⟩ := createDescriptorAndOpen_cases cons.sparse create
    have here : table'.registered (pathOf [name]) = some table.created := by
      rw [registered, if_pos rfl]
    refine ⟨table.created, table', ?_, here, ?_, ?_, fun p other => ?_⟩
    · rw [create, Option.bind_some, getDescriptor_eq here]
    · rw [objects, Function.update_self, reached]
      rfl
    · rw [openers_eq here, objects, Function.update_self]
      simp [openers, absent, OpenFileDescriptor.new, OpenFileDescriptor.opened]
    · exact ⟨by rw [registered, if_neg other], cons.intact.openers_create create other⟩

/-- A longer path that is not registered is not opened as it should be. -/
theorem not_balanced_deep (cons : Consistent tree table) {names : List Name}
    (deep : 1 < names.length) (valid : ∀ name ∈ names, IsComponent name)
    (absent : table.registered (pathOf names) = none) :
    ¬ Balanced tree names table (tree.openPath resumes held table (pathOf names)) := by
  rintro ⟨d, table', run, here, -, grown, -⟩
  have missing : table.hasDescriptor (pathOf names) = false := by
    rw [Bool.eq_false_iff, ne_eq, hasDescriptor_iff, absent]
    simp
  obtain ⟨name, parts, rfl⟩ := List.exists_cons_of_length_pos (Nat.lt_of_succ_lt deep)
  have more : parts ≠ [] := by
    rintro rfl
    simp at deep
  simp only [FileTree.openPath, missing, split_join valid, List.isEmpty_cons, Bool.false_eq_true,
    if_false] at run
  rcases traverse_cons run with ⟨⟨error, failed⟩, -⟩ | ⟨child, middle, round, rest⟩
  · cases failed
  have path_eq : [] ++ FileTree.slash :: name = pathOf ([] ++ [name]) := (join_concat [] name).symm
  rw [path_eq] at round rest
  obtain ⟨cons', follows⟩ := round.consistent cons (by simpa using valid name (by simp)) rfl
  have other : pathOf (name :: parts) ≠ pathOf ([] ++ [name]) := by
    intro same
    have := pathOf_injective valid (by simpa using valid name (by simp)) same
    simp at this
    exact more this
  have absent' := (round.registered_of_ne cons.intact other).trans absent
  have zero : table'.openers (pathOf ([] ++ [name] ++ parts)) = 0 :=
    traverse_openers cons' more valid follows (FileTree.follow_ne_root follows).symm absent' rest
  have before : table.openers (pathOf (name :: parts)) = 0 := by simp only [openers, absent]
  rw [before] at grown
  have : table'.openers (pathOf (name :: parts)) = 0 := zero
  rw [this] at grown
  cases grown

/-- **Balanced opening.** In any table a file system can have, `open` of an existing path of one or
more components succeeds with the descriptor registered under the path, which wraps the inode the
path leads to, and changes the opener count of this path only, by one, if and only if the path is
registered already, or it has one component and no registered path is in its bucket. -/
theorem openPath_balanced_iff (reachable : Reachable tree table) {names : List Name}
    (ne : names ≠ []) (valid : ∀ name ∈ names, IsComponent name) {inode : Inode}
    (reached : tree.follow tree.root names = some inode) (resumes : Bool) (held : Nat → Nat) :
    Balanced tree names table (tree.openPath resumes held table (pathOf names)) ↔
      (table.registered (pathOf names)).isSome ∨ (names.length = 1 ∧
        ∀ p, (table.registered p).isSome → bucket p ≠ bucket (pathOf names)) := by
  have cons := reachable.consistent
  cases here : table.registered (pathOf names) with
  | some d =>
    simp only [Option.isSome_some, true_or, iff_true]
    exact balanced_of_registered cons ne valid here
  | none =>
    simp only [Option.isSome_none, Bool.false_eq_true, false_or]
    by_cases deep : 1 < names.length
    · have long : names.length ≠ 1 := by omega
      simp only [long, false_and, iff_false]
      exact not_balanced_deep cons deep valid here
    · obtain ⟨name, rfl⟩ : ∃ name, names = [name] := by
        apply List.length_eq_one_iff.1
        have := List.length_pos_iff.2 ne
        omega
      simp only [List.length_singleton, true_and]
      exact balanced_single_iff cons (valid name (by simp)) reached here

end

/-- The tree of `/a/b`. -/
def sampleTree : FileTree Nat where
  root := 0
  isDirectory inode := inode < 2
  listDir inode :=
    if inode = 0 then .ok [[0x61]] else if inode = 1 then .ok [[0x62]] else .error "Not a directory"
  getChild inode name :=
    if inode = 0 ∧ name = [0x61] then .ok 1
    else if inode = 1 ∧ name = [0x62] then .ok 2
    else .error "Child not found"
  child_ne_root inode name child h := by
    split at h
    · rw [← Except.ok.inj h]
      decide
    · split at h
      · rw [← Except.ok.inj h]
        decide
      · cases h

theorem openPath_balanced_iff_a :
    Balanced sampleTree [[0x61]] (.empty 0)
      (sampleTree.openPath false (fun _ => 0) (.empty 0) (pathOf [[0x61]])) := by
  have valid : ∀ name ∈ [[0x61]], IsComponent name := by
    intro name mem
    rw [List.mem_singleton.1 mem]
    exact ⟨by decide, by decide⟩
  have reached : sampleTree.follow sampleTree.root [[0x61]] = some 1 := rfl
  refine (openPath_balanced_iff .empty (by decide) valid reached false fun _ => 0).2
    (Or.inr ⟨rfl, fun p present => ?_⟩)
  have nothing : (OpenFileDescriptorTable.empty sampleTree.root).registered p = none := rfl
  rw [nothing] at present
  cases present

/-- Opening `/a/b` first thing does not return with an opener for it, even if the failed assertion in
`close` is passed over. -/
theorem not_balanced_a_b :
    sampleTree.follow 0 [[0x61], [0x62]] = some 2 ∧
    ¬ Balanced sampleTree [[0x61], [0x62]] (.empty 0)
      (sampleTree.openPath false (fun _ => 0) (.empty 0) (pathOf [[0x61], [0x62]])) ∧
    ¬ Balanced sampleTree [[0x61], [0x62]] (.empty 0)
      (sampleTree.openPath true (fun _ => 0) (.empty 0) (pathOf [[0x61], [0x62]])) := by
  have valid : ∀ name ∈ [[0x61], [0x62]], IsComponent name := by
    intro name mem
    simp only [List.mem_cons, List.not_mem_nil, or_false] at mem
    rcases mem with rfl | rfl <;> exact ⟨by decide, by decide⟩
  exact ⟨rfl, not_balanced_deep (empty_consistent sampleTree) (by decide) valid rfl,
    not_balanced_deep (empty_consistent sampleTree) (by decide) valid rfl⟩

end MatteOS.FileSystem
