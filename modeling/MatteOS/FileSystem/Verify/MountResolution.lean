import MatteOS.FileSystem.Verify.Mounts
import MatteOS.Lib.Search
import MatteOS.Utils.Verify.Segments

/-!
# Which mount a path leads to

`longest_common_prefix` counts the components that a mount point has in common with a path, also
those of a mount point that does not contain the path. It finds the deepest mount that contains the
path, in every order of the mount table, exactly if no other mount point has more components in
common with the path, and those with as many have its file system (`resolvesRight_iff`).
-/

namespace MatteOS.FileSystem.VirtualFileSystem

open Utils Strings

variable {FS Inode : Type}

/-- The components of a path. -/
abbrev components (path : Name) : List Name := segments FileTree.slash path

/-- How many components two lists have in common at their start. -/
def common : List Name → List Name → Nat
  | part :: path, mountPart :: mountParts => if part ≠ mountPart then 0 else common path mountParts + 1
  | _, _ => 0

/-- What `split` finds that a mount point has in common with a path. -/
def shared (path : Name) (mount : Name × MountContext FS) : Nat :=
  common (split path FileTree.slash) (split mount.1 FileTree.slash)

/-- The file system of a deepest mount whose components are the first ones of the path; the root file
system if these are none. -/
structure Deepest (systems : FileSystems FS Inode) (vfs : VirtualFileSystem FS Inode) (path : Name)
    (depth : Nat) (fs : FS) : Prop where
  atMost : ∀ mount ∈ vfs.mounts.forEach, components mount.1 <+: components path →
    (components mount.1).length ≤ depth
  mounted : depth ≠ 0 → ∃ mount ∈ vfs.mounts.forEach, components mount.1 <+: components path ∧
    (components mount.1).length = depth ∧ mount.2.fs = fs
  root : depth = 0 → ∃ inode, vfs.rootInode = some inode ∧ systems.fs inode = some fs

/-- In every order of the mounts, `open` uses the file system of a deepest mount that contains the
path, with the other components as the relative path. -/
def ResolvesRight (systems : FileSystems FS Inode) (vfs : VirtualFileSystem FS Inode) (path : Name) :
    Prop :=
  ∀ order : List (Name × MountContext FS), order.Perm vfs.mounts.forEach → ∃ fs depth,
    Deepest systems vfs path depth fs ∧ vfs.resolve systems order path =
      .ok (fs, FileTree.slash :: [FileTree.slash].intercalate ((components path).drop depth))

/-- The file system is one that the path leads to, and the parts behind the first `longest` are the
components that are left. -/
def Fits (systems : FileSystems FS Inode) (vfs : VirtualFileSystem FS Inode) (path : Name)
    (longest : Nat) (fs : FS) : Prop :=
  ∃ depth, Deepest systems vfs path depth fs ∧
    (split path FileTree.slash).drop longest = (components path).drop depth

section

variable {systems : FileSystems FS Inode} {vfs : VirtualFileSystem FS Inode} {path : Name}

/-! ## The loops -/

theorem compareParts_eq (context : MountContext FS) (i : Nat) (path mountParts : List Name)
    (s : Option FS × Nat) (le : i ≤ s.2) : compareParts context i path mountParts s =
      if i + common path mountParts > s.2 then (some context.fs, i + common path mountParts)
      else s := by
  induction path generalizing i mountParts s with
  | nil =>
    have none : common [] mountParts = 0 := by simp [common]
    rw [none, Nat.add_zero, if_neg (Nat.not_lt.2 le)]
    rfl
  | cons part path ih =>
    cases mountParts with
    | nil =>
      have none : common (part :: path) [] = 0 := by simp [common]
      rw [none, Nat.add_zero, if_neg (Nat.not_lt.2 le)]
      rfl
    | cons mountPart mountParts =>
      obtain ⟨fs, longest⟩ := s
      rw [compareParts, common]
      by_cases other : part ≠ mountPart
      · rw [if_pos other, if_pos other, Nat.add_zero, if_neg (Nat.not_lt.2 le)]
      · rw [if_neg other, if_neg other]
        have count : i + (common path mountParts + 1) = i + 1 + common path mountParts := by omega
        rw [count]
        by_cases more : i + 1 > longest
        · rw [if_pos more, ih (i + 1) mountParts _ (Nat.le_refl _)]
          have better : i + 1 + common path mountParts > longest := by omega
          rw [if_pos better]
          split
          · rfl
          · rename_i none
            have zero : common path mountParts = 0 := by simpa using none
            rw [zero, Nat.add_zero]
        · rw [if_neg more, ih (i + 1) mountParts _ (Nat.le_of_not_lt more)]

/-- The loops search for a mount point with most components in common with the path. -/
theorem longestCommonPrefix_eq {inode : Inode} (root : vfs.rootInode = some inode)
    (order : List (Name × MountContext FS)) :
    vfs.longestCommonPrefix systems order (split path FileTree.slash) =
      match Search.search (fun mount => some mount.2.fs) (shared path) (systems.fs inode, 0) order with
      | (none, _) => .error "No filesystem mounted at this path!"
      | (some fs, longest) => .ok (fs, longest) := by
  have rounds : (fun s (mount : Name × MountContext FS) => compareParts mount.2 0
      (split path FileTree.slash) (split mount.1 FileTree.slash) s) =
      Search.round (fun mount => some mount.2.fs) (shared path) := by
    funext s mount
    rw [compareParts_eq _ _ _ _ _ (Nat.zero_le _), Nat.zero_add]
    rfl
  obtain ⟨result, found⟩ : ∃ result, Search.search (fun mount => some mount.2.fs) (shared path)
      (systems.fs inode, 0) order = result := ⟨_, rfl⟩
  have folded := found
  rw [Search.search, ← rounds] at folded
  rw [longestCommonPrefix, root]
  obtain ⟨_ | fs, longest⟩ := result
  all_goals simp only [found, folded]

theorem joinParts_eq (parts : List Name) : joinParts parts = [FileTree.slash].intercalate parts := by
  induction parts with
  | nil => rfl
  | cons part parts ih =>
    cases parts with
    | nil => simp [joinParts]
    | cons next parts =>
      rw [joinParts, ih, List.intercalate_cons_cons]
      · simp
      · simp

/-- A relative path has one list of components. -/
theorem intercalate_injective {names names' : List Name}
    (valid : ∀ name ∈ names, IsPart FileTree.slash name)
    (valid' : ∀ name ∈ names', IsPart FileTree.slash name)
    (same : [FileTree.slash].intercalate names = [FileTree.slash].intercalate names') :
    names = names' := by
  rw [← segments_intercalate valid, same, segments_intercalate valid']

/-- What `open` makes of the loops. -/
theorem resolve_eq_ok_iff {inode : Inode} (root : vfs.rootInode = some inode)
    (order : List (Name × MountContext FS)) (fs : FS) (depth : Nat) :
    vfs.resolve systems order path =
      .ok (fs, FileTree.slash :: [FileTree.slash].intercalate ((components path).drop depth)) ↔
    ∃ longest, Search.search (fun mount => some mount.2.fs) (shared path) (systems.fs inode, 0) order =
        (some fs, longest) ∧
      (split path FileTree.slash).drop longest = (components path).drop depth := by
  rw [resolve, longestCommonPrefix_eq root]
  generalize Search.search (fun mount => some mount.2.fs) (shared path) (systems.fs inode, 0) order =
    found
  obtain ⟨_ | found, longest⟩ := found
  · constructor
    · intro failed
      cases failed
    · rintro ⟨longest', found, -⟩
      cases found
  · constructor
    · intro run
      obtain ⟨rfl, relative⟩ := Prod.mk.inj (Except.ok.inj run)
      refine ⟨longest, rfl, ?_⟩
      rw [joinParts_eq] at relative
      refine intercalate_injective ?_ ?_ (List.cons.inj relative).2
      · exact fun name mem => isPart_of_mem_split (List.mem_of_mem_drop mem)
      · exact fun name mem => isPart_of_mem_segments (List.mem_of_mem_drop mem)
    · rintro ⟨longest', found, left⟩
      obtain ⟨same, rfl⟩ := Prod.mk.inj found
      obtain rfl := Option.some.inj same
      rw [← left, ← joinParts_eq]
      rfl

/-- What the loops have found is one of the file systems that the path leads to. -/
def Led (systems : FileSystems FS Inode) (vfs : VirtualFileSystem FS Inode) (path : Name)
    (found : Option FS × Nat) : Prop :=
  ∃ fs, found.1 = some fs ∧ Fits systems vfs path found.2 fs

theorem resolvesRight_iff_led {inode : Inode} (root : vfs.rootInode = some inode) :
    ResolvesRight systems vfs path ↔
      ∀ order : List (Name × MountContext FS), order.Perm vfs.mounts.forEach →
        Led systems vfs path
          (Search.search (fun mount => some mount.2.fs) (shared path) (systems.fs inode, 0) order) := by
  refine forall₂_congr fun order _ => ?_
  constructor
  · rintro ⟨fs, depth, deepest, run⟩
    obtain ⟨longest, found, left⟩ := (resolve_eq_ok_iff root order fs depth).1 run
    rw [found]
    exact ⟨fs, rfl, depth, deepest, left⟩
  · rintro ⟨fs, found, depth, deepest, left⟩
    exact ⟨fs, depth, deepest, (resolve_eq_ok_iff root order fs depth).2
      ⟨_, Prod.ext found rfl, left⟩⟩

end

/-- **Which mount a path leads to.** In every order of the mount table, `open` uses the file system of
the deepest mount whose components are the first of the path, or the root file system if there is
none, with the other components as the relative path, if and only if there is a root inode and the
mount points with most components in common with the path all have this file system, or the root
inode has it if no mount point has any, and the parts behind those in common are these components. -/
theorem resolvesRight_iff (systems : FileSystems FS Inode) (vfs : VirtualFileSystem FS Inode)
    (path : Name) : ResolvesRight systems vfs path ↔
      ∃ inode most, vfs.rootInode = some inode ∧
        (∀ mount ∈ vfs.mounts.forEach, shared path mount ≤ most) ∧
        (most = 0 → ∃ fs, systems.fs inode = some fs ∧ Fits systems vfs path 0 fs) ∧
        (most ≠ 0 → (∃ mount ∈ vfs.mounts.forEach, shared path mount = most) ∧
          ∀ mount ∈ vfs.mounts.forEach, shared path mount = most →
            Fits systems vfs path most mount.2.fs) := by
  cases root : vfs.rootInode with
  | none =>
    constructor
    · intro right
      obtain ⟨fs, depth, -, run⟩ := right _ (List.Perm.refl _)
      rw [resolve, longestCommonPrefix, root] at run
      cases run
    · rintro ⟨inode, most, none, -⟩
      cases none
  | some inode =>
    refine ((resolvesRight_iff_led root).trans Search.forall_perm_search_iff).trans ?_
    constructor
    · rintro ⟨most, below, initial, found⟩
      refine ⟨inode, most, rfl, below, initial, fun some' => ?_⟩
      obtain ⟨-, top, all⟩ := found some'
      refine ⟨top, fun mount mem same => ?_⟩
      obtain ⟨fs, here, fits⟩ := all mount mem same
      rwa [Option.some.inj here]
    · rintro ⟨_, most, ⟨⟩, below, initial, found⟩
      refine ⟨most, below, initial, fun some' => ?_⟩
      obtain ⟨top, all⟩ := found some'
      exact ⟨Nat.pos_of_ne_zero some', top, fun mount mem same => ⟨_, rfl, all mount mem same⟩⟩

/-- File systems 0 at `/` and 1 at `/a/b` -/
def siblingMounts : VirtualFileSystem Nat Nat :=
  let root : Nat → List (Name × MountContext Nat) :=
    Function.update (fun _ => []) 0 [([0x2f], ⟨0, 0⟩)]
  { rootInode := some 0
    mounts := { entries := Function.update root 6 [([0x2f, 0x61, 0x2f, 0x62], ⟨1, 0⟩)] } }

/-- The path `/a/c` leads to what is mounted at `/a/b`. -/
theorem not_resolvesRight_sibling :
    [.mountRootFs 0, .mount [0x2f, 0x61, 0x2f, 0x62] 1].foldl (step plainSystems) (some new) =
      some siblingMounts ∧
    ¬ ResolvesRight plainSystems siblingMounts [0x2f, 0x61, 0x2f, 0x63] := by
  refine ⟨rfl, fun right => ?_⟩
  obtain ⟨fs, depth, deepest, run⟩ := right _ (List.Perm.refl _)
  have first : fs = 1 := (Prod.mk.inj (Except.ok.inj run)).1.symm
  subst first
  by_cases zero : depth = 0
  · obtain ⟨inode, ⟨⟩, found⟩ := deepest.root zero
    cases found
  · obtain ⟨mount, mem, contains, length, -⟩ := deepest.mounted zero
    have outside : ∀ mount ∈ siblingMounts.mounts.forEach,
        components mount.1 <+: components [0x2f, 0x61, 0x2f, 0x63] →
        (components mount.1).length = 0 := by decide
    rw [outside mount mem contains] at length
    exact zero length.symm

end MatteOS.FileSystem.VirtualFileSystem
