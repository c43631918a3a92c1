import MatteOS.FileSystem.RamFileSystem
import MatteOS.FileSystem.VirtualFileSystem
import MatteOS.FileSystem.Verify.FailedOpens
import MatteOS.FileSystem.Verify.Listing

/-!
# What exists among the devices

`RamFileSystem::exists` looks its whole argument up as the name of a child, while
`FileSystem::open` splits it. They agree on a path exactly if it is the name of a device as a whole
where its only component is one (`agreesAt_iff`).
-/

namespace MatteOS.FileSystem.RamFileSystem

open Utils Strings OpenFileDescriptorTable

variable {Device : Type}

section

variable {ramfs : RamFileSystem Device} {devices : List (Name × Device)} {name : Name}

/-! ## Children of the root -/

/-- The children of the root are a map of the devices. -/
theorem children_isMapOf (built : ofDevices devices = some ramfs) :
    HashMap.IsMapOf ramfs.children devices := by
  obtain ⟨children, sets, rfl⟩ := Option.map_eq_some_iff.1 built
  have different : (HashMap.buckets HashFunctions.djb2 devices).Nodup := by
    by_contra same
    rw [HashMap.sets_eq_none same] at sets
    cases sets
  rw [HashMap.sets_eq different] at sets
  rw [← Option.some.inj sets]
  exact HashMap.isMapOf_of_nodup different

/-- `exists` knows the names of the devices. -/
theorem fileExists_iff (built : ofDevices devices = some ramfs) {path : Name} :
    ramfs.fileExists path = true ↔ path ∈ devices.map Prod.fst := by
  rw [← (children_isMapOf built).hasKey path, HashMap.hasKey_iff, fileExists, RamInode.getChild,
    RamInode.children]
  cases ramfs.children.get path with
  | error error => exact iff_of_false Bool.false_ne_true nofun
  | ok device => exact iff_of_true rfl ⟨device, rfl⟩

theorem mem_listed_iff (built : ofDevices devices = some ramfs) :
    name ∈ ramfs.children.forEach.map Prod.fst ↔ name ∈ devices.map Prod.fst := by
  have map := children_isMapOf built
  rw [← map.hasKey name, HashMap.hasKey_iff, List.mem_map]
  constructor
  · rintro ⟨⟨name, device⟩, mem, rfl⟩
    exact ⟨device, by rw [map.get, (map.current _ _).1 mem]⟩
  · rintro ⟨device, found⟩
    refine ⟨(name, device), (map.current _ _).2 ?_, rfl⟩
    rw [map.get] at found
    cases last : HashMap.lastValue devices name with
    | none =>
      rw [last] at found
      cases found
    | some value =>
      rw [last] at found
      rw [Except.ok.inj found]

/-- The root has a child for each device. -/
theorem child_root_iff (built : ofDevices devices = some ramfs) (noNul : 0 ∉ name) :
    (∃ device, ramfs.tree.child ramfs.tree.root name = some (.device device)) ↔
      name ∈ devices.map Prod.fst := by
  have listed :
      (ramfs.children.forEach.map Prod.fst).any (fun entry => Utils.Strings.equals entry name) =
      true ↔ name ∈ devices.map Prod.fst := by
    rw [← mem_listed_iff built, List.any_eq_true]
    simp only [Utils.Strings.equals_iff_of_noNul noNul, exists_eq_right]
  constructor
  · rintro ⟨device, leads⟩
    obtain ⟨-, ⟨entries, list, here⟩, -⟩ := FileTree.child_cases leads
    obtain rfl := Except.ok.inj list
    exact listed.1 here
  · intro mem
    have here := listed.2 mem
    obtain ⟨device, found⟩ := HashMap.hasKey_iff.1 (((children_isMapOf built).hasKey name).2 mem)
    refine ⟨device, ?_⟩
    have root : ramfs.tree.getChild ramfs.tree.root name = .ok (.device device) := by
      show RamInode.getChild ramfs .root name = _
      rw [RamInode.getChild, RamInode.children, found]
      rfl
    have list : ramfs.tree.listDir ramfs.tree.root =
        .ok (ramfs.children.forEach.map Prod.fst) := rfl
    have directory : ramfs.tree.isDirectory ramfs.tree.root = true := rfl
    simp only [FileTree.child, directory, if_true, list, here, root]
    rfl

end

variable [DecidableEq Device]

/-- With no file open before, `open` of the path succeeds. -/
def Opens (ramfs : RamFileSystem Device) (resumes : Bool) (held : Nat → Nat) (names : List Name) :
    Prop :=
  ∃ d table, ramfs.openPath resumes held (.empty .root) (pathOf names) = some (.ok d, table)

/-- `exists` is true of the paths that can be opened, and those cannot be opened as exclusive through
a virtual file system that leads to them. -/
structure AgreesAt (ramfs : RamFileSystem Device) (resumes : Bool) (held : Nat → Nat)
    (names : List Name) : Prop where
  fileExists : ramfs.fileExists (pathOf names) = true ↔ ramfs.Opens resumes held names
  exclusive : ramfs.Opens resumes held names → ∀ (FS Inode : Type) (systems : FileSystems FS Inode)
    (vfs : VirtualFileSystem FS Inode) (fs : FS) (path : Name) (mode : BitVec 64),
    systems.fileExists fs = ramfs.fileExists →
      vfs.resolve systems vfs.mounts.forEach path = .ok (fs, pathOf names) →
      isExclusive mode = true → ∃ error, vfs.openCall systems path mode = .error error

section

variable {ramfs : RamFileSystem Device} {devices : List (Name × Device)} {resumes : Bool}
  {held : Nat → Nat} {names : List Name} {name : Name}

/-! ## Opening -/

/-- A path that can be opened has one component, a child of the root. -/
theorem Opens.single (opens : ramfs.Opens resumes held names) (ne : names ≠ [])
    (valid : ∀ name ∈ names, IsComponent name) :
    ∃ name device, names = [name] ∧
      ramfs.tree.child ramfs.tree.root name = some (.device device) := by
  obtain ⟨d, table, run⟩ := opens
  obtain ⟨name, parts, rfl⟩ := List.exists_cons_of_ne_nil ne
  have missing : (OpenFileDescriptorTable.empty (@RamInode.root Device)).hasDescriptor
      (pathOf (name :: parts)) = false := rfl
  simp only [openPath, FileTree.openPath, missing, split_join valid, List.isEmpty_cons,
    Bool.false_eq_true, if_false] at run
  rcases traverse_cons run with ⟨⟨error, failed⟩, -⟩ | ⟨child, middle, round, rest⟩
  · cases failed
  obtain ⟨opened, opens, -⟩ := round
  rcases opens with ⟨d, here, -⟩ | ⟨-, leads, -⟩
  · cases here
  cases child with
  | root => exact absurd rfl (ramfs.tree.child_ne_root _ _ _ (FileTree.child_cases leads).2.2)
  | device device =>
    cases parts with
    | nil => exact ⟨name, device, rfl, leads⟩
    | cons next parts =>
      -- a device is no directory
      have stopped : ∃ error, ramfs.tree.traverse resumes held (pathOf (name :: next :: parts))
          (next :: parts) (.device device) ([] ++ FileTree.slash :: name) middle =
            some (.error error, middle) := traverse_of_stops (Or.inl rfl)
      obtain ⟨error, stopped⟩ := stopped
      rw [stopped] at rest
      cases rest

theorem opens_single {device : Device} (valid : IsComponent name)
    (leads : ramfs.tree.child ramfs.tree.root name = some (.device device)) :
    ramfs.Opens resumes held [name] := by
  have reached : ramfs.tree.follow ramfs.tree.root [name] = some (.device device) := by
    simpa [FileTree.follow] using leads
  have free : ∀ p,
      ((OpenFileDescriptorTable.empty (@RamInode.root Device)).registered p).isSome →
        bucket p ≠ bucket (pathOf [name]) := by
    intro p registered
    cases registered
  obtain ⟨d, table, run, -⟩ := (@balanced_single_iff _ _ _ resumes held _ (empty_consistent ramfs.tree)
    _ valid _ reached rfl).2 free
  exact ⟨d, table, run⟩

/-- A path of components is opened if it is a single device. -/
theorem opens_iff (built : ofDevices devices = some ramfs) (ne : names ≠ [])
    (valid : ∀ name ∈ names, IsComponent name) (noNul : ∀ name ∈ names, 0 ∉ name) :
    ramfs.Opens resumes held names ↔ ∃ name ∈ devices.map Prod.fst, names = [name] := by
  constructor
  · intro opens
    obtain ⟨name, device, rfl, leads⟩ := opens.single ne valid
    exact ⟨name, (child_root_iff built (noNul name List.mem_cons_self)).1 ⟨device, leads⟩, rfl⟩
  · rintro ⟨name, mem, rfl⟩
    obtain ⟨device, leads⟩ := (child_root_iff built (noNul name List.mem_cons_self)).2 mem
    exact opens_single (valid name List.mem_cons_self) leads

/-- What exists is not opened as exclusive. -/
theorem openCall_exclusive {FS Inode : Type} {systems : FileSystems FS Inode}
    {vfs : VirtualFileSystem FS Inode} {fs : FS} {path relativePath : Name} {mode : BitVec 64}
    (resolves : vfs.resolve systems vfs.mounts.forEach path = .ok (fs, relativePath))
    (present : systems.fileExists fs relativePath = true) (exclusive : isExclusive mode = true) :
    ∃ error, vfs.openCall systems path mode = .error error := by
  refine ⟨"Cannot open file in exclusive mode! File already exists!", ?_⟩
  rw [VirtualFileSystem.openCall, resolves]
  show (if systems.fileExists fs relativePath && isExclusive mode then _ else _) = _
  rw [present, exclusive]
  rfl

/-- **What exists among the devices.** On a path of components, with no file open before, `exists` is
true if and only if `open` succeeds, and what can be opened cannot be opened as exclusive through the
virtual file system, if and only if the path as a whole is the name of a device where it has a single
component and this is one. -/
theorem agreesAt_iff (built : ofDevices devices = some ramfs) (ne : names ≠ [])
    (valid : ∀ name ∈ names, IsComponent name) (noNul : ∀ name ∈ names, 0 ∉ name) :
    ramfs.AgreesAt resumes held names ↔
      (pathOf names ∈ devices.map Prod.fst ↔ ∃ name ∈ devices.map Prod.fst, names = [name]) := by
  rw [← fileExists_iff built, ← @opens_iff _ _ _ _ resumes held _ built ne valid noNul]
  constructor
  · exact AgreesAt.fileExists
  · intro same
    refine ⟨same, fun opens FS Inode systems vfs fs path mode exists' resolves exclusive => ?_⟩
    exact openCall_exclusive resolves (exists' ▸ same.2 opens) exclusive

end

/-- A console at `tty0` -/
def ttyDevices : List (Name × Nat) := [([0x74, 0x74, 0x79, 0x30], 0)]

/-- There is no `/tty1`. -/
theorem agreesAt_iff_tty1 : ∃ ramfs, ofDevices ttyDevices = some ramfs ∧
    ramfs.AgreesAt false (fun _ => 0) [[0x74, 0x74, 0x79, 0x31]] := by
  obtain ⟨ramfs, built⟩ : ∃ ramfs, ofDevices ttyDevices = some ramfs := ⟨_, rfl⟩
  refine ⟨ramfs, built, (agreesAt_iff built (by decide) ?_ (by decide)).2 (by decide)⟩
  intro name mem
  rw [List.mem_singleton.1 mem]
  exact ⟨by decide, by decide⟩

/-- `/tty0` can be opened, but does not exist. -/
theorem not_agreesAt_tty0 : ∃ ramfs, ofDevices ttyDevices = some ramfs ∧
    ramfs.Opens false (fun _ => 0) [[0x74, 0x74, 0x79, 0x30]] ∧
    ¬ ramfs.AgreesAt false (fun _ => 0) [[0x74, 0x74, 0x79, 0x30]] := by
  have opens : ∃ ramfs, ofDevices ttyDevices = some ramfs ∧
      ramfs.Opens false (fun _ => 0) [[0x74, 0x74, 0x79, 0x30]] := ⟨_, rfl, _, _, rfl⟩
  obtain ⟨ramfs, built, opens⟩ := opens
  refine ⟨ramfs, built, opens, fun agrees => ?_⟩
  have present := (fileExists_iff built).1 (agrees.fileExists.2 opens)
  revert present
  decide

end MatteOS.FileSystem.RamFileSystem
