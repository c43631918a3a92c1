import MatteOS.FileSystem.VirtualFileSystem
import MatteOS.Lib.Transition
import MatteOS.Utils.Verify.HashMap

/-!
# Mounting a root file system

`mount_root_fs` sets the root inode before it asks for the mount at `/`, and does not look at the
answer. The root inode and the mount table agree, and a call that mounts nothing fails, exactly if
each root file system is mounted where nothing was, and its root inode knows it (`atomic_iff`).
-/

namespace MatteOS.FileSystem.VirtualFileSystem

open Transition Utils

variable {FS Inode : Type}

inductive MountCall (FS : Type) where
  | mount (mountPoint : Name) (fileSystem : FS)
  | mountRootFs (fileSystem : FS)

/-- A call, with what it returns. -/
def perform (systems : FileSystems FS Inode) (vfs : VirtualFileSystem FS Inode) :
    MountCall FS → Option (Except String Unit × VirtualFileSystem FS Inode)
  | .mount mountPoint fileSystem => vfs.mount mountPoint fileSystem
  | .mountRootFs fileSystem => vfs.mountRootFs systems fileSystem

def step (systems : FileSystems FS Inode) (state : Option (VirtualFileSystem FS Inode))
    (call : MountCall FS) : Option (VirtualFileSystem FS Inode) :=
  state.bind fun vfs => (vfs.perform systems call).map Prod.snd

/-- If there is a root inode, its file system is the one mounted at `/`. -/
def Agrees (systems : FileSystems FS Inode) (vfs : VirtualFileSystem FS Inode) : Prop :=
  ∀ inode, vfs.rootInode = some inode → ∃ context, vfs.mounts.get rootPath = .ok context ∧
    systems.fs inode = some context.fs

/-- Nothing was mounted at `/`, and now the file system is. -/
structure Installs (fileSystem : FS) (vfs vfs' : VirtualFileSystem FS Inode) : Prop where
  free : vfs.mounts.hasKey rootPath = false
  mounted : ∃ context, vfs'.mounts.get rootPath = .ok context ∧ context.fs = fileSystem

/-- A `mount_root_fs` that does not install its file system fails and changes nothing. -/
def Refuses (systems : FileSystems FS Inode) (vfs : VirtualFileSystem FS Inode) :
    MountCall FS → Prop
  | .mount _ _ => True
  | .mountRootFs fileSystem => ∃ result vfs', vfs.mountRootFs systems fileSystem = some (result, vfs') ∧
    (¬ Installs fileSystem vfs vfs' → (∃ error, result = .error error) ∧ vfs' = vfs)

/-- The call leaves the root inode and the mount table in agreement, and is refused if it installs
nothing. -/
def Atomic (systems : FileSystems FS Inode) (state : Option (VirtualFileSystem FS Inode))
    (call : MountCall FS) : Prop :=
  ∀ vfs, state = some vfs → vfs.Refuses systems call ∧
    ∀ vfs', step systems state call = some vfs' → vfs'.Agrees systems

/-- A root file system that has a root inode finds no mount in the bucket of `/`, and is the file system
of its root inode. -/
def Prepared (systems : FileSystems FS Inode) (state : Option (VirtualFileSystem FS Inode))
    (call : MountCall FS) : Prop :=
  ∀ vfs, state = some vfs → ∀ fileSystem inode, call = .mountRootFs fileSystem →
    systems.root fileSystem = .ok inode →
      (∀ mountPoint, vfs.mounts.hasKey mountPoint = true →
        HashMap.index HashFunctions.djb2 mountPoint ≠ HashMap.index HashFunctions.djb2 rootPath) ∧
      systems.fs inode = some fileSystem

section

variable {systems : FileSystems FS Inode} {vfs vfs' : VirtualFileSystem FS Inode}
  {mountPoint : Name} {fileSystem : FS} {inode : Inode} {r : Except String Unit}

theorem fsMount_present {mountFlags : BitVec 64} (present : vfs.mounts.hasKey mountPoint = true) :
    vfs.fsMount mountPoint fileSystem mountFlags =
      some (.error "A filesystem already mounted here!", vfs) := by
  rw [fsMount, if_pos present]

theorem fsMount_cases {mountFlags : BitVec 64}
    (run : vfs.fsMount mountPoint fileSystem mountFlags = some (r, vfs')) :
    vfs' = vfs ∨ vfs.mounts.hasKey mountPoint = false ∧ ∃ mounts,
      vfs.mounts.set mountPoint { fs := fileSystem, mountFlags } = some mounts ∧
        vfs' = { vfs with mounts } := by
  unfold fsMount at run
  split at run
  · obtain ⟨-, rfl⟩ := Prod.mk.inj (Option.some.inj run)
    exact Or.inl rfl
  · rename_i absent
    obtain ⟨mounts, set, last⟩ := Option.bind_eq_some_iff.1 run
    obtain ⟨-, rfl⟩ := Prod.mk.inj (Option.some.inj last)
    exact Or.inr ⟨by simpa using absent, mounts, set, rfl⟩

/-- Other mounts do not touch the root. -/
theorem Agrees.mount (agrees : vfs.Agrees systems) (sparse : vfs.mounts.Sparse)
    (run : vfs.mount mountPoint fileSystem = some (r, vfs')) :
    vfs'.mounts.Sparse ∧ vfs'.Agrees systems := by
  rcases fsMount_cases run with rfl | ⟨absent, mounts, set, rfl⟩
  · exact ⟨sparse, agrees⟩
  · refine ⟨sparse.set set, fun inode root => ?_⟩
    obtain ⟨context, here, same⟩ := agrees inode root
    have other : rootPath ≠ mountPoint := by
      rintro rfl
      rw [HashMap.hasKey_iff.2 ⟨context, here⟩] at absent
      cases absent
    exact ⟨context, by rw [sparse.get_set set, if_neg other, here], same⟩

theorem mountRootFs_error {error : String} (fails : systems.root fileSystem = .error error) :
    vfs.mountRootFs systems fileSystem = some (.error error, vfs) := by
  rw [mountRootFs, fails]

/-- The root inode is set whether or not something is mounted at `/`. -/
theorem mountRootFs_present (loads : systems.root fileSystem = .ok inode)
    (present : vfs.mounts.hasKey rootPath = true) :
    vfs.mountRootFs systems fileSystem = some (.ok (), { vfs with rootInode := some inode }) := by
  have refused : fsMount { vfs with rootInode := some inode } rootPath fileSystem
      MountFlags.implicit = some (.error _, { vfs with rootInode := some inode }) :=
    fsMount_present present
  simp only [mountRootFs, loads, refused, Option.bind_eq_bind, Option.bind_some]
  rfl

theorem mountRootFs_absent (loads : systems.root fileSystem = .ok inode)
    (absent : vfs.mounts.hasKey rootPath = false) :
    vfs.mountRootFs systems fileSystem =
      (vfs.mounts.set rootPath { fs := fileSystem, mountFlags := MountFlags.implicit }).map
        fun mounts => (.ok (), { rootInode := some inode, mounts }) := by
  simp only [mountRootFs, loads, fsMount, absent, Bool.false_eq_true, if_false, Option.bind_eq_bind,
    Option.bind_assoc]
  cases vfs.mounts.set rootPath { fs := fileSystem, mountFlags := MountFlags.implicit } <;> rfl

/-- A prepared call installs the root file system. -/
theorem installs_of_prepared (sparse : vfs.mounts.Sparse)
    (loads : systems.root fileSystem = .ok inode)
    (free : ∀ mountPoint, vfs.mounts.hasKey mountPoint = true →
      HashMap.index HashFunctions.djb2 mountPoint ≠ HashMap.index HashFunctions.djb2 rootPath) :
    ∃ vfs', vfs.mountRootFs systems fileSystem = some (.ok (), vfs') ∧
      Installs fileSystem vfs vfs' ∧ vfs'.mounts.Sparse ∧ vfs'.rootInode = some inode := by
  have absent : vfs.mounts.hasKey rootPath = false :=
    Bool.eq_false_iff.2 fun present => free rootPath present rfl
  obtain ⟨mounts, set⟩ := Option.isSome_iff_exists.1 ((@HashMap.Sparse.set_isSome_iff _ _ _ _ _ rootPath
    { fs := fileSystem, mountFlags := MountFlags.implicit } sparse).2 free)
  refine ⟨{ rootInode := some inode, mounts }, ?_, ⟨absent, ?_⟩, sparse.set set, rfl⟩
  · rw [mountRootFs_absent loads absent, set]
    rfl
  · exact ⟨_, by rw [sparse.get_set set, if_pos rfl], rfl⟩

/-- A call that installs the root file system was prepared. -/
theorem free_of_installs (sparse : vfs.mounts.Sparse) (loads : systems.root fileSystem = .ok inode)
    (run : vfs.mountRootFs systems fileSystem = some (r, vfs')) (installs : Installs fileSystem vfs vfs') :
    (∀ mountPoint, vfs.mounts.hasKey mountPoint = true →
      HashMap.index HashFunctions.djb2 mountPoint ≠ HashMap.index HashFunctions.djb2 rootPath) ∧
      vfs'.rootInode = some inode := by
  rw [mountRootFs_absent loads installs.free] at run
  obtain ⟨mounts, set, last⟩ := Option.map_eq_some_iff.1 run
  obtain ⟨-, rfl⟩ := Prod.mk.inj last
  exact ⟨sparse.set_isSome_iff.1 (Option.isSome_iff_exists.2 ⟨mounts, set⟩), rfl⟩

end

/-! ## Runs -/

/-- What a run has kept so far. -/
def Inv (systems : FileSystems FS Inode) (state : Option (VirtualFileSystem FS Inode)) : Prop :=
  ∀ vfs, state = some vfs → vfs.mounts.Sparse ∧ vfs.Agrees systems

section

variable {systems : FileSystems FS Inode} {state : Option (VirtualFileSystem FS Inode)}
  {call : MountCall FS}

theorem step_eq_some {vfs vfs' : VirtualFileSystem FS Inode} (here : state = some vfs)
    (run : step systems state call = some vfs') : ∃ r, vfs.perform systems call = some (r, vfs') := by
  subst here
  obtain ⟨⟨r, vfs''⟩, performed, rfl⟩ := Option.map_eq_some_iff.1 run
  exact ⟨r, performed⟩

/-- A prepared call is atomic, and keeps the invariant. -/
theorem Inv.of_prepared (inv : Inv systems state) (prepared : Prepared systems state call) :
    Atomic systems state call ∧ Inv systems (step systems state call) := by
  have all : ∀ vfs, state = some vfs → vfs.Refuses systems call ∧
      ∀ vfs', step systems state call = some vfs' → vfs'.mounts.Sparse ∧ vfs'.Agrees systems := by
    rintro vfs here
    obtain ⟨sparse, agrees⟩ := inv vfs here
    cases call with
    | mount mountPoint fileSystem =>
      refine ⟨trivial, fun vfs' run => ?_⟩
      obtain ⟨r, run⟩ := step_eq_some here run
      exact agrees.mount sparse run
    | mountRootFs fileSystem =>
      cases loads : systems.root fileSystem with
      | error error =>
        have same := @mountRootFs_error _ _ _ vfs _ _ loads
        refine ⟨⟨_, _, same, fun _ => ⟨⟨error, rfl⟩, rfl⟩⟩, fun vfs' run => ?_⟩
        obtain ⟨r, run⟩ := step_eq_some here run
        obtain ⟨-, rfl⟩ := Prod.mk.inj (Option.some.inj (same.symm.trans run))
        exact ⟨sparse, agrees⟩
      | ok inode =>
        obtain ⟨free, knows⟩ := prepared vfs here fileSystem inode rfl loads
        obtain ⟨vfs'', run, installs, sparse', root⟩ := installs_of_prepared sparse loads free
        refine ⟨⟨_, _, run, fun not => absurd installs not⟩, fun vfs' run' => ?_⟩
        obtain ⟨r, run'⟩ := step_eq_some here run'
        obtain ⟨-, rfl⟩ := Prod.mk.inj (Option.some.inj (run.symm.trans run'))
        refine ⟨sparse', fun inode' root' => ?_⟩
        obtain ⟨context, mounted, same⟩ := installs.mounted
        obtain rfl := Option.some.inj (root.symm.trans root')
        exact ⟨context, mounted, by rw [knows, same]⟩
  refine ⟨fun vfs here => ⟨(all vfs here).1, fun vfs' run => ((all vfs here).2 vfs' run).2⟩, ?_⟩
  intro vfs' run
  obtain ⟨vfs, here, -⟩ := Option.bind_eq_some_iff.1 run
  exact (all vfs here).2 vfs' run

/-- An atomic call was prepared. -/
theorem Inv.prepared (inv : Inv systems state) (atomic : Atomic systems state call) :
    Prepared systems state call := by
  rintro vfs here fileSystem inode rfl loads
  obtain ⟨sparse, -⟩ := inv vfs here
  obtain ⟨⟨r, vfs', run, refused⟩, agrees⟩ := atomic vfs here
  have installs : Installs fileSystem vfs vfs' := by
    by_contra not
    -- the call has succeeded
    obtain ⟨⟨error, rfl⟩, -⟩ := refused not
    cases present : vfs.mounts.hasKey rootPath with
    | true =>
      rw [mountRootFs_present loads present] at run
      cases run
    | false =>
      rw [mountRootFs_absent loads present] at run
      obtain ⟨mounts, -, last⟩ := Option.map_eq_some_iff.1 run
      cases last
  obtain ⟨free, root⟩ := free_of_installs sparse loads run installs
  refine ⟨free, ?_⟩
  have next : step systems state (.mountRootFs fileSystem) = some vfs' := by
    rw [here]
    exact congrArg (Option.map Prod.snd) run
  obtain ⟨context, mounted, knows⟩ := agrees vfs' next inode root
  obtain ⟨context', mounted', same⟩ := installs.mounted
  obtain rfl := Except.ok.inj (mounted.symm.trans mounted')
  rw [knows, same]

end

/-- **Mounting a root file system.** Along a sequence of calls on a new virtual file system, the root
inode and the mount at `/` agree after each, and each `mount_root_fs` that does not install its file
system returns an error and changes nothing, if and only if each that gets a root inode finds the
bucket of `/` empty, and the root inode has the file system. -/
theorem atomic_iff (systems : FileSystems FS Inode) (calls : List (MountCall FS)) :
    Along (step systems) (Atomic systems) (some new) calls ↔
      Along (step systems) (Prepared systems) (some new) calls := by
  refine @Along.iff _ _ _ _ _ (fun _ _ => True) (Inv systems) ?_ ?_ _ _ ?_ ?_
  · intro state call inv _
    exact ⟨inv.prepared, fun prepared => (inv.of_prepared prepared).1⟩
  · intro state call inv _ atomic
    exact (inv.of_prepared (inv.prepared atomic)).2
  · rintro vfs ⟨⟩
    refine ⟨HashMap.empty_sparse, fun inode root => ?_⟩
    cases root
  · exact Along.of_forall (fun _ _ => trivial) _ _

/-- File systems with themselves as root inodes -/
def plainSystems : FileSystems Nat Nat where
  root fileSystem := .ok fileSystem
  fs inode := some inode
  fileExists _ _ := false

/-- A second root file system gets the root inode, while the first stays mounted. -/
theorem not_atomic_twice :
    ¬ Along (step plainSystems) (Atomic plainSystems) (some new) [.mountRootFs 0, .mountRootFs 1] := by
  rintro ⟨-, second, -⟩
  obtain ⟨⟨r, vfs', run, refused⟩, -⟩ := second _ rfl
  have done : r = .ok () := by
    have := congrArg (Option.map Prod.fst) run
    exact (Option.some.inj this).symm
  obtain ⟨⟨error, failed⟩, -⟩ := refused fun installs => absurd installs.free (by decide)
  rw [done] at failed
  cases failed

end MatteOS.FileSystem.VirtualFileSystem
