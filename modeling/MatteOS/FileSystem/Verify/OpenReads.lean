import MatteOS.FileSystem.OpenReads
import MatteOS.FileSystem.Verify.FailingReads
import MatteOS.FileSystem.Verify.FileDescriptorTable
import MatteOS.Lib.Simulation

/-!
# What file descriptors deliver

To a process an open file is its contents and the beginning of them that it has been delivered. In
every run of opens, closes and reads of any descriptors, each read that is finalized delivers the
next bytes of its file, whatever was read through the other descriptors and the cache before, and
whatever reads of the device failed (`descriptors_deliver`).
-/

namespace MatteOS.FileSystem

open ByteMemory Transition

/-! ## Open files as their readers see them -/

structure OpenContents where
  contents : List (BitVec 8)
  delivered : List (BitVec 8)
  isPrefix : delivered <+: contents

namespace OpenContents

variable (f : OpenContents)

def start (contents : List (BitVec 8)) : OpenContents := ⟨contents, [], List.nil_prefix⟩

/-- What a read of `size` bytes delivers. -/
def next (size : Nat) : List (BitVec 8) := (f.contents.drop f.delivered.length).take size

theorem append_next_prefix (size : Nat) : f.delivered ++ f.next size <+: f.contents := by
  obtain ⟨rest, whole⟩ := f.isPrefix
  rw [next, ← whole, List.drop_left]
  exact (List.prefix_append_right_inj _).2 (List.take_prefix _ _)

def advance (size : Nat) : OpenContents :=
  ⟨f.contents, f.delivered ++ f.next size, f.append_next_prefix size⟩

end OpenContents

/-- The open files of a process and the memory. -/
structure Readers where
  files : Nat → Option OpenContents
  memory : Memory

/-- A call with its result. A read that ends with an error delivers nothing, but may have written to
its buffer. -/
inductive Readers.Step (r : Readers) : ReadCall × Except String Nat → Readers → Prop where
  | opened {inode : FATInode} {fd : Nat} (inside : fd < MAX_FDS) (free : r.files fd = none)
      (least : ∀ j < fd, r.files j ≠ none) :
      Step r (.open inode, .ok fd)
        { r with files := Function.update r.files fd (some (.start inode.contents)) }
  | full {inode : FATInode} (taken : ∀ fd < MAX_FDS, r.files fd ≠ none) :
      Step r (.open inode, .error "No free file descriptors!") r
  | closed {fd : Nat} (held : r.files fd ≠ none) :
      Step r (.close fd, .ok 0) { r with files := Function.update r.files fd none }
  | notOpen {fd : Nat} {error : String} (free : r.files fd = none) :
      Step r (.close fd, .error error) r
  | closedAll : Step r (.closeAll, .ok 0) { r with files := fun _ => none }
  | delivered {fd buffer size : Nat} {f : OpenContents} (held : r.files fd = some f) :
      Step r (.read fd buffer size, .ok (f.next size).length)
        { files := Function.update r.files fd (some (f.advance size))
          memory := storeBytes r.memory buffer (f.next size) }
  | gaveUp {fd buffer size : Nat} {f : OpenContents} {error : String} {memory : Memory}
      (held : r.files fd = some f)
      (outside : ∀ x, x < buffer ∨ buffer + size ≤ x → memory x = r.memory x) :
      Step r (.read fd buffer size, .error error) { r with memory }
  | unread {fd buffer size : Nat} (free : r.files fd = none) :
      Step r (.read fd buffer size, .error "Invalid file descriptor!") r

/-! ## The files of a table -/

/-- What is delivered of a file is what lies before its offset. -/
def File.opened (file : File) : OpenContents :=
  ⟨file.inode.contents, file.inode.contents.take file.offset, List.take_prefix _ _⟩

/-- A file of the volume whose clusters are chained, with an offset that is inside. -/
structure File.Good (fs : FATFileSystem) (file : File) : Prop where
  volume : file.inode.fs = fs
  chained : file.inode.flawless.Chained
  bounded : file.offset ≤ file.inode.entry.size.toNat

@[simp] theorem FATInode.contents_length (inode : FATInode) :
    inode.contents.length = inode.entry.size.toNat := by
  simp [FATInode.contents]

theorem File.Good.delivered_length {fs : FATFileSystem} {file : File} (good : file.Good fs) :
    file.opened.delivered.length = file.offset := by
  rw [File.opened, List.length_take, FATInode.contents_length, Nat.min_eq_left good.bounded]

/-- The next bytes of a file are those from its offset on. -/
theorem File.Good.next_eq {fs : FATFileSystem} {file : File} (good : file.Good fs) (size : Nat) :
    file.opened.next size = (file.inode.contents.drop file.offset).take
      (min size (file.inode.entry.size.toNat - file.offset)) := by
  have rest : (file.inode.contents.drop file.offset).length =
      file.inode.entry.size.toNat - file.offset := by
    rw [List.length_drop, FATInode.contents_length]
  rw [OpenContents.next, good.delivered_length, ← List.take_take, ← rest, List.take_length]
  rfl

theorem File.Good.next_length {fs : FATFileSystem} {file : File} (good : file.Good fs)
    (size : Nat) : (file.opened.next size).length =
      min size (file.inode.entry.size.toNat - file.offset) := by
  rw [good.next_eq, List.length_take, List.length_drop, FATInode.contents_length]
  omega

/-- Moving the offset on advances what is delivered. -/
theorem File.Good.moved {fs : FATFileSystem} {file : File} (good : file.Good fs) (size : Nat) :
    let n := (file.opened.next size).length
    File.Good fs { file with offset := (file.offset + n) % 2 ^ 64 } ∧
      File.opened { file with offset := (file.offset + n) % 2 ^ 64 } = file.opened.advance size := by
  have length := good.next_length size
  have entrySize := file.inode.entry.size.isLt
  have bounded := good.bounded
  rw [length]
  have moved : (file.offset + min size (file.inode.entry.size.toNat - file.offset)) % 2 ^ 64 =
      file.offset + min size (file.inode.entry.size.toNat - file.offset) :=
    Nat.mod_eq_of_lt (by omega)
  simp only [moved]
  refine ⟨⟨good.volume, good.chained, by simp only; omega⟩, ?_⟩
  simp only [File.opened, OpenContents.advance, OpenContents.mk.injEq, true_and]
  have next := good.next_eq size
  rw [File.opened] at next
  rw [next, ← List.take_add]

namespace OpenReads

variable {fs : FATFileSystem} {s s' : OpenReads}

/-- The open files by descriptor. -/
def held (s : OpenReads) (fd : Nat) : Option File := s.table.fds[fd]?.join

/-- The table as its readers see it. -/
def view (s : OpenReads) : Readers where
  files fd := (s.held fd).map File.opened
  memory := s.memory

/-- The files that are open are good ones, and the cache holds what the device does. -/
structure Sound (fs : FATFileSystem) (s : OpenReads) : Prop where
  table : s.table.Represents s.held
  good : ∀ fd file, s.held fd = some file → file.Good fs
  faithful : fs.Faithful s.store

/-- Only good files are opened, and no read asks for 2⁶³ bytes or more. -/
def Valid (fs : FATFileSystem) : ReadCall → Prop
  | .open inode => inode.fs = fs ∧ inode.flawless.Chained
  | .close _ => True
  | .closeAll => True
  | .read _ _ size => size < 2 ^ 63

/-- A valid call. -/
def ValidStep (fs : FATFileSystem) (s : OpenReads) (e : ReadCall × Except String Nat)
    (s' : OpenReads) : Prop :=
  Valid fs e.1 ∧ s.Step e s'

/-- A slot that is written changes one descriptor. -/
theorem held_set {fd : Nat} (sound : s.Sound fs) (inside : fd < MAX_FDS) (value : Option File) :
    (fun j => (s.table.fds.set fd value)[j]?.join) = Function.update s.held fd value := by
  funext j
  exact ((sound.table.set inside value).slots j).symm

/-- The view of a table in which one slot is written. -/
theorem view_set {fd : Nat} (sound : s.Sound fs) (inside : fd < MAX_FDS) (value : Option File)
    (memory : Memory) (store : BlockStore) :
    view { table := { fds := s.table.fds.set fd value }, memory, store } =
      { files := Function.update s.view.files fd (value.map File.opened), memory } := by
  simp only [view, Readers.mk.injEq, and_true]
  funext j
  have slots := congrFun (held_set sound inside value) j
  simp only [held]
  rw [slots]
  by_cases same : j = fd
  · subst same
    rw [Function.update_self, Function.update_self]
  · rw [Function.update_of_ne same, Function.update_of_ne same]
    rfl

/-- Writing one slot with a good file, or clearing it, keeps the table sound. -/
theorem Sound.set {fd : Nat} (sound : s.Sound fs) (inside : fd < MAX_FDS) (value : Option File)
    (good : ∀ file, value = some file → file.Good fs) (memory : Memory) {store : BlockStore}
    (faithful : fs.Faithful store) :
    Sound fs { table := { fds := s.table.fds.set fd value }, memory, store } := by
  have slots := held_set sound inside value
  refine ⟨⟨?_, fun _ => rfl⟩, fun j file here => ?_, faithful⟩
  · exact (sound.table.set inside value).length
  · have here' : Function.update s.held fd value j = some file := by
      rw [← congrFun slots j]
      exact here
    by_cases same : j = fd
    · subst same
      rw [Function.update_self] at here'
      exact good file here'
    · rw [Function.update_of_ne same] at here'
      exact sound.good j file here'

/-- **One read** of a descriptor that is open. -/
theorem read_step {fd buffer size : Nat} {file : File} (readable : fs.flawless.Readable)
    (sized : fs.Sized) (sound : s.Sound fs) (small : size < 2 ^ 63)
    (here : s.held fd = some file) :
    ∃ result s', (∀ fuel, size < fuel → s.read fuel fd buffer size = some (result, s')) ∧
      s'.Sound fs ∧ s.view.Step (.read fd buffer size, result) s'.view := by
  have inside : fd < MAX_FDS := by
    by_contra outside
    rw [(sound.table.outside (Nat.le_of_not_lt outside)).2] at here
    cases here
  have good := sound.good fd file here
  obtain rfl := good.volume
  have entrySize := file.inode.entry.size.isLt
  have bounded := good.bounded
  have found : s.table.get fd = some (.ok file) := by rw [sound.table.get inside, here]
  have files : s.view.files fd = some file.opened := by simp only [view, here, Option.map_some]
  obtain ⟨⟨value, memory, store⟩, ran, ends⟩ := FATInode.read_cases readable sized good.chained
    sound.faithful s.memory buffer size file.offset (by omega)
  rcases ends with delivered | gaveUp
  · obtain ⟨good', opened⟩ := good.moved size
    obtain ⟨value_eq, memory_eq, faithful⟩ := delivered
    simp only at value_eq memory_eq faithful
    rw [← good.next_eq] at memory_eq
    rw [← good.next_length] at value_eq
    generalize moved : (file.offset + (file.opened.next size).length) % 2 ^ 64 = offset at good' opened
    refine ⟨.ok (file.opened.next size).length,
      { table := { fds := s.table.fds.set fd (some { file with offset }) }, memory, store },
      fun fuel enough => ?_, sound.set inside _ ?_ _ faithful, ?_⟩
    · simp only [read, found, File.read, ran fuel enough, value_eq, Option.map_some, moved]
    · intro file' same
      rw [← Option.some.inj same]
      exact good'
    · rw [view_set sound inside, Option.map_some, opened, memory_eq]
      exact .delivered files
  · obtain ⟨⟨error, value_eq⟩, outside, faithful⟩ := gaveUp
    simp only at value_eq outside faithful
    refine ⟨.error error, { table := { fds := s.table.fds.set fd (some file) }, memory, store },
      fun fuel enough => ?_, sound.set inside _ ?_ _ faithful, ?_⟩
    · simp only [read, found, File.read, ran fuel enough, value_eq, Option.map_some]
    · intro file' same
      rw [← Option.some.inj same]
      exact good
    · rw [view_set sound inside, Option.map_some, ← files, Function.update_eq_self]
      exact .gaveUp files outside

/-- A read has one result, with whatever fuel it is reached. -/
theorem read_unique {fuel fuel' fd buffer size : Nat} {r r' : Except String Nat × OpenReads}
    (run : s.read fuel fd buffer size = some r) (run' : s.read fuel' fd buffer size = some r') :
    r = r' := by
  cases found : s.table.get fd with
  | none =>
    simp only [read, found] at run
    cases run
  | some got =>
    cases got with
    | error error =>
      simp only [read, found] at run run'
      exact Option.some.inj (run.symm.trans run')
    | ok file =>
      simp only [read, found, Option.map_eq_some_iff] at run run'
      obtain ⟨outcome, ran, rfl⟩ := run
      obtain ⟨outcome', ran', rfl⟩ := run'
      unfold File.read at ran ran'
      cases one : file.inode.read fuel buffer size file.offset s.memory s.store with
      | none =>
        rw [one] at ran
        cases ran
      | some result =>
        cases other : file.inode.read fuel' buffer size file.offset s.memory s.store with
        | none =>
          rw [other] at ran'
          cases ran'
        | some result' =>
          have same := FATInode.read_unique one other
          rw [one, same] at ran
          rw [other] at ran'
          rw [Option.some.inj (ran.symm.trans ran')]

/-- **One call.** A valid call, but for a read through a number beyond the table, has a result and is
a step of the readers. -/
theorem call_step (readable : fs.flawless.Readable) (sized : fs.Sized) (sound : s.Sound fs)
    {call : ReadCall} (valid : Valid fs call)
    (inTable : ∀ fd buffer size, call = .read fd buffer size → fd < MAX_FDS) :
    ∃ fuel result s', s.call fuel call = some (result, s') ∧ s'.Sound fs ∧
      s.view.Step (call, result) s'.view ∧
      ∀ fuel' result' s'', s.call fuel' call = some (result', s'') → result' = result ∧ s'' = s' := by
  have once {fuel : Nat} {call : ReadCall} {result : Except String Nat} {s' : OpenReads}
      (same : ∀ fuel', s.call fuel' call = s.call fuel call)
      (ran : s.call fuel call = some (result, s')) :
      ∀ fuel' result' s'', s.call fuel' call = some (result', s'') → result' = result ∧ s'' = s' := by
    intro fuel' result' s'' ran'
    rw [same fuel', ran] at ran'
    cases ran'
    exact ⟨rfl, rfl⟩
  cases call with
  | «open» inode =>
    have files (fd : Nat) : s.view.files fd = none ↔ s.held fd = none := Option.map_eq_none_iff
    rcases sound.table.openDescriptor { inode, offset := 0 } with
      ⟨fd, inside, free, least, result⟩ | ⟨full, result⟩
    · have ran : s.call 0 (.open inode) = some (.ok fd,
          { s with table := { fds := s.table.fds.set fd (some { inode, offset := 0 }) } }) := by
        simp only [OpenReads.call, result]
      refine ⟨0, _, _, ran, sound.set inside _ ?_ _ sound.faithful, ?_, once (fun _ => rfl) ran⟩
      · intro file same
        rw [← Option.some.inj same]
        exact ⟨valid.1, valid.2, Nat.zero_le _⟩
      · rw [view_set sound inside]
        exact .opened inside ((files fd).2 free) fun j less none => least j less ((files j).1 none)
    · have ran : s.call 0 (.open inode) = some (.error "No free file descriptors!", s) := by
        simp only [OpenReads.call, result]
      exact ⟨0, _, _, ran, sound,
        .full fun fd inside none => full fd inside ((files fd).1 none), once (fun _ => rfl) ran⟩
  | close fd =>
    rcases sound.table.close fd with ⟨file, here, inside, result⟩ | ⟨none, error, result⟩
    · have ran : s.call 0 (.close fd) = some (.ok 0,
          { s with table := { fds := s.table.fds.set fd none } }) := by
        simp only [OpenReads.call, result, Except.map]
      refine ⟨0, _, _, ran, sound.set inside _ ?_ _ sound.faithful, ?_, once (fun _ => rfl) ran⟩
      · intro file same
        cases same
      · rw [view_set sound inside]
        refine .closed ?_
        simp [view, here]
    · have ran : s.call 0 (.close fd) = some (.error error, s) := by
        simp only [OpenReads.call, result, Except.map]
      refine ⟨0, _, _, ran, sound, .notOpen ?_, once (fun _ => rfl) ran⟩
      simp [view, none]
  | closeAll =>
    have ran : s.call 0 .closeAll = some (.ok 0, { s with table := s.table.closeAll.2 }) := rfl
    have cleared (fd : Nat) : s.table.closeAll.2.fds[fd]?.join = none :=
      (sound.table.closeAll.slots fd).symm
    refine ⟨0, _, _, ran, ⟨⟨sound.table.closeAll.length, fun _ => rfl⟩, fun fd file here => ?_,
      sound.faithful⟩, ?_, once (fun _ => rfl) ran⟩
    · have none := cleared fd
      rw [OpenReads.held, none] at here
      cases here
    · have files : (fun fd => (s.table.closeAll.2.fds[fd]?.join).map File.opened) =
          fun _ => none := funext fun fd => by rw [cleared fd]; rfl
      have closed : view { s with table := s.table.closeAll.2 } =
          { s.view with files := fun _ => none } := by
        simp only [view, held, files]
      rw [closed]
      exact .closedAll
  | read fd buffer size =>
    have inside := inTable fd buffer size rfl
    cases here : s.held fd with
    | none =>
      have ran (fuel : Nat) : s.call fuel (.read fd buffer size) =
          some (.error "Invalid file descriptor!", s) := by
        simp only [OpenReads.call, read, sound.table.get inside, here]
      refine ⟨0, _, _, ran 0, sound, .unread ?_, once (fun fuel => by rw [ran, ran]) (ran 0)⟩
      simp [view, here]
    | some file =>
      obtain ⟨result, s', ran, sound', step⟩ :=
        @read_step _ _ fd buffer size file readable sized sound valid here
      refine ⟨size + 1, result, s', ran _ (Nat.lt_succ_self _), sound', step, ?_⟩
      intro fuel result' s'' ran'
      have same := read_unique ran' (ran (size + 1) (Nat.lt_succ_self _))
      exact ⟨congrArg Prod.fst same, congrArg Prod.snd same⟩

/-- A read that returns is of a number in the table. -/
theorem inTable_of_call (sound : s.Sound fs) {fuel : Nat} {call : ReadCall}
    {result : Except String Nat} (ran : s.call fuel call = some (result, s')) :
    ∀ fd buffer size, call = .read fd buffer size → fd < MAX_FDS := by
  intro fd buffer size same
  subst same
  by_contra outside
  have stops : s.table.get fd = none := by
    rw [FileDescriptorTable.get, (sound.table.outside (Nat.le_of_not_lt outside)).1]
  simp only [OpenReads.call, read, stops] at ran
  cases ran

/-- A valid call that returns is a step of the readers. -/
theorem simulation (readable : fs.flawless.Readable) (sized : fs.Sized) :
    Simulation (ValidStep fs) (Sound fs) view some Readers.Step := by
  have each {s s' : OpenReads} {e : ReadCall × Except String Nat} (sound : s.Sound fs)
      (step : ValidStep fs s e s') : s'.Sound fs ∧ s.view.Step e s'.view := by
    obtain ⟨valid, fuel, ran⟩ := step
    obtain ⟨call, result⟩ := e
    have inTable := inTable_of_call sound ran
    obtain ⟨-, result', s'', -, sound', step, unique⟩ :=
      call_step readable sized sound valid inTable
    obtain ⟨rfl, rfl⟩ := unique _ _ _ ran
    exact ⟨sound', step⟩
  exact
    { kept := fun sound step => (each sound step).1
      visible := fun sound step label => Option.some.inj label ▸ (each sound step).2
      silent := fun _ _ label => by cases label }

end OpenReads

/-- A process without open files, on a volume of which some blocks have been read. -/
def OpenReads.init (fs : FATFileSystem) (ns : List Nat) (memory : Memory) : OpenReads where
  table := .empty
  memory
  store := fs.readBlocks ns

end MatteOS.FileSystem
