import MatteOS.Utils.CircularStringBuffer
import MatteOS.Lib.Transition
import Mathlib.Data.List.Infix

/-!
# What the log buffer keeps

A buffer is well formed if its head is inside its block, and what is before the head is the end of
what was written (`Keeps`). A write of more bytes than the block has goes beyond it, and one
that fills the block leaves no room for the terminator of the next flush. A run without either
stays inside the block and keeps the end of the log (`buffer_agrees_iff`).
-/

namespace MatteOS.Utils

open Transition

/-- A buffer, and what was written to it since its construction or the last `clear`. -/
structure BufferRun where
  buffer : CircularStringBuffer
  written : List (BitVec 8)

namespace BufferRun

/-- What counts as written after a call. -/
def log (written : List (BitVec 8)) : BufferCall → List (BitVec 8)
  | .write data => written ++ data.val
  | .writeChar c => written ++ [c]
  | .flush => written
  | .clear => []

def step (s : BufferRun) (c : BufferCall) : BufferRun where
  buffer :=
    match s.buffer.call c with
    | .ok buffer => buffer
    | .error _ => s.buffer
  written := log s.written c

/-- The call writes inside the block only, and afterwards the string is a suffix of what was
written. -/
def Agrees (s : BufferRun) (c : BufferCall) : Prop :=
  ∃ buffer chars, s.buffer.call c = .ok buffer ∧ buffer.toString = .ok chars ∧
    chars <:+ log s.written c

/-- The block is not full where its contents are flushed, `len` bytes are not longer than it, and
an `int` counts the bytes. -/
def Room (b : CircularStringBuffer) (len : Nat) : Prop :=
  if b.head + len < b.size then b.head + len < 2 ^ 31
  else b.head ≠ b.size ∧ len ≤ b.size ∧ len < 2 ^ 31

/-- There is room for what the call writes. -/
def Fits (s : BufferRun) : BufferCall → Prop
  | .write data => Room s.buffer data.val.length
  | .writeChar _ => Room s.buffer 1
  | .flush => s.buffer.head ≠ s.buffer.size
  | .clear => True

/-- The invariant of the calls that fit. -/
structure Keeps (s : BufferRun) : Prop where
  block : s.buffer.buffer.length = s.buffer.size
  counted : s.buffer.size % 2 ^ 32 < 2 ^ 31
  positive : 0 < s.buffer.size
  bounded : s.buffer.size < 2 ^ 64
  head : s.buffer.head ≤ s.buffer.size
  small : s.buffer.head < 2 ^ 31
  suffix : s.buffer.buffer.take s.buffer.head <:+ s.written

end BufferRun

open BufferRun

namespace CircularStringBuffer

variable {b : CircularStringBuffer} {s : BufferRun} {start n : Nat} {bytes : List (BitVec 8)}

theorem intRounds_eq (small : n < 2 ^ 31) : intRounds n = .ok n := by
  rw [intRounds, Nat.mod_eq_of_lt (by omega), if_pos small]

theorem store_eq (inside : start + bytes.length ≤ b.buffer.length) :
    b.store start bytes = .ok { b with
      buffer := b.buffer.take start ++ bytes ++ b.buffer.drop (start + bytes.length) } :=
  if_pos inside

theorem store_undefined (outside : b.buffer.length < start + bytes.length) :
    b.store start bytes = .error .undefined := if_neg (Nat.not_le.2 outside)

theorem length_store (inside : start + bytes.length ≤ b.buffer.length) :
    (b.buffer.take start ++ bytes ++ b.buffer.drop (start + bytes.length)).length =
      b.buffer.length := by
  simp only [List.length_append, List.length_take, List.length_drop]
  omega

theorem take_store (inside : start + bytes.length ≤ b.buffer.length) :
    (b.buffer.take start ++ bytes ++ b.buffer.drop (start + bytes.length)).take
      (start + bytes.length) = b.buffer.take start ++ bytes := by
  refine List.take_left' ?_
  simp only [List.length_append, List.length_take]
  omega

/-- A buffer that was cleared: its block is as large as before. -/
theorem clear_eq (block : b.buffer.length = b.size) (counted : b.size % 2 ^ 32 < 2 ^ 31) :
    ∃ buffer, b.clear = .ok { buffer, size := b.size, head := 0 } ∧ buffer.length = b.size := by
  have inside : 0 + (List.replicate (b.size % 2 ^ 32) (0 : BitVec 8)).length ≤ b.buffer.length := by
    rw [List.length_replicate, block, Nat.zero_add]
    exact Nat.mod_le _ _
  refine ⟨_, ?_, (length_store inside).trans block⟩
  rw [clear, zero, intRounds, if_pos counted, ok_bind, store_eq inside]
  rfl

/-- A flush needs room for the terminator. -/
theorem flush_eq (block : b.buffer.length = b.size) (counted : b.size % 2 ^ 32 < 2 ^ 31)
    (room : b.head < b.size) :
    ∃ buffer, b.flush = .ok { buffer, size := b.size, head := 0 } ∧ buffer.length = b.size := by
  by_cases empty : b.head = 0
  · refine ⟨b.buffer, ?_, block⟩
    rw [flush, if_pos empty, ← empty]
  · have inside : b.head + [(0 : BitVec 8)].length ≤ b.buffer.length := by
      rw [block]
      exact room
    obtain ⟨buffer, cleared, length⟩ := clear_eq
      (b := { b with buffer := b.buffer.take b.head ++ [0] ++ b.buffer.drop (b.head + 1) })
      ((length_store inside).trans block) counted
    exact ⟨buffer, by rw [flush, if_neg empty, store_eq inside, ok_bind]; exact cleared, length⟩

theorem flush_undefined (block : b.buffer.length = b.size) (positive : 0 < b.size)
    (full : b.head = b.size) : b.flush = .error .undefined := by
  have outside : b.buffer.length < b.head + [(0 : BitVec 8)].length := by
    rw [block, full]
    exact Nat.lt_succ_self _
  rw [flush, if_neg (by omega), store_undefined outside]
  rfl

theorem toString_eq (inside : b.head ≤ b.buffer.length) (small : b.head < 2 ^ 31) :
    b.toString = .ok (b.buffer.take b.head) := by
  rw [toString, intRounds_eq small, ok_bind, if_pos ⟨rfl, inside⟩]
  rfl

theorem small_of_toString {chars : List (BitVec 8)} (string : b.toString = .ok chars) :
    b.head < 2 ^ 31 := by
  obtain ⟨n, rounds, rest⟩ := bind_eq_ok string
  split_ifs at rest with copied
  rw [intRounds] at rounds
  split_ifs at rounds with counted
  have count := Except.ok.inj rounds
  omega

/-- Bytes behind the head, which moves behind them. -/
theorem put_keeps (keeps : Keeps s) {bytes : List (BitVec 8)}
    (room : s.buffer.head + bytes.length ≤ s.buffer.size)
    (small : s.buffer.head + bytes.length < 2 ^ 31) :
    ∃ b', s.buffer.put bytes bytes.length = .ok b' ∧ Keeps ⟨b', s.written ++ bytes⟩ := by
  have inside : s.buffer.head + bytes.length ≤ s.buffer.buffer.length := by
    rw [keeps.block]
    exact room
  refine ⟨_, by rw [put, store_eq inside, ok_bind]; rfl, ?_⟩
  rw [Nat.mod_eq_of_lt (by omega)]
  refine ⟨(length_store inside).trans keeps.block, keeps.counted, keeps.positive, keeps.bounded,
    room, small, ?_⟩
  rw [take_store inside]
  obtain ⟨before, log⟩ := keeps.suffix
  exact ⟨before, by rw [← List.append_assoc, log]⟩

/-- An emptied buffer keeps the empty suffix. -/
theorem keeps_empty (keeps : Keeps s) {buffer : List (BitVec 8)}
    (block : buffer.length = s.buffer.size) (written : List (BitVec 8)) :
    Keeps ⟨{ buffer, size := s.buffer.size, head := 0 }, written⟩ :=
  ⟨block, keeps.counted, keeps.positive, keeps.bounded, Nat.zero_le _, by simp,
    List.nil_suffix⟩

end CircularStringBuffer

namespace BufferRun

open CircularStringBuffer

variable {s : BufferRun} {c : BufferCall}

/-- What a write finds behind its flush. -/
theorem flushFor_keeps (keeps : Keeps s) {len : Nat} (fits : Room s.buffer len) :
    ∃ b, s.buffer.flushFor len = .ok b ∧ Keeps ⟨b, s.written⟩ ∧ b.head + len ≤ b.size ∧
      b.head + len < 2 ^ 31 := by
  have small := keeps.small
  have head := keeps.head
  unfold Room at fits
  split_ifs at fits with room
  · have modest : (s.buffer.head + len) % 2 ^ 64 = s.buffer.head + len :=
      Nat.mod_eq_of_lt (by omega)
    exact ⟨s.buffer, by rw [flushFor, modest, if_neg (by omega)], keeps, by omega, fits⟩
  · obtain ⟨notFull, le, counted⟩ := fits
    have modest : (s.buffer.head + len) % 2 ^ 64 = s.buffer.head + len :=
      Nat.mod_eq_of_lt (by omega)
    obtain ⟨buffer, flushed, block⟩ := flush_eq keeps.block keeps.counted (by omega)
    exact ⟨_, by rw [flushFor, modest, if_pos (by omega), flushed],
      keeps_empty keeps block s.written, by simpa using le, by simpa using counted⟩

theorem call_keeps (keeps : Keeps s) (fits : s.Fits c) :
    ∃ b', s.buffer.call c = .ok b' ∧ Keeps ⟨b', log s.written c⟩ := by
  cases c with
  | write data =>
    obtain ⟨b, flushed, keeps', room, small⟩ := flushFor_keeps keeps fits
    obtain ⟨b', written, keeps''⟩ := put_keeps keeps' room small
    have counted : data.val.length < 2 ^ 31 := by omega
    refine ⟨b', ?_, keeps''⟩
    rw [CircularStringBuffer.call, write, flushed, ok_bind, intRounds_eq counted, ok_bind,
      List.take_length]
    exact written
  | writeChar char =>
    obtain ⟨b, flushed, keeps', room, small⟩ := flushFor_keeps keeps fits
    have one : [char].length = 1 := rfl
    rw [← one] at room small
    obtain ⟨b', written, keeps''⟩ := put_keeps keeps' room small
    refine ⟨b', ?_, keeps''⟩
    rw [CircularStringBuffer.call, writeChar, flushed, ok_bind]
    exact written
  | flush =>
    have head := keeps.head
    have notFull : s.buffer.head ≠ s.buffer.size := fits
    obtain ⟨buffer, flushed, block⟩ := flush_eq keeps.block keeps.counted (by omega)
    exact ⟨_, flushed, keeps_empty keeps block _⟩
  | clear =>
    obtain ⟨buffer, cleared, block⟩ := clear_eq keeps.block keeps.counted
    exact ⟨_, cleared, keeps_empty keeps block _⟩

/-- A flush leaves the head where it is or at the start. -/
theorem head_of_flushFor {b b' : CircularStringBuffer} {len : Nat}
    (flushed : b.flushFor len = .ok b') : b'.head = b.head ∨ b'.head = 0 := by
  unfold flushFor flush at flushed
  split_ifs at flushed
  · exact .inl (by rw [Except.ok.inj flushed])
  · obtain ⟨b₁, -, flushed⟩ := bind_eq_ok flushed
    obtain ⟨b₂, -, flushed⟩ := bind_eq_ok flushed
    exact .inr (by rw [← Except.ok.inj flushed])
  · exact .inl (by rw [Except.ok.inj flushed])

/-- A write of more bytes than an `int` counts does not go through, or leaves a string that is not
copied. -/
theorem small_of_agrees (keeps : Keeps s) {data : Bytes64} {b : CircularStringBuffer}
    {chars : List (BitVec 8)} (run : s.buffer.write data = .ok b)
    (string : b.toString = .ok chars) : data.val.length < 2 ^ 31 := by
  have small := small_of_toString string
  have head := keeps.small
  obtain ⟨b₁, flushed, run⟩ := bind_eq_ok run
  obtain ⟨n, rounds, run⟩ := bind_eq_ok run
  obtain ⟨b₂, stored, run⟩ := bind_eq_ok run
  have moved : b.head = (b₁.head + data.val.length) % 2 ^ 64 := by
    rw [← Except.ok.inj run]
  have counted := data.property
  rw [intRounds] at rounds
  split_ifs at rounds with positive
  rcases head_of_flushFor flushed with same | start <;> omega

/-- A write that goes through had room. -/
theorem room_of_write (keeps : Keeps s) {bytes : List (BitVec 8)} {b b' : CircularStringBuffer}
    {chars : List (BitVec 8)} (small : bytes.length < 2 ^ 31)
    (flushed : s.buffer.flushFor bytes.length = .ok b)
    (written : b.put bytes bytes.length = .ok b') (string : b'.toString = .ok chars) :
    Room s.buffer bytes.length := by
  have head := keeps.head
  have headSmall := keeps.small
  have modest : (s.buffer.head + bytes.length) % 2 ^ 64 = s.buffer.head + bytes.length :=
    Nat.mod_eq_of_lt (by omega)
  obtain ⟨b₁, stored, run⟩ := bind_eq_ok written
  have moved : b'.head = (b.head + bytes.length) % 2 ^ 64 := by
    rw [← Except.ok.inj run]
  have shown := small_of_toString string
  unfold Room
  split_ifs with room
  · rw [flushFor, modest, if_neg (by omega)] at flushed
    rw [moved, ← Except.ok.inj flushed, modest] at shown
    exact shown
  · by_cases full : s.buffer.head = s.buffer.size
    · rw [flushFor, modest, if_pos (by omega),
        flush_undefined keeps.block keeps.positive full] at flushed
      cases flushed
    · obtain ⟨buffer, emptied, block⟩ := flush_eq keeps.block keeps.counted (by omega)
      rw [flushFor, modest, if_pos (by omega), emptied] at flushed
      obtain rfl := Except.ok.inj flushed
      refine ⟨full, ?_, small⟩
      by_contra long
      rw [store_undefined (by simp only [block]; omega)] at stored
      cases stored

theorem fits_of_agrees (keeps : Keeps s) (agrees : s.Agrees c) : s.Fits c := by
  obtain ⟨b', chars, run, string, -⟩ := agrees
  cases c with
  | write data =>
    have small := small_of_agrees keeps run string
    obtain ⟨b, flushed, run⟩ := bind_eq_ok run
    rw [intRounds_eq small, ok_bind, List.take_length] at run
    exact room_of_write keeps small flushed run string
  | writeChar char =>
    obtain ⟨b, flushed, run⟩ := bind_eq_ok run
    exact room_of_write keeps (show [char].length < 2 ^ 31 by simp) flushed run string
  | flush =>
    intro full
    rw [CircularStringBuffer.call, flush_undefined keeps.block keeps.positive full] at run
    cases run
  | clear => trivial

theorem agrees_of_fits (keeps : Keeps s) (fits : s.Fits c) : s.Agrees c := by
  obtain ⟨b', run, keeps'⟩ := call_keeps keeps fits
  exact ⟨b', _, run, toString_eq (by rw [keeps'.block]; exact keeps'.head) keeps'.small,
    keeps'.suffix⟩

theorem step_keeps (keeps : Keeps s) (fits : s.Fits c) : Keeps (s.step c) := by
  obtain ⟨b', run, keeps'⟩ := call_keeps keeps fits
  rw [step, run]
  exact keeps'

/-- A new buffer, before its first call. -/
def start (raw : Bytes64) : BufferRun where
  buffer :=
    { buffer := List.replicate (raw.val.length % 2 ^ 32) 0 ++
        raw.val.drop (raw.val.length % 2 ^ 32)
      size := raw.val.length
      head := 0 }
  written := []

/-- The constructor clears the block if an `int` counts its bytes. -/
theorem create_eq_ok_iff {raw : Bytes64} (capacity : 0 < raw.val.length)
    {b : CircularStringBuffer} : create raw = .ok b ↔
      raw.val.length % 2 ^ 32 < 2 ^ 31 ∧ b = (start raw).buffer := by
  have inside : 0 + (List.replicate (raw.val.length % 2 ^ 32) (0 : BitVec 8)).length ≤
      raw.val.length := by
    rw [List.length_replicate, Nat.zero_add]
    exact Nat.mod_le _ _
  rw [create, decide_eq_true capacity, runtimeAssert_true, ok_bind, zero, intRounds]
  split_ifs with counted
  · rw [ok_bind, store_eq inside]
    simp only [counted, true_and, Except.ok.injEq, eq_comm (b := b)]
    simp [start]
  · simp only [counted, false_and, iff_false]
    exact fun never => by cases never

theorem start_keeps {raw : Bytes64} (capacity : 0 < raw.val.length)
    (counted : raw.val.length % 2 ^ 32 < 2 ^ 31) : Keeps (start raw) where
  block := by
    have le := Nat.mod_le raw.val.length (2 ^ 32)
    simp only [start, List.length_append, List.length_replicate, List.length_drop]
    omega
  counted := counted
  positive := capacity
  bounded := raw.property
  head := Nat.zero_le _
  small := by simp [start]
  suffix := List.nil_suffix

end BufferRun

/-- **The log buffer.** The constructor and the calls of a run stay inside the block, and the string
is a suffix of what was written, if and only if an `int` counts the capacity and each call finds
room. -/
theorem buffer_agrees_iff (raw : Bytes64) (capacity : 0 < raw.val.length)
    (calls : List BufferCall) :
    (∃ b, CircularStringBuffer.create raw = .ok b ∧
      Along BufferRun.step BufferRun.Agrees ⟨b, []⟩ calls) ↔
      raw.val.length % 2 ^ 32 < 2 ^ 31 ∧
        Along BufferRun.step BufferRun.Fits (BufferRun.start raw) calls := by
  have along : raw.val.length % 2 ^ 32 < 2 ^ 31 →
      (Along BufferRun.step BufferRun.Agrees (BufferRun.start raw) calls ↔
        Along BufferRun.step BufferRun.Fits (BufferRun.start raw) calls) := fun counted =>
    Along.iff (J := BufferRun.Keeps) (G := fun _ _ => True)
      (fun s c keeps _ => ⟨BufferRun.fits_of_agrees keeps, BufferRun.agrees_of_fits keeps⟩)
      (fun s c keeps _ agrees =>
        BufferRun.step_keeps keeps (BufferRun.fits_of_agrees keeps agrees))
      (BufferRun.start_keeps capacity counted) (Along.of_forall (fun _ _ => trivial) _ _)
  constructor
  · rintro ⟨b, created, agrees⟩
    obtain ⟨counted, rfl⟩ := (BufferRun.create_eq_ok_iff capacity).1 created
    exact ⟨counted, (along counted).1 agrees⟩
  · rintro ⟨counted, fits⟩
    exact ⟨_, (BufferRun.create_eq_ok_iff capacity).2 ⟨counted, rfl⟩, (along counted).2 fits⟩

/-- Two characters go into a block of three. -/
theorem buffer_agrees_iff_three :
    (∃ b, CircularStringBuffer.create ⟨[7, 7, 7], by decide⟩ = .ok b ∧
      Along BufferRun.step BufferRun.Agrees ⟨b, []⟩ [.writeChar 0x61, .writeChar 0x62]) ↔
      3 % 2 ^ 32 < 2 ^ 31 ∧ Along BufferRun.step BufferRun.Fits
        (BufferRun.start ⟨[7, 7, 7], by decide⟩) [.writeChar 0x61, .writeChar 0x62] :=
  buffer_agrees_iff ⟨[7, 7, 7], by decide⟩ (by decide) _

/-- A write of two characters fills a block of two, and the flush before the next one puts its NUL
behind it. -/
theorem not_agrees_full :
    ¬∃ b, CircularStringBuffer.create ⟨[7, 7], by decide⟩ = .ok b ∧
      Along BufferRun.step BufferRun.Agrees ⟨b, []⟩
        [.write ⟨[0x61, 0x62], by decide⟩, .writeChar 0x63] := by
  rintro ⟨b, created, -, ⟨b', chars, run, -⟩, -⟩
  obtain rfl := Except.ok.inj created
  cases run

end MatteOS.Utils
