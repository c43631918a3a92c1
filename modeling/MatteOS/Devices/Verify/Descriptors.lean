import MatteOS.Devices.BlockOperation
import MatteOS.Lib.Transition

/-!
# When a submission leaves the descriptors of others alone

Submission number `n` takes the three slots from `3 * n % 128` on, whatever is in flight.
It writes a slot of request `m` exactly when `3 * (n - m) % 128` is one of 126, 127, 0, 1
and 2, which first happens 42 submissions later. In every run, no in-flight slot is ever
written if and only if no submission is made at such a distance from a request in flight
(`descriptors_kept_iff`).
-/

namespace MatteOS.Devices

open Transition

namespace VirtIOQueue

variable (q : VirtIOQueue)

/-- The slots of the descriptor chain that starts at `head`. -/
def slots (head : Nat) : List Nat := [head, (head + 1) % 128, (head + 2) % 128]

@[simp] theorem setDescriptor_queueIndex (i : Nat) (d : VirtQueueDescriptor) :
    (q.setDescriptor i d).queueIndex = q.queueIndex := rfl

@[simp] theorem setDescriptor_descriptors (i : Nat) (d : VirtQueueDescriptor) :
    (q.setDescriptor i d).descriptors = Function.update q.descriptors i d := rfl

/-- Where two chains share a slot. -/
theorem slots_meet_iff {a b : Nat} (ha : a < 128) (hb : b < 128) :
    (∃ slot ∈ slots a, slot ∈ slots b) ↔ (b + 128 - a) % 128 ∈ [126, 127, 0, 1, 2] := by
  simp only [slots, List.mem_cons, List.not_mem_nil, or_false, exists_eq_or_imp, exists_eq_left]
  constructor
  · rintro ((h | h | h) | (h | h | h) | h | h | h) <;> omega
  · rintro (h | h | h | h | h)
    · exact Or.inl (Or.inr (Or.inr (by omega)))
    · exact Or.inl (Or.inr (Or.inl (by omega)))
    · exact Or.inl (Or.inl (by omega))
    · exact Or.inr (Or.inl (Or.inl (by omega)))
    · exact Or.inr (Or.inr (Or.inl (by omega)))

/-- The descriptor as `add_to_queue` stores it in slot `i`. -/
def linked (i : Nat) (d : VirtQueueDescriptor) : VirtQueueDescriptor :=
  if d.flags &&& VirtQueueDescriptorFlags.Next ≠ 0 then
    { d with next := BitVec.ofNat 16 ((i + 1) % 128) }
  else d

@[simp] theorem linked_address (i : Nat) (d : VirtQueueDescriptor) :
    (linked i d).address = d.address := by
  unfold linked
  split <;> rfl

/-- `add_to_queue` stores the descriptor at the cursor and moves the cursor on. -/
theorem addToQueue_eq (d : VirtQueueDescriptor) :
    q.addToQueue d = (.ok (BitVec.ofNat 32 q.queueIndex),
      { q with
        descriptors := Function.update q.descriptors q.queueIndex (linked q.queueIndex d)
        queueIndex := (q.queueIndex + 1) % 128 }) := by
  simp only [addToQueue, getNextQueueIndex, linked, VIRTIO_RING_SIZE]
  split <;> simp [setDescriptor]

/-- The three descriptors of a request, written from the cursor on. -/
def publish (address : BitVec 64) (op : BlockOperation) : Nat → VirtQueueDescriptor :=
  let i := q.queueIndex
  Function.update
    (Function.update
      (Function.update q.descriptors i (linked i (BlockOperation.headerDescriptor address)))
      ((i + 1) % 128) (linked ((i + 1) % 128) op.bufferDescriptor))
    ((i + 2) % 128) (linked ((i + 2) % 128) (BlockOperation.statusDescriptor address))

variable {q}

theorem publish_of_not_mem {address : BitVec 64} {op : BlockOperation} {i : Nat}
    (h : i ∉ slots q.queueIndex) : q.publish address op i = q.descriptors i := by
  simp only [slots, List.mem_cons, List.not_mem_nil, or_false, not_or] at h
  obtain ⟨h0, h1, h2⟩ := h
  unfold publish
  rw [Function.update_of_ne h2, Function.update_of_ne h1, Function.update_of_ne h0]

/-- What a slot of the request holds does not depend on what it held before. -/
theorem publish_of_mem {address : BitVec 64} {op : BlockOperation} {i : Nat}
    (h : i ∈ slots q.queueIndex) (j : Nat) (d : VirtQueueDescriptor) :
    (q.setDescriptor i d).publish address op j = q.publish address op j := by
  simp only [slots, List.mem_cons, List.not_mem_nil, or_false] at h
  simp only [publish, setDescriptor_queueIndex, setDescriptor_descriptors, Function.update_apply]
  grind

end VirtIOQueue

open VirtIOQueue

section

variable {address : BitVec 64} {op : BlockOperation} {q : VirtIOQueue} {h : RequestHeap}

theorem blockOperation_invalid (invalid : op.size % 512 ≠ 0) :
    blockOperation address op q h =
      (.error "BlockIODriver: Size must be a multiple of 512 bytes.", q, h) := by
  unfold blockOperation
  rw [if_pos invalid]

/-- A valid `block_operation` publishes the request and succeeds. -/
theorem blockOperation_valid (valid : op.size % 512 = 0) :
    ∃ q', blockOperation address op q h = (.ok address, q', h.create address op.request) ∧
      q'.descriptors = q.publish address op ∧ q'.queueIndex = (q.queueIndex + 3) % 128 ∧
      q'.used = q.used ∧ q'.queueAck = q.queueAck ∧ q'.available =
        { index := q.available.index + 1
          ring := Function.update q.available.ring (q.available.index.toNat % 128)
            (BitVec.ofNat 16 q.queueIndex) } := by
  have second : ((q.queueIndex + 1) % 128 + 1) % 128 = (q.queueIndex + 2) % 128 := by omega
  have third : ((q.queueIndex + 2) % 128 + 1) % 128 = (q.queueIndex + 3) % 128 := by omega
  unfold blockOperation
  rw [if_neg (by simpa using valid)]
  simp only [addToQueue_eq, second, third]
  refine ⟨_, rfl, rfl, rfl, rfl, rfl, ?_⟩
  rw [addToAvailable, BitVec.setWidth_ofNat_of_le (by decide)]
  rfl

end

namespace SubmissionRun

variable {s : SubmissionRun}

/-- The driver writes the slot in this step: what it holds afterwards is not, whatever it held, what
it held before. -/
def Writes (s : SubmissionRun) (e : SubmissionEvent) (slot : Nat) : Prop :=
  ∃ d, ({ s with queue := s.queue.setDescriptor slot d }.step e).queue.descriptors slot ≠ d

/-- No slot of a request in flight is written. -/
def Kept (s : SubmissionRun) (e : SubmissionEvent) : Prop :=
  ∀ r ∈ s.inFlight, ∀ slot ∈ slots r.2, ¬ s.Writes e slot

/-- A submission that goes through is not made at a distance from a request in flight at which the
cursor comes around to its slots. -/
def Distant (s : SubmissionRun) : SubmissionEvent → Prop
  | .submit _ op => op.size % 512 = 0 →
    ∀ r ∈ s.inFlight, 3 * (s.submitted - r.1) % 128 ∉ [126, 127, 0, 1, 2]
  | .complete _ _ => True

instance (s : SubmissionRun) : ∀ e, Decidable (s.Distant e)
  | .submit _ _ => inferInstanceAs (Decidable (_ → _))
  | .complete _ _ => isTrue trivial

/-- The cursor and the heads are where the number of the submission puts them. -/
structure Numbered (s : SubmissionRun) : Prop where
  cursor : s.queue.queueIndex = 3 * s.submitted % 128
  heads : ∀ r ∈ s.inFlight, r.1 < s.submitted ∧ r.2 = 3 * r.1 % 128

theorem step_submit_invalid {address : BitVec 64} {op : BlockOperation}
    (invalid : op.size % 512 ≠ 0) : s.step (.submit address op) = s := by
  simp only [step, blockOperation_invalid invalid]

theorem step_submit_valid {address : BitVec 64} {op : BlockOperation} (valid : op.size % 512 = 0) :
    (s.step (.submit address op)).queue.descriptors = s.queue.publish address op ∧
      (s.step (.submit address op)).queue.queueIndex = (s.queue.queueIndex + 3) % 128 ∧
      (s.step (.submit address op)).submitted = s.submitted + 1 ∧
      (s.step (.submit address op)).inFlight =
        s.inFlight ++ [(s.submitted, s.queue.queueIndex)] := by
  obtain ⟨q', run, descriptors, index, -, -⟩ :=
    @blockOperation_valid address op s.queue s.heap valid
  simp only [step, run]
  exact ⟨descriptors, index, trivial, trivial⟩

/-- A completion touches the used ring only. -/
theorem step_complete (number : Nat) (length : BitVec 32) :
    (s.step (.complete number length)).queue.descriptors = s.queue.descriptors ∧
      (s.step (.complete number length)).queue.queueIndex = s.queue.queueIndex ∧
      (s.step (.complete number length)).submitted = s.submitted ∧
      (s.step (.complete number length)).inFlight ⊆ s.inFlight := by
  simp only [step]
  split
  · exact ⟨rfl, rfl, rfl, fun _ h => h⟩
  · exact ⟨rfl, rfl, rfl, List.erase_subset⟩

theorem Numbered.step (inv : s.Numbered) (e : SubmissionEvent) : (s.step e).Numbered := by
  cases e with
  | submit address op =>
    by_cases valid : op.size % 512 = 0
    · obtain ⟨-, index, submitted, inFlight⟩ := @step_submit_valid s address op valid
      refine ⟨?_, fun r hr => ?_⟩
      · rw [index, submitted, inv.cursor]
        omega
      · rw [inFlight, List.mem_append, List.mem_singleton] at hr
        rw [submitted]
        rcases hr with hr | rfl
        · obtain ⟨lt, head⟩ := inv.heads r hr
          exact ⟨by omega, head⟩
        · exact ⟨Nat.lt_succ_self _, inv.cursor⟩
    · rw [step_submit_invalid valid]
      exact inv
  | complete number length =>
    obtain ⟨-, index, submitted, inFlight⟩ := @step_complete s number length
    refine ⟨by rw [index, submitted]; exact inv.cursor, fun r hr => ?_⟩
    rw [submitted]
    exact inv.heads r (inFlight hr)

/-- A submission writes the three slots from the cursor on and no other. -/
theorem writes_submit_iff {address : BitVec 64} {op : BlockOperation} (valid : op.size % 512 = 0)
    (slot : Nat) : s.Writes (.submit address op) slot ↔ slot ∈ slots s.queue.queueIndex := by
  unfold Writes
  simp only [(step_submit_valid valid).1]
  constructor
  · rintro ⟨d, changed⟩
    by_contra outside
    apply changed
    rw [publish_of_not_mem (by exact outside)]
    exact Function.update_self _ _ _
  · intro inside
    -- a descriptor other than the one that is stored
    let stored := s.queue.publish address op slot
    refine ⟨{ stored with length := stored.length + 1 }, ?_⟩
    rw [publish_of_mem inside]
    intro same
    have : stored.length = stored.length + 1 := congrArg VirtQueueDescriptor.length same
    bv_omega

theorem not_writes_complete (number : Nat) (length : BitVec 32) (slot : Nat) :
    ¬ s.Writes (.complete number length) slot := by
  rintro ⟨d, changed⟩
  apply changed
  rw [(step_complete number length).1]
  exact Function.update_self _ _ _

/-- **One step.** A submission keeps the slots in flight exactly when it is distant from them. -/
theorem Numbered.kept_iff_distant (inv : s.Numbered) (e : SubmissionEvent) : s.Kept e ↔ s.Distant e := by
  cases e with
  | submit address op =>
    by_cases valid : op.size % 512 = 0
    · simp only [Kept, Distant, writes_submit_iff valid, valid, true_imp_iff]
      refine forall₂_congr fun r hr => ?_
      obtain ⟨lt, head⟩ := inv.heads r hr
      have distance : 3 * (s.submitted - r.1) % 128 = (s.queue.queueIndex + 128 - r.2) % 128 := by
        rw [inv.cursor, head]
        omega
      have cursor := inv.cursor
      rw [distance, ← slots_meet_iff (by omega) (by omega)]
      simp only [not_exists, not_and]
    · simp only [Kept, Distant, valid, false_imp_iff, iff_true]
      rintro r - slot - ⟨d, changed⟩
      rw [step_submit_invalid valid] at changed
      exact changed (Function.update_self _ _ _)
  | complete number length =>
    simp only [Kept, Distant, iff_true]
    intro r _ slot _
    exact not_writes_complete number length slot

theorem init_numbered (descriptors : Nat → VirtQueueDescriptor)
    (usedRing : Nat → VirtQueueUsedElement) (availableRing : Nat → BitVec 16) (heap : RequestHeap) :
    (init descriptors usedRing availableRing heap).Numbered :=
  ⟨rfl, fun _ hr => absurd hr List.not_mem_nil⟩

end SubmissionRun

/-! ## Runs -/

/-- **Descriptors in flight.** In every run of submissions and completions, whatever their order, no
step writes a slot of a request in flight if and only if every submission is distant from the
requests in flight. -/
theorem descriptors_kept_iff (descriptors : Nat → VirtQueueDescriptor)
    (usedRing : Nat → VirtQueueUsedElement) (availableRing : Nat → BitVec 16) (heap : RequestHeap)
    (events : List SubmissionEvent) :
    Along SubmissionRun.step SubmissionRun.Kept
        (.init descriptors usedRing availableRing heap) events ↔
      Along SubmissionRun.step SubmissionRun.Distant
        (.init descriptors usedRing availableRing heap) events := by
  apply Along.iff (J := SubmissionRun.Numbered) (G := fun _ _ => True)
  · intro s e inv _
    exact inv.kept_iff_distant e
  · intro s e inv _ _
    exact inv.step e
  · exact SubmissionRun.init_numbered descriptors usedRing availableRing heap
  · exact Along.of_forall (fun _ _ => trivial) _ events

/-- 43 submissions that the device takes its time with. -/
def burst : List SubmissionEvent :=
  List.replicate 43 (.submit 0x80010000 ⟨7, 0x80020000, 512, 0, false⟩)

/-- The third descriptor of the last one is written over the first of the first. -/
theorem not_descriptors_kept_burst :
    ¬ Along SubmissionRun.step SubmissionRun.Kept
        (.init (fun _ => ⟨0, 0, 0, 0⟩) (fun _ => ⟨0, 0⟩) (fun _ => 0)
          ⟨fun _ => ⟨⟨0, 0⟩, ⟨0, 0, 0⟩, 0⟩, fun _ => false, false⟩) burst := by
  rw [Along.iff (J := SubmissionRun.Numbered) (G := fun _ _ => True)
    (fun s e inv _ => inv.kept_iff_distant e) (fun s e inv _ _ => inv.step e)
    (SubmissionRun.init_numbered _ _ _ _) (Along.of_forall (fun _ _ => trivial) _ _)]
  decide +kernel

end MatteOS.Devices
