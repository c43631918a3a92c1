import MatteOS.Devices.BlockIODriver
import MatteOS.Lib.Ring
import MatteOS.Lib.Transition

/-!
# When the used ring delivers every completion once

With `p` elements produced and `c` of them obtained, the driver compares `c % 128` with
`p % 65536`, so that it takes an empty queue for a filled one as soon as `p % 65536`
reaches 128. `PollsClear p c` says where the comparison is right; a run delivers every
element once exactly when each of its polls is made there (`exactly_once_iff`), and
`notify` ends exactly when `p % 65536 < 128` (`notify_ends_iff`).
-/

namespace MatteOS.Devices

open Transition Ring

/-- With `p` elements produced and `c` of them consumed, the two indices are equal exactly when
nothing is outstanding: an empty queue is polled with `p` below 128, a full one with `p` from 128
on, both modulo the 16-bit counter. -/
def PollsClear (p c : Nat) : Prop :=
  (c = p → p % 65536 < 128) ∧ (p = c + 128 → 128 ≤ p % 65536)

instance (p c : Nat) : Decidable (PollsClear p c) := inferInstanceAs (Decidable (_ ∧ _))

theorem pollsClear_iff {p c : Nat} (h1 : c ≤ p) (h2 : p ≤ c + 128) :
    PollsClear p c ↔ (c % 128 = p % 65536 ↔ c = p) := by
  unfold PollsClear
  omega

/-! ## Properties of a step -/

/-- The device never has more than 128 elements outstanding. -/
def QueueRun.Admissible (s : QueueRun) : QueueEvent → Prop
  | .complete _ => s.produced.length < s.obtained.length + 128
  | .poll => True

instance (s : QueueRun) : ∀ e, Decidable (s.Admissible e)
  | .complete _ => inferInstanceAs (Decidable (_ < _))
  | .poll => isTrue trivial

/-- The step keeps the obtained elements a prefix of the produced ones, and a poll finds nothing
exactly when everything has been consumed. -/
def QueueRun.Right (s : QueueRun) (e : QueueEvent) : Prop :=
  (s.step e).obtained <+: (s.step e).produced ∧
    (e = .poll → (s.device.getNextUsedDescriptor.1 = .error "No used descriptor available." ↔
      s.obtained.length = s.produced.length))

/-- A poll is made where the two indices can be compared. -/
def QueueRun.Clear (s : QueueRun) : QueueEvent → Prop
  | .complete _ => True
  | .poll => PollsClear s.produced.length s.obtained.length

instance (s : QueueRun) : ∀ e, Decidable (s.Clear e)
  | .complete _ => isTrue trivial
  | .poll => inferInstanceAs (Decidable (PollsClear _ _))

/-! ## The invariant of a run that has been right so far -/

structure QueueRun.Inv (s : QueueRun) : Prop where
  ordered : s.obtained <+: s.produced
  ack : s.device.queueAck = s.obtained.length % 128
  index : s.device.used.index.toNat = s.produced.length % 65536
  ring : Remembers 128 s.device.used.ring s.produced
  outstanding : s.produced.length ≤ s.obtained.length + 128

namespace QueueRun

theorem init_inv (descriptors : Nat → VirtQueueDescriptor) (ring : Nat → VirtQueueUsedElement) :
    (init descriptors ring).Inv :=
  ⟨List.prefix_rfl, rfl, rfl, remembers_nil _ _, Nat.zero_le _⟩

namespace Inv

variable {s : QueueRun}

theorem complete (inv : s.Inv) {element : VirtQueueUsedElement}
    (room : s.produced.length < s.obtained.length + 128) : (s.step (.complete element)).Inv where
  ordered := inv.ordered.trans (List.prefix_append _ _)
  ack := inv.ack
  index := by
    simp only [step, VirtIODevice.complete, BitVec.toNat_add, inv.index, List.length_append,
      List.length_singleton]
    simp
  ring := by
    have slot : s.device.used.index.toNat % 128 = s.produced.length % 128 := by
      rw [inv.index]
      omega
    simp only [step, VirtIODevice.complete, VIRTIO_RING_SIZE, slot]
    exact inv.ring.push element
  outstanding := by
    simp only [step, List.length_append, List.length_singleton]
    omega

/-- A poll with nothing to compare wrong takes the next element, if there is one. -/
theorem poll_error (inv : s.Inv)
    (h : s.obtained.length % 128 = s.produced.length % 65536) :
    s.device.getNextUsedDescriptor = (.error "No used descriptor available.", s.device) := by
  unfold VirtIODevice.getNextUsedDescriptor
  rw [if_pos (by rw [inv.ack, inv.index, h])]

theorem poll_ok (inv : s.Inv) (h : s.obtained.length % 128 ≠ s.produced.length % 65536) :
    s.device.getNextUsedDescriptor = (.ok (s.device.used.ring (s.obtained.length % 128)),
      { s.device with queueAck := (s.obtained.length + 1) % 128 }) := by
  unfold VirtIODevice.getNextUsedDescriptor
  rw [if_neg (by rw [inv.ack, inv.index]; exact h)]
  simp [inv.ack, VIRTIO_RING_SIZE]

/-- Where something is outstanding, the element taken is the next one of the stream. -/
theorem poll_next (inv : s.Inv) (h : s.obtained.length < s.produced.length) :
    s.obtained ++ [s.device.used.ring (s.obtained.length % 128)] <+: s.produced := by
  have item := inv.ring s.obtained.length h inv.outstanding
  obtain ⟨rest, e⟩ := inv.ordered
  cases rest with
  | nil =>
    rw [List.append_nil] at e
    rw [e] at h
    omega
  | cons x rest =>
    rw [← e, List.getElem?_append_right (Nat.le_refl _), Nat.sub_self, List.getElem?_cons_zero,
      Option.some.injEq] at item
    rw [← item, ← e]
    exact ⟨rest, by simp⟩

/-- Every step that is right keeps the invariant. -/
theorem step_right (inv : s.Inv) {e : QueueEvent} (ok : s.Admissible e) (right : s.Right e) :
    (s.step e).Inv := by
  cases e with
  | complete element => exact inv.complete ok
  | poll =>
    obtain ⟨pre, -⟩ := right
    have le := inv.ordered.length_le
    by_cases h : s.obtained.length % 128 = s.produced.length % 65536
    · simp only [step, inv.poll_error h]
      exact inv
    · simp only [step, inv.poll_ok h] at pre ⊢
      have lt : s.obtained.length < s.produced.length := by
        have := pre.length_le
        simp only [List.length_append, List.length_singleton] at this
        omega
      refine ⟨pre, ?_, inv.index, inv.ring, ?_⟩ <;>
        simp only [List.length_append, List.length_singleton]
      have := inv.outstanding
      omega

/-- **One step.** A poll is right exactly where the indices can be compared. -/
theorem right_iff_clear (inv : s.Inv) {e : QueueEvent} (ok : s.Admissible e) :
    s.Right e ↔ s.Clear e := by
  cases e with
  | complete element =>
    have inv' : (s.step (.complete element)).Inv := inv.complete ok
    exact ⟨fun _ => trivial, fun _ => ⟨inv'.ordered, fun h => by simp at h⟩⟩
  | poll =>
    have le := inv.ordered.length_le
    unfold Right Clear
    simp only [forall_const]
    rw [pollsClear_iff le inv.outstanding]
    by_cases h : s.obtained.length % 128 = s.produced.length % 65536
    · simp only [step, inv.poll_error h, h, true_iff]
      exact ⟨fun r => r.2, fun r => ⟨inv.ordered, r⟩⟩
    · simp only [step, inv.poll_ok h, h, false_iff, reduceCtorEq]
      refine ⟨fun r => r.2, fun r => ⟨inv.poll_next (by omega), r⟩⟩

end Inv

end QueueRun

/-! ## `notify` -/

/-- The acknowledged index stays in the ring and the device counts its elements, in every run. -/
structure QueueRun.Counts (s : QueueRun) : Prop where
  ack : s.device.queueAck < 128
  index : s.device.used.index.toNat = s.produced.length % 65536

theorem QueueRun.Counts.step {s : QueueRun} (counts : s.Counts) (e : QueueEvent) :
    (s.step e).Counts := by
  cases e with
  | complete element =>
    refine ⟨counts.ack, ?_⟩
    simp only [QueueRun.step, VirtIODevice.complete, BitVec.toNat_add, counts.index,
      List.length_append, List.length_singleton]
    simp
  | poll =>
    simp only [QueueRun.step, VirtIODevice.getNextUsedDescriptor]
    by_cases h : s.device.queueAck = s.device.used.index.toNat
    · rw [if_pos h]
      exact counts
    · rw [if_neg h]
      exact ⟨Nat.mod_lt _ (by decide), counts.index⟩

namespace BlockIODriver

/-- A round of `notify` ends the loop at equal indices, and otherwise moves the acknowledged index
on, leaving the used index. -/
theorem notifyBody_cases (requests : BitVec 64 → BlockRequest) (b : BlockIODriver) :
    (b.device.queueAck = b.device.used.index.toNat ∧ notifyBody requests b = .done b) ∨
    (b.device.queueAck ≠ b.device.used.index.toNat ∧ ∃ b', notifyBody requests b = .again b' ∧
      b'.device.queueAck = (b.device.queueAck + 1) % 128 ∧
      b'.device.used.index = b.device.used.index) := by
  unfold notifyBody VirtIODevice.getNextUsedDescriptor
  by_cases h : b.device.queueAck = b.device.used.index.toNat
  · exact Or.inl ⟨h, by rw [if_pos h]⟩
  · refine Or.inr ⟨h, ?_⟩
    rw [if_neg h]
    simp only
    split
    · exact ⟨_, rfl, rfl, rfl⟩
    · exact ⟨_, rfl, rfl, rfl⟩

/-- The loop of `notify` ends exactly when the used index is one the acknowledged index reaches. -/
theorem notify_ends_iff (requests : BitVec 64 → BlockRequest) {b : BlockIODriver}
    (ack : b.device.queueAck < 128) :
    (∃ fuel r, notify fuel requests b = some r) ↔ b.device.used.index.toNat < 128 := by
  constructor
  · rintro ⟨fuel, r, run⟩
    by_contra large
    -- the acknowledged index stays below the used index for ever
    have forever : Loop.Diverges (notifyBody requests) { b with results := [] } := by
      refine Loop.diverges_of_invariant
        (I := fun b' => b'.device.queueAck < 128 ∧ b'.device.used.index = b.device.used.index)
        (fun b' ⟨low, same⟩ => ?_) ⟨ack, rfl⟩
      rcases notifyBody_cases requests b' with ⟨e, -⟩ | ⟨-, b'', next, ack', index'⟩
      · rw [same] at e
        omega
      · exact ⟨b'', next, by omega, index'.trans same⟩
    rw [notify, forever fuel] at run
    simp at run
  · intro small
    -- each round takes the acknowledged index closer to the used index
    have again : ∀ b' b'', (b'.device.queueAck < 128 ∧ b'.device.used.index = b.device.used.index) →
        notifyBody requests b' = .again b'' →
        (b''.device.queueAck < 128 ∧ b''.device.used.index = b.device.used.index) ∧
          (b.device.used.index.toNat + 128 - b''.device.queueAck) % 128 <
            (b.device.used.index.toNat + 128 - b'.device.queueAck) % 128 := by
      rintro b' b'' ⟨low, same⟩ next
      rcases notifyBody_cases requests b' with ⟨-, done⟩ | ⟨ne, c, next', ack', index'⟩
      · simp [done] at next
      · obtain rfl := Loop.Next.again.inj (next'.symm.trans next)
        rw [same] at ne
        exact ⟨⟨by omega, index'.trans same⟩, by omega⟩
    obtain ⟨r, run, -⟩ := Loop.run_of_variant (Q := fun _ => True) _ again
      (fun _ _ _ _ => trivial) (s := { b with results := [] }) ⟨ack, rfl⟩ (Nat.lt_succ_self _)
    exact ⟨_, r, run⟩

end BlockIODriver

/-! ## Runs -/

/-- **Every completion exactly once.** In a run in which the device never has more than 128 elements
outstanding, the obtained elements are always a prefix of the produced ones and polls find nothing
exactly when everything has been consumed, if and only if each poll is made where the two indices
can be compared. The loop of `notify` entered after the run ends if and only if the number of
produced elements is below 128 modulo the 16-bit counter. -/
theorem exactly_once_iff (descriptors : Nat → VirtQueueDescriptor)
    (ring : Nat → VirtQueueUsedElement) {events : List QueueEvent}
    (admissible : Along QueueRun.step QueueRun.Admissible (.init descriptors ring) events) :
    (Along QueueRun.step QueueRun.Right (.init descriptors ring) events ↔
      Along QueueRun.step QueueRun.Clear (.init descriptors ring) events) ∧
    ∀ (requests : BitVec 64 → BlockRequest) (b : BlockIODriver),
      b.device = (events.foldl QueueRun.step (.init descriptors ring)).device →
      ((∃ fuel r, b.notify fuel requests = some r) ↔
        (events.foldl QueueRun.step (.init descriptors ring)).produced.length % 65536 < 128) := by
  refine ⟨Along.iff (J := QueueRun.Inv) (fun s e inv ok => inv.right_iff_clear ok)
    (fun s e inv ok right => inv.step_right ok right) (QueueRun.init_inv descriptors ring)
    admissible, fun requests b device => ?_⟩
  have counts : (events.foldl QueueRun.step (.init descriptors ring)).Counts := by
    refine Along.invariant (P := fun _ _ => True) (fun s e counts _ => counts.step e)
      ⟨Nat.zero_lt_succ _, rfl⟩ ?_
    exact Along.imp (fun _ _ _ => trivial) admissible
  rw [← counts.index, ← device]
  exact BlockIODriver.notify_ends_iff requests (by rw [device]; exact counts.ack)

/-- Two elements produced and obtained, and a third poll that finds nothing. -/
theorem exactly_once_iff_two :
    Along QueueRun.step QueueRun.Right (.init (fun _ => ⟨0, 0, 0, 0⟩) fun _ => ⟨0, 0⟩)
        [.complete ⟨5, 512⟩, .complete ⟨8, 512⟩, .poll, .poll, .poll] ↔
      Along QueueRun.step QueueRun.Clear (.init (fun _ => ⟨0, 0, 0, 0⟩) fun _ => ⟨0, 0⟩)
        [.complete ⟨5, 512⟩, .complete ⟨8, 512⟩, .poll, .poll, .poll] :=
  (exactly_once_iff _ _ (by decide)).1

/-- 128 elements, each obtained as soon as it is produced, and one more poll. -/
def wrapOnce : List QueueEvent :=
  (List.replicate 128 [QueueEvent.complete ⟨0, 512⟩, .poll]).flatten ++ [.poll]

/-- After 128 completions the driver obtains an element that was not produced, and `notify` does
not end. -/
theorem exactly_once_wrapOnce :
    Along QueueRun.step QueueRun.Admissible (.init (fun _ => ⟨0, 0, 0, 0⟩) fun _ => ⟨0, 0⟩) wrapOnce ∧
    ¬ Along QueueRun.step QueueRun.Right (.init (fun _ => ⟨0, 0, 0, 0⟩) fun _ => ⟨0, 0⟩) wrapOnce ∧
    ∀ (requests : BitVec 64 → BlockRequest) (fuel : Nat), BlockIODriver.notify fuel requests
      { device := (wrapOnce.foldl QueueRun.step
          (.init (fun _ => ⟨0, 0, 0, 0⟩) fun _ => ⟨0, 0⟩)).device
        ignoredRequests := [], deleted := [], results := [] } = none := by
  have admissible : Along QueueRun.step QueueRun.Admissible
      (.init (fun _ => ⟨0, 0, 0, 0⟩) fun _ => ⟨0, 0⟩) wrapOnce := by decide +kernel
  refine ⟨admissible, ?_, fun requests fuel => ?_⟩
  · rw [Along.iff (J := QueueRun.Inv) (fun s e inv ok => inv.right_iff_clear ok)
      (fun s e inv ok right => inv.step_right ok right) (QueueRun.init_inv _ _) admissible]
    decide +kernel
  · by_contra ends
    obtain ⟨r, run⟩ := Option.ne_none_iff_exists'.1 ends
    have small := (BlockIODriver.notify_ends_iff requests (by decide +kernel)).1 ⟨fuel, r, run⟩
    exact absurd small (by decide +kernel)

end MatteOS.Devices
