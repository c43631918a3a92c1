import Mathlib.Data.List.Nodup
import Mathlib.Data.List.Perm.Subperm
import MatteOS.Devices.BlockRequests
import MatteOS.Devices.Verify.Descriptors
import MatteOS.Devices.Verify.UsedRing

/-!
# Who releases a block request

A request is released by `notify` when its used element is taken. This works as long as
the descriptor that names the request is not reused before that, no polling caller deletes
the request itself, `notify` does not take a request whose caller is still polling, and the
used ring is polled where its indices can be compared. In a run that keeps to this every
request object is deleted once, when the device and its caller are done with it
(`released_once`).
-/

namespace MatteOS.Devices

open Transition Ring VirtIOQueue

/-! ## A call of `notify` -/

namespace BlockIODriver

variable {requests : BitVec 64 → BlockRequest}

/-- The result `notify` makes of a request. -/
def result (request : BlockRequest) : BlockDeviceAsyncResult where
  requestId := request.requestId
  type := if request.status = 0 then .ok else .failed

local instance : LawfulBEq (BitVec 64) := inferInstance

/-- What taking the request at an address does to the requests to ignore and the results. -/
def collect (requests : BitVec 64 → BlockRequest)
    (p : List (BitVec 64) × List BlockDeviceAsyncResult) (a : BitVec 64) :
    List (BitVec 64) × List BlockDeviceAsyncResult :=
  if a ∈ p.1 then (p.1.erase a, p.2) else (p.1, p.2 ++ [result (requests a)])

theorem notifyBody_take {b : BlockIODriver} (h : b.device.queueAck ≠ b.device.used.index.toNat) :
    let id := (b.device.used.ring (b.device.queueAck % 128)).id.toNat
    let request := (b.device.descriptors id).address
    notifyBody requests b = .again
      { device :=
          { b.device with queueAck := (b.device.queueAck + 1) % 128 }.clearAddress id
        ignoredRequests := (collect requests (b.ignoredRequests, b.results) request).1
        deleted := b.deleted ++ [request]
        results := (collect requests (b.ignoredRequests, b.results) request).2 } := by
  simp only [notifyBody, VirtIODevice.getNextUsedDescriptor, if_neg h, collect, VIRTIO_RING_SIZE]
  split <;> rfl

/-- The used elements a device has outstanding, as heads of descriptor chains with the address each
of them names. -/
structure Outstanding (d : VirtIODevice) (l : List (Nat × BitVec 64)) : Prop where
  ack : d.queueAck < 128
  index : d.used.index.toNat = (d.queueAck + l.length) % 128
  ring : ∀ i (h : i < l.length), (d.used.ring ((d.queueAck + i) % 128)).id.toNat = l[i].1
  address : ∀ x ∈ l, (d.descriptors x.1).address = x.2
  heads : (l.map Prod.fst).Nodup

theorem Outstanding.tail {d : VirtIODevice} {x : Nat × BitVec 64} {l : List (Nat × BitVec 64)}
    (out : Outstanding d (x :: l)) :
    Outstanding ({ d with queueAck := (d.queueAck + 1) % 128 }.clearAddress x.1) l where
  ack := Nat.mod_lt _ (by decide)
  index := by
    have index := out.index
    rw [List.length_cons] at index
    show d.used.index.toNat = ((d.queueAck + 1) % 128 + l.length) % 128
    omega
  ring i h := by
    have ring := out.ring (i + 1) (by rw [List.length_cons]; omega)
    rw [List.getElem_cons_succ] at ring
    rw [← ring]
    show (d.used.ring (((d.queueAck + 1) % 128 + i) % 128)).id.toNat = _
    exact congrArg (fun j => (d.used.ring j).id.toNat) (by omega)
  address y hy := by
    have other : y.1 ≠ x.1 := by
      intro same
      have := out.heads
      rw [List.map_cons, List.nodup_cons] at this
      exact this.1 (same ▸ List.mem_map_of_mem hy)
    rw [← out.address y (List.mem_cons_of_mem _ hy)]
    exact congrArg VirtQueueDescriptor.address (Function.update_of_ne other _ _)
  heads := by
    have := out.heads
    rw [List.map_cons, List.nodup_cons] at this
    exact this.2

/-- The loop takes what is outstanding, in order, and clears the heads of it. -/
theorem notifyBody_run (l : List (Nat × BitVec 64)) {b : BlockIODriver}
    (out : Outstanding b.device l) (short : l.length < 128) :
    ∃ device, Loop.run (notifyBody requests) (l.length + 1) b = some
        { device
          ignoredRequests :=
            ((l.map Prod.snd).foldl (collect requests) (b.ignoredRequests, b.results)).1
          deleted := b.deleted ++ l.map Prod.snd
          results :=
            ((l.map Prod.snd).foldl (collect requests) (b.ignoredRequests, b.results)).2 } ∧
      device.used = b.device.used ∧
      device.queueAck = (b.device.queueAck + l.length) % 128 ∧
      ∀ i ∉ l.map Prod.fst, device.descriptors i = b.device.descriptors i := by
  have ack := out.ack
  have index := out.index
  induction l generalizing b with
  | nil =>
    rw [List.length_nil] at index
    refine ⟨b.device, ?_, rfl, by rw [List.length_nil]; omega, fun i _ => rfl⟩
    apply Loop.run_done
    simp [notifyBody, VirtIODevice.getNextUsedDescriptor, index, Nat.mod_eq_of_lt ack]
  | cons x l ih =>
    rw [List.length_cons] at index short
    have more : b.device.queueAck ≠ b.device.used.index.toNat := by omega
    have id : (b.device.used.ring (b.device.queueAck % 128)).id.toNat = x.1 := by
      have := out.ring 0 (by simp)
      simpa using this
    have request : (b.device.descriptors x.1).address = x.2 :=
      out.address x List.mem_cons_self
    have next := @notifyBody_take requests b more
    simp only [id, request] at next
    obtain ⟨device, run, used, ack', descriptors⟩ := ih
      (b :=
        { device := { b.device with queueAck := (b.device.queueAck + 1) % 128 }.clearAddress x.1
          ignoredRequests := (collect requests (b.ignoredRequests, b.results) x.2).1
          deleted := b.deleted ++ [x.2]
          results := (collect requests (b.ignoredRequests, b.results) x.2).2 })
      out.tail (by omega) out.tail.ack out.tail.index
    refine ⟨device, ?_, used, ?_, fun i hi => ?_⟩
    · rw [List.length_cons, Loop.run_again next, run]
      simp
    · rw [ack', List.length_cons]
      show ((b.device.queueAck + 1) % 128 + l.length) % 128 = _
      omega
    · rw [List.map_cons, List.mem_cons, not_or] at hi
      rw [descriptors i hi.2]
      exact Function.update_of_ne hi.1 _ _

/-- Of different requests, those to be ignored are taken off the list and the others give their
results. -/
theorem foldl_collect {as : List (BitVec 64)} (nodup : as.Nodup) (ignored : List (BitVec 64))
    (results : List BlockDeviceAsyncResult) :
    as.foldl (collect requests) (ignored, results) =
      (ignored.diff as, results ++ (as.filter (· ∉ ignored)).map fun a => result (requests a)) := by
  induction as generalizing ignored results with
  | nil => simp
  | cons a as ih =>
    obtain ⟨new, rest⟩ := List.nodup_cons.1 nodup
    rw [List.foldl_cons, List.diff_cons]
    by_cases h : a ∈ ignored
    · have same : as.filter (· ∉ ignored.erase a) = as.filter (· ∉ ignored) := by
        refine List.filter_congr fun x hx => ?_
        have other : x ≠ a := by
          rintro rfl
          exact new hx
        simp only [List.mem_erase_of_ne other]
      rw [collect, if_pos h, ih rest, same, List.filter_cons_of_neg (by simpa using h)]
    · rw [collect, if_neg h, ih rest, List.filter_cons_of_pos (by simpa using h),
        List.erase_of_not_mem h]
      simp

end BlockIODriver

namespace RequestHeap

/-- Deleting different objects that are all allocated. -/
theorem foldl_delete {as : List (BitVec 64)} {h : RequestHeap} (nodup : as.Nodup)
    (allocated : ∀ a ∈ as, h.allocated a = true) :
    as.foldl delete h =
      { h with allocated := fun a => h.allocated a && decide (a ∉ as) } := by
  induction as generalizing h with
  | nil => simp
  | cons a as ih =>
    obtain ⟨new, rest⟩ := List.nodup_cons.1 nodup
    have here : h.allocated a = true := allocated a List.mem_cons_self
    rw [List.foldl_cons, ih rest]
    · simp only [delete, here, Bool.not_true, Bool.or_false, mk.injEq, true_and, and_true]
      funext x
      by_cases e : x = a
      · simp [e]
      · simp [e]
    · intro x hx
      have other : x ≠ a := fun e => new (e ▸ hx)
      simp only [delete, Function.update_of_ne other]
      exact allocated x (List.mem_cons_of_mem _ hx)

end RequestHeap

/-! ## The requests of a run -/

/-- The status byte of a request at a stage. -/
def RequestStage.status : RequestStage → BitVec 8
  | .inFlight => statusValue
  | .answered status => status.value
  | .used status => status.value

namespace RequestRun

/-- The requests `notify` has taken from the used ring. -/
def collected (s : RequestRun) : List Nat := s.produced.take s.consumed

/-- The requests with a used element that `notify` has not taken. -/
def outstanding (s : RequestRun) : List Nat := s.produced.drop s.consumed

/-- The result that reports a request, with its own id and status. -/
def report (s : RequestRun) (n : Nat) : BlockDeviceAsyncResult where
  requestId := (s.submission n).operation.requestId
  type := if s.stage n = .used .ok then .ok else .failed

/-- Nothing was used or deleted after it was deleted, the requests deleted are those with a used
element taken, each once, no caller polls for one of them, and the results report the others than
the polled ones, in order. -/
structure Settled (s : RequestRun) : Prop where
  live : s.heap.dangling = false
  once : s.deleted.Nodup
  done : ∀ n, n ∈ s.deleted ↔ n ∈ s.collected
  polling : ∀ n ∈ s.deleted, s.polling n = false
  results : s.results = (s.deleted.filter fun n => !(s.submission n).polled).map s.report

/-- The request 42 submissions ago was collected before its first descriptor is reused, a polling
caller finds no failure, and `notify` is called when no caller polls for a request that is
outstanding and the ring has no more than 127 elements modulo its counter. -/
def Clean (s : RequestRun) : RequestEvent → Prop
  | .submit _ _ op => op.size % 512 = 0 →
    ∀ n < s.submitted, s.submitted = n + 42 → n ∈ s.collected
  | .poll n => (s.heap.requests (s.submission n).address).status ∈ [statusValue, 0]
  | .notify => s.produced.length % 65536 < 128 ∧ ∀ n ∈ s.outstanding, s.polling n = false
  | _ => True

instance (s : RequestRun) : ∀ e, Decidable (s.Clean e)
  | .submit _ _ _ => inferInstanceAs (Decidable (_ → _))
  | .answer _ _ => isTrue trivial
  | .produce _ _ => isTrue trivial
  | .poll _ => inferInstanceAs (Decidable (_ ∈ _))
  | .notify => inferInstanceAs (Decidable (_ ∧ _))

/-- A step that is clean. -/
def CleanStep (s : RequestRun) (e : RequestEvent) (s' : RequestRun) : Prop :=
  s.Clean e ∧ s.Step e s'

/-! ## The invariant -/

/-- A request that was submitted and not collected. -/
def Pending (s : RequestRun) (n : Nat) : Prop := n < s.submitted ∧ n ∉ s.collected

/-- The object of request `n` and its descriptors are as they were made, but for the status. -/
structure InPlace (s : RequestRun) (n : Nat) : Prop where
  head : (s.submission n).head = 3 * n % 128
  owner : s.owner (s.submission n).address = n
  allocated : s.heap.allocated (s.submission n).address = true
  requestId : (s.heap.requests (s.submission n).address).requestId =
    (s.submission n).operation.requestId
  status : (s.heap.requests (s.submission n).address).status = (s.stage n).status
  header : (s.queue.descriptors (3 * n % 128)).address = (s.submission n).address
  buffer : (s.queue.descriptors (3 * n % 128)).next.toNat = (3 * n + 1) % 128
  tail : (s.queue.descriptors ((3 * n + 1) % 128)).next.toNat = (3 * n + 2) % 128
  answer : (s.queue.descriptors ((3 * n + 2) % 128)).address =
    (s.submission n).address + BlockIO.Request.statusOffset

structure Inv (s : RequestRun) : Prop where
  settled : s.Settled
  cursor : s.queue.queueIndex = 3 * s.submitted % 128
  consumed : s.consumed ≤ s.produced.length
  ack : s.queue.queueAck = s.consumed % 128
  index : s.queue.used.index.toNat = s.produced.length % 65536
  ring : Remembers 128 (fun i => (s.queue.used.ring i).id.toNat)
    (s.produced.map fun n => 3 * n % 128)
  numbers : s.produced.Nodup
  produced : ∀ n, n ∈ s.produced ↔ n < s.submitted ∧ ∃ status, s.stage n = .used status
  recent : ∀ n, s.Pending n → s.submitted ≤ n + 42
  inPlace : ∀ n, s.Pending n → s.InPlace n
  polling : ∀ n, s.polling n = true → s.Pending n ∧ (s.submission n).polled = true
  ignored : ∀ a, a ∈ s.ignoredRequests ↔ ∃ n, s.Pending n ∧ (s.submission n).polled = true ∧
    s.polling n = false ∧ (s.submission n).address = a
  different : s.ignoredRequests.Nodup

theorem init_inv (queue : VirtIODevice) (availableRing : Nat → BitVec 16)
    (requests : BitVec 64 → BlockIO.Request) : (init queue availableRing requests).Inv where
  settled :=
    { live := rfl
      once := List.nodup_nil
      done := fun n => Iff.rfl
      polling := fun n hn => absurd hn List.not_mem_nil
      results := rfl }
  cursor := rfl
  consumed := Nat.zero_le _
  ack := rfl
  index := rfl
  ring := remembers_nil _ _
  numbers := List.nodup_nil
  produced n := by simp [init]
  recent n hn := absurd hn.1 (Nat.not_lt_zero n)
  inPlace n hn := absurd hn.1 (Nat.not_lt_zero n)
  polling n hn := absurd hn Bool.false_ne_true
  ignored a := by simp [init, Pending]
  different := List.nodup_nil

/-- What request `n` is stays in place when a step changes nothing of it. -/
theorem InPlace.frame {s s' : RequestRun} {n : Nat} (r : s.InPlace n)
    (submission : s'.submission n = s.submission n)
    (owner : s'.owner (s.submission n).address = s.owner (s.submission n).address)
    (allocated : s'.heap.allocated (s.submission n).address =
      s.heap.allocated (s.submission n).address)
    (requestId : (s'.heap.requests (s.submission n).address).requestId =
      (s.heap.requests (s.submission n).address).requestId)
    (status : (s'.heap.requests (s.submission n).address).status = (s'.stage n).status)
    (descriptors : ∀ i ∈ slots (3 * n % 128), s'.queue.descriptors i = s.queue.descriptors i) :
    s'.InPlace n := by
  have first := descriptors (3 * n % 128) (by simp [slots])
  have second := descriptors ((3 * n + 1) % 128) (by simp [slots])
  have third := descriptors ((3 * n + 2) % 128) (by simp [slots])
  constructor
  · rw [submission]
    exact r.head
  · rw [submission, owner]
    exact r.owner
  · rw [submission, allocated]
    exact r.allocated
  · rw [submission, requestId]
    exact r.requestId
  · rw [submission]
    exact status
  · rw [first, submission]
    exact r.header
  · rw [first]
    exact r.buffer
  · rw [second]
    exact r.tail
  · rw [third, submission]
    exact r.answer

variable {s s' : RequestRun}

/-- Requests with their objects in place have different ones. -/
theorem InPlace.address_ne {m n : Nat} (hm : s.InPlace m) (hn : s.InPlace n) (ne : m ≠ n) :
    (s.submission m).address ≠ (s.submission n).address := by
  intro same
  apply ne
  rw [← hm.owner, ← hn.owner, same]

/-- A step that deletes nothing keeps what is settled. -/
theorem Settled.frame (st : s.Settled) (live : s'.heap.dangling = false)
    (deleted : s'.deleted = s.deleted) (results : s'.results = s.results)
    (collected : s'.collected = s.collected)
    (same : ∀ n ∈ s.deleted, s'.submission n = s.submission n ∧ s'.polling n = s.polling n ∧
      s'.stage n = s.stage n) : s'.Settled where
  live := live
  once := by
    rw [deleted]
    exact st.once
  done := by
    rw [deleted, collected]
    exact st.done
  polling n hn := by
    rw [deleted] at hn
    rw [(same n hn).2.1]
    exact st.polling n hn
  results := by
    have unpolled : (s.deleted.filter fun n => !(s'.submission n).polled) =
        s.deleted.filter fun n => !(s.submission n).polled :=
      List.filter_congr fun n hn => by rw [(same n hn).1]
    rw [deleted, results, st.results, unpolled]
    apply List.map_congr_left
    intro n hn
    obtain ⟨submission, -, stage⟩ := same n (List.mem_of_mem_filter hn)
    rw [report, report, submission, stage]

/-! ## Submitting -/

@[simp] theorem calledBy_size (op : BlockOperation) (polled : Bool) :
    (op.calledBy polled).size = op.size := by
  unfold BlockOperation.calledBy
  split <;> rfl

theorem submit_invalid {polled : Bool} {address : BitVec 64} {op : BlockOperation}
    (invalid : op.size % 512 ≠ 0) (run : s.submit polled address op = some s') : s' = s := by
  unfold submit at run
  split at run
  · cases run
  · simp only [@blockOperation_invalid address (op.calledBy polled) s.queue s.heap
      (by simpa using invalid)] at run
    exact (Option.some.inj run).symm

/-- A submission that goes through adds a request with its object and its descriptors. -/
theorem submit_valid {polled : Bool} {address : BitVec 64} {op : BlockOperation}
    (valid : op.size % 512 = 0) (run : s.submit polled address op = some s') :
    s.heap.allocated address = false ∧ ∃ q,
      q.descriptors = s.queue.publish address (op.calledBy polled) ∧
      q.queueIndex = (s.queue.queueIndex + 3) % 128 ∧ q.used = s.queue.used ∧
      q.queueAck = s.queue.queueAck ∧
      s' = { s with
        queue := q
        heap := s.heap.create address (op.calledBy polled).request
        submitted := s.submitted + 1
        submission := Function.update s.submission s.submitted
          { address, head := s.queue.queueIndex, operation := op.calledBy polled, polled }
        polling := Function.update s.polling s.submitted polled
        stage := Function.update s.stage s.submitted .inFlight
        owner := Function.update s.owner address s.submitted } := by
  unfold submit at run
  split at run
  · cases run
  · rename_i free
    obtain ⟨q, step, descriptors, index, used, ack, -⟩ :=
      @blockOperation_valid address (op.calledBy polled) s.queue s.heap (by simpa using valid)
    simp only [step] at run
    exact ⟨by simpa using free, q, descriptors, index, used, ack, (Option.some.inj run).symm⟩

/-- The descriptors of a new request, where they are read. -/
theorem publish_here (q : VirtIOQueue) (address : BitVec 64) (op : BlockOperation) :
    (q.publish address op q.queueIndex).address = address ∧
    (q.publish address op q.queueIndex).next.toNat = (q.queueIndex + 1) % 128 ∧
    (q.publish address op ((q.queueIndex + 1) % 128)).next.toNat = (q.queueIndex + 2) % 128 ∧
    (q.publish address op ((q.queueIndex + 2) % 128)).address =
      address + BlockIO.Request.statusOffset := by
  have h01 : q.queueIndex ≠ (q.queueIndex + 1) % 128 := by omega
  have h02 : q.queueIndex ≠ (q.queueIndex + 2) % 128 := by omega
  have h12 : (q.queueIndex + 1) % 128 ≠ (q.queueIndex + 2) % 128 := by omega
  have next1 : ((q.queueIndex + 1) % 128 + 1) % 128 = (q.queueIndex + 2) % 128 := by omega
  have flags : op.bufferDescriptor.flags &&& VirtQueueDescriptorFlags.Next ≠ 0 := by
    show (VirtQueueDescriptorFlags.Next ||| if !op.isWrite then VirtQueueDescriptorFlags.Write
      else 0) &&& VirtQueueDescriptorFlags.Next ≠ 0
    cases op.isWrite <;> decide
  have small (i : Nat) : (BitVec.ofNat 16 (i % 128)).toNat = i % 128 := by
    rw [BitVec.toNat_ofNat]
    omega
  refine ⟨?_, ?_, ?_, ?_⟩
  · rw [publish, Function.update_of_ne h02, Function.update_of_ne h01, Function.update_self,
      linked_address]
    rfl
  · rw [publish, Function.update_of_ne h02, Function.update_of_ne h01, Function.update_self, linked,
      if_pos (by simp only [BlockOperation.headerDescriptor]; decide)]
    exact small _
  · rw [publish, Function.update_of_ne h12, Function.update_self, linked, if_pos flags, next1]
    exact small _
  · rw [publish, Function.update_self, linked_address]
    rfl

theorem Inv.submit {polled : Bool} {address : BitVec 64} {op : BlockOperation} (inv : s.Inv)
    (clean : s.Clean (.submit polled address op)) (run : s.submit polled address op = some s') :
    s'.Inv := by
  by_cases valid : op.size % 512 = 0
  swap
  · rw [submit_invalid valid run]
    exact inv
  obtain ⟨free, q, descriptors, index, used, ack, rfl⟩ := submit_valid valid run
  have cursor := inv.cursor
  have lt (n : Nat) (hn : n ∈ s.produced) : n < s.submitted := ((inv.produced n).1 hn).1
  have new : s.submitted ∉ s.collected :=
    fun h => Nat.lt_irrefl _ (lt _ (List.mem_of_mem_take h))
  have ltDeleted (n : Nat) (hn : n ∈ s.deleted) : n ≠ s.submitted := by
    rintro rfl
    exact new ((inv.settled.done _).1 hn)
  have ltPending (n : Nat) (hn : s.Pending n) : n ≠ s.submitted := Nat.ne_of_lt hn.1
  -- the object of a request that is pending is not the new one
  have other (n : Nat) (hn : s.Pending n) : (s.submission n).address ≠ address := by
    intro same
    rw [← same, (inv.inPlace n hn).allocated] at free
    cases free
  have near (n : Nat) (hn : s.Pending n) : s.submitted < n + 42 := by
    have recent := inv.recent n hn
    have : s.submitted ≠ n + 42 := fun e => hn.2 (clean valid n hn.1 e)
    omega
  constructor
  case settled =>
    refine inv.settled.frame inv.settled.live rfl rfl rfl fun n hn => ?_
    have ne := ltDeleted n hn
    exact ⟨Function.update_of_ne ne _ _, Function.update_of_ne ne _ _, Function.update_of_ne ne _ _⟩
  case cursor =>
    show q.queueIndex = 3 * (s.submitted + 1) % 128
    rw [index, cursor]
    omega
  case consumed => exact inv.consumed
  case ack => exact ack.trans inv.ack
  case index =>
    show q.used.index.toNat = _
    rw [used]
    exact inv.index
  case ring =>
    show Remembers 128 (fun i => (q.used.ring i).id.toNat) _
    rw [used]
    exact inv.ring
  case numbers => exact inv.numbers
  case produced =>
    intro n
    rw [inv.produced]
    by_cases e : n = s.submitted
    · subst e
      simp
    · show _ ↔ n < s.submitted + 1 ∧
        ∃ status, Function.update s.stage s.submitted .inFlight n = .used status
      rw [Function.update_of_ne e, Nat.lt_succ_iff_lt_or_eq, or_iff_left e]
  case recent =>
    rintro n ⟨hn, kept⟩
    show s.submitted + 1 ≤ n + 42
    by_cases e : n = s.submitted
    · omega
    · have := near n ⟨by simp only at hn; omega, kept⟩
      omega
  case inPlace =>
    rintro n ⟨hn, kept⟩
    by_cases e : n = s.submitted
    · subst e
      obtain ⟨header, buffer, tail, answer⟩ := publish_here s.queue address (op.calledBy polled)
      have second : (3 * s.submitted % 128 + 1) % 128 = (3 * s.submitted + 1) % 128 := by omega
      have third : (3 * s.submitted % 128 + 2) % 128 = (3 * s.submitted + 2) % 128 := by omega
      rw [← descriptors, cursor] at header buffer tail answer
      rw [second] at buffer tail
      rw [third] at tail answer
      constructor <;> simp only [Function.update_self, RequestHeap.create]
      · exact cursor
      · rfl
      · rfl
      · exact header
      · exact buffer
      · exact tail
      · exact answer
    · have pending : s.Pending n := ⟨by simp only at hn; omega, kept⟩
      have place := inv.inPlace n pending
      have ne := other n pending
      refine place.frame (Function.update_of_ne e _ _) (Function.update_of_ne ne _ _)
        (Function.update_of_ne ne _ _) ?_ ?_ fun i hi => ?_
      · show (Function.update s.heap.requests address _ (s.submission n).address).requestId = _
        rw [Function.update_of_ne ne]
      · show (Function.update s.heap.requests address _ (s.submission n).address).status =
          (Function.update s.stage s.submitted _ n).status
        rw [Function.update_of_ne ne, Function.update_of_ne e]
        exact place.status
      · show q.descriptors i = _
        rw [descriptors, publish_of_not_mem]
        intro hi'
        have meet := (slots_meet_iff (Nat.mod_lt _ (by decide)) (by rw [cursor]; omega)).1
          ⟨i, hi, hi'⟩
        have near := near n pending
        have lt := pending.1
        have distance : (3 * s.submitted % 128 + 128 - 3 * n % 128) % 128 =
            3 * (s.submitted - n) := by omega
        rw [cursor, distance] at meet
        simp only [List.mem_cons, List.not_mem_nil, or_false] at meet
        omega
  case polling =>
    intro n hn
    by_cases e : n = s.submitted
    · subst e
      simp only [Function.update_self] at hn ⊢
      exact ⟨⟨Nat.lt_succ_self _, new⟩, hn⟩
    · simp only [Function.update_of_ne e] at hn ⊢
      obtain ⟨⟨lt, kept⟩, was⟩ := inv.polling n hn
      exact ⟨⟨Nat.lt_succ_of_lt lt, kept⟩, was⟩
  case ignored =>
    intro a
    show a ∈ s.ignoredRequests ↔ _
    rw [inv.ignored]
    constructor
    · rintro ⟨n, ⟨lt, kept⟩, rest⟩
      refine ⟨n, ⟨Nat.lt_succ_of_lt lt, kept⟩, ?_⟩
      simp only [Function.update_of_ne (Nat.ne_of_lt lt)]
      exact rest
    · rintro ⟨n, ⟨hn, kept⟩, rest⟩
      by_cases e : n = s.submitted
      · -- a polled request is polled from its submission on
        subst e
        simp only [Function.update_self] at rest
        rw [rest.1] at rest
        exact absurd rest.2.1 (by decide)
      · simp only [Function.update_of_ne e] at rest
        exact ⟨n, ⟨by simp only at hn; omega, kept⟩, rest⟩
  case different => exact inv.different

/-! ## Answering, producing and polling -/

theorem RequestHeap.touch_eq {h : RequestHeap} {a : BitVec 64} (allocated : h.allocated a = true) :
    h.touch a = h := by
  simp [RequestHeap.touch, allocated]

/-- Following the descriptors of a request in place leads to its status. -/
theorem InPlace.statusAddress {n : Nat} (place : s.InPlace n) :
    s.queue.statusAddress (s.submission n).head =
      (s.submission n).address + BlockIO.Request.statusOffset := by
  unfold VirtIOQueue.statusAddress
  simp only [place.head, place.buffer, place.tail]
  exact place.answer

theorem Inv.pending_of_stage {n : Nat} (inv : s.Inv) (lt : n < s.submitted)
    (unused : ∀ status, s.stage n ≠ .used status) : s.Pending n := by
  refine ⟨lt, fun mem => ?_⟩
  obtain ⟨-, status, used⟩ := (inv.produced n).1 (List.mem_of_mem_take mem)
  exact unused status used

/-- What is deleted has been collected, and is not pending. -/
theorem Settled.ne_of_pending {n m : Nat} (st : s.Settled) (pending : s.Pending n)
    (deleted : m ∈ s.deleted) : m ≠ n := by
  rintro rfl
  exact pending.2 ((st.done _).1 deleted)

theorem Inv.answer {n : Nat} {status : BlockStatus} (inv : s.Inv)
    (run : s.answer n status = some s') : s'.Inv := by
  unfold RequestRun.answer at run
  split at run
  swap
  · cases run
  rename_i h
  obtain ⟨lt, stage⟩ := h
  have pending : s.Pending n := inv.pending_of_stage lt (by simp [stage])
  have place := inv.inPlace n pending
  have offset : (s.submission n).address + BlockIO.Request.statusOffset -
      BlockIO.Request.statusOffset = (s.submission n).address := by
    rw [BitVec.add_sub_cancel]
  obtain rfl := Option.some.inj run
  simp only [place.statusAddress, RequestHeap.writeStatus, offset,
    RequestHeap.touch_eq place.allocated]
  constructor
  case settled =>
    refine inv.settled.frame inv.settled.live rfl rfl rfl fun m hm => ⟨rfl, rfl, ?_⟩
    exact Function.update_of_ne (inv.settled.ne_of_pending pending hm) _ _
  case cursor => exact inv.cursor
  case consumed => exact inv.consumed
  case ack => exact inv.ack
  case index => exact inv.index
  case ring => exact inv.ring
  case numbers => exact inv.numbers
  case produced =>
    intro m
    rw [inv.produced]
    by_cases e : m = n
    · subst e
      simp [stage]
    · simp only [Function.update_of_ne e]
  case recent => exact inv.recent
  case inPlace =>
    intro m hm
    have place' := inv.inPlace m hm
    by_cases e : m = n
    · subst e
      refine place'.frame rfl rfl rfl ?_ ?_ fun _ _ => rfl
      · simp only [Function.update_self]
      · simp only [Function.update_self]
        rfl
    · have ne := place'.address_ne place e
      refine place'.frame rfl rfl rfl ?_ ?_ fun _ _ => rfl
      · simp only [Function.update_of_ne ne]
      · simp only [Function.update_of_ne ne, Function.update_of_ne e]
        exact place'.status
  case polling => exact inv.polling
  case ignored => exact inv.ignored
  case different => exact inv.different

theorem Inv.produce {n : Nat} {length : BitVec 32} (inv : s.Inv)
    (run : s.produce n length = some s') : s'.Inv := by
  unfold RequestRun.produce at run
  split at run
  swap
  · cases run
  rename_i lt
  split at run
  swap
  · cases run
  rename_i status stage
  have pending : s.Pending n := inv.pending_of_stage lt (by simp [stage])
  have place := inv.inPlace n pending
  have new : n ∉ s.produced := by
    intro mem
    obtain ⟨-, status, used⟩ := (inv.produced n).1 mem
    rw [stage] at used
    cases used
  have collected : (s.produced ++ [n]).take s.consumed = s.produced.take s.consumed :=
    List.take_append_of_le_length inv.consumed
  have slot : s.queue.used.index.toNat % 128 = s.produced.length % 128 := by
    rw [inv.index]
    omega
  have same (m : Nat) : s'.Pending m ↔ s.Pending m := by
    rw [← Option.some.inj run]
    exact and_congr Iff.rfl (not_congr (by rw [RequestRun.collected, collected]; rfl))
  obtain rfl := Option.some.inj run
  constructor
  case settled =>
    refine inv.settled.frame inv.settled.live rfl rfl collected fun m hm => ⟨rfl, rfl, ?_⟩
    exact Function.update_of_ne (inv.settled.ne_of_pending pending hm) _ _
  case cursor => exact inv.cursor
  case consumed =>
    have := inv.consumed
    simp only [List.length_append]
    omega
  case ack => exact inv.ack
  case index =>
    simp only [VirtIOQueue.complete, VirtIODevice.complete, BitVec.toNat_add, inv.index,
      List.length_append, List.length_singleton]
    simp
  case ring =>
    have pushed := inv.ring.push (3 * n % 128)
    rw [List.map_append, List.map_singleton]
    simp only [VirtIOQueue.complete, VirtIODevice.complete, VIRTIO_RING_SIZE, slot, place.head]
    rw [List.length_map] at pushed
    refine cast (congrArg (fun f => Remembers 128 f _) ?_) pushed
    funext i
    by_cases e : i = s.produced.length % 128
    · subst e
      simp only [Function.update_self, BitVec.toNat_ofNat]
      omega
    · simp only [Function.update_of_ne e]
  case numbers =>
    rw [List.nodup_append]
    exact ⟨inv.numbers, by simp, fun a ha b hb => by
      rw [List.mem_singleton] at hb
      rintro rfl
      exact new (hb ▸ ha)⟩
  case produced =>
    intro m
    rw [List.mem_append, List.mem_singleton, inv.produced]
    by_cases e : m = n
    · subst e
      simp [lt]
    · simp only [Function.update_of_ne e, e, or_false]
  case recent =>
    intro m hm
    exact inv.recent m ((same m).1 hm)
  case inPlace =>
    intro m hm
    have place' := inv.inPlace m ((same m).1 hm)
    refine place'.frame rfl rfl rfl rfl ?_ fun _ _ => rfl
    rw [place'.status]
    by_cases e : m = n
    · subst e
      simp only [Function.update_self, stage]
      rfl
    · simp only [Function.update_of_ne e]
  case polling =>
    intro m hm
    obtain ⟨was, polled⟩ := inv.polling m hm
    exact ⟨(same m).2 was, polled⟩
  case ignored =>
    intro a
    simp only [same]
    exact inv.ignored a
  case different => exact inv.different

theorem Inv.poll {n : Nat} (inv : s.Inv) (clean : s.Clean (.poll n))
    (run : s.poll n = some s') : s'.Inv := by
  unfold RequestRun.poll at run
  split at run
  swap
  · cases run
  rename_i polls
  obtain ⟨pending, polled⟩ := inv.polling n polls
  have place := inv.inPlace n pending
  simp only [RequestHeap.touch_eq place.allocated] at run
  split at run
  · -- the device has not answered
    obtain rfl := Option.some.inj run
    exact inv
  rename_i answered
  split at run
  swap
  · rename_i failed
    simp only [Clean, List.mem_cons, List.not_mem_nil, or_false] at clean
    exact absurd clean (not_or.2 ⟨answered, failed⟩)
  obtain rfl := Option.some.inj run
  constructor
  case settled =>
    refine inv.settled.frame inv.settled.live rfl rfl rfl fun m hm => ⟨rfl, ?_, rfl⟩
    exact Function.update_of_ne (inv.settled.ne_of_pending pending hm) _ _
  case cursor => exact inv.cursor
  case consumed => exact inv.consumed
  case ack => exact inv.ack
  case index => exact inv.index
  case ring => exact inv.ring
  case numbers => exact inv.numbers
  case produced => exact inv.produced
  case recent => exact inv.recent
  case inPlace =>
    intro m hm
    have place' := inv.inPlace m hm
    exact place'.frame rfl rfl rfl rfl place'.status fun _ _ => rfl
  case polling =>
    intro m hm
    by_cases e : m = n
    · subst e
      simp at hm
    · simp only [Function.update_of_ne e] at hm
      exact inv.polling m hm
  case ignored =>
    intro a
    rw [List.mem_append, List.mem_singleton, inv.ignored]
    constructor
    · rintro (⟨m, hm, was, done, address⟩ | rfl)
      · refine ⟨m, hm, was, ?_, address⟩
        by_cases e : m = n
        · subst e
          exact Function.update_self _ _ _
        · exact (Function.update_of_ne e _ _).trans done
      · exact ⟨n, pending, polled, Function.update_self _ _ _, rfl⟩
    · rintro ⟨m, hm, was, done, address⟩
      by_cases e : m = n
      · subst e
        exact Or.inr address.symm
      · simp only [Function.update_of_ne e] at done
        exact Or.inl ⟨m, hm, was, done, address⟩
  case different =>
    rw [List.nodup_append]
    refine ⟨inv.different, by simp, fun a ha b hb => ?_⟩
    rw [List.mem_singleton] at hb
    rintro rfl
    obtain ⟨m, hm, -, done, address⟩ := (inv.ignored a).1 ha
    have e : m = n := by
      by_contra ne
      exact (inv.inPlace m hm).address_ne place ne (address.trans hb)
    rw [e, polls] at done
    cases done

/-! ## `notify` -/

/-- Requests that are pending are so close to each other that their chains do not meet. -/
theorem Inv.not_mem_slots {m n : Nat} (inv : s.Inv) (hm : s.Pending m) (hn : s.Pending n)
    (ne : m ≠ n) : 3 * m % 128 ∉ slots (3 * n % 128) := by
  intro mem
  have recent := inv.recent m hm
  have recent' := inv.recent n hn
  have lt := hm.1
  have lt' := hn.1
  simp only [slots, List.mem_cons, List.not_mem_nil, or_false] at mem
  omega

theorem Inv.pending_of_outstanding {n : Nat} (inv : s.Inv) (h : n ∈ s.outstanding) :
    s.Pending n := by
  refine ⟨((inv.produced n).1 (List.mem_of_mem_drop h)).1, fun taken => ?_⟩
  have := inv.numbers
  rw [← List.take_append_drop s.consumed s.produced, List.nodup_append] at this
  exact this.2.2 n taken n h rfl

theorem Inv.outstanding_nodup (inv : s.Inv) : s.outstanding.Nodup :=
  inv.numbers.sublist (List.drop_sublist _ _)

theorem Inv.outstanding_length (inv : s.Inv) : s.outstanding.length ≤ 42 := by
  have sub : s.outstanding ⊆ List.range' (s.submitted - 42) 42 := by
    intro n hn
    have pending := inv.pending_of_outstanding hn
    have recent := inv.recent n pending
    have lt := pending.1
    rw [List.mem_range'_1]
    omega
  have := (inv.outstanding_nodup.subperm sub).length_le
  rwa [List.length_range'] at this

theorem Inv.addresses_nodup (inv : s.Inv) :
    (s.outstanding.map fun n => (s.submission n).address).Nodup := by
  refine List.Nodup.map_on (fun m hm n hn same => ?_) inv.outstanding_nodup
  by_contra ne
  have left := inv.inPlace m (inv.pending_of_outstanding hm)
  exact left.address_ne (inv.inPlace n (inv.pending_of_outstanding hn)) ne same

/-- What is outstanding, as `notify` will find it. -/
theorem Inv.found (inv : s.Inv) (counts : s.produced.length % 65536 < 128) :
    BlockIODriver.Outstanding s.queue.toVirtIODevice
      (s.outstanding.map fun n => (3 * n % 128, (s.submission n).address)) where
  ack := by
    rw [inv.ack]
    exact Nat.mod_lt _ (by decide)
  index := by
    have := inv.consumed
    rw [inv.index, inv.ack, List.length_map, outstanding, List.length_drop]
    omega
  ring i h := by
    have few := inv.outstanding_length
    rw [List.length_map] at h
    rw [List.getElem_map]
    have h' := h
    rw [outstanding, List.length_drop] at h' few
    have item := inv.ring (s.consumed + i) (by rw [List.length_map]; omega)
      (by rw [List.length_map]; omega)
    rw [List.getElem?_map, List.getElem?_eq_getElem (by omega), Option.map_some,
      Option.some.injEq] at item
    have slot : (s.queue.queueAck + i) % 128 = (s.consumed + i) % 128 := by
      rw [inv.ack]
      omega
    rw [slot]
    simp only [outstanding, List.getElem_drop]
    exact item.symm
  address x hx := by
    obtain ⟨n, hn, rfl⟩ := List.mem_map.1 hx
    exact (inv.inPlace n (inv.pending_of_outstanding hn)).header
  heads := by
    rw [List.map_map]
    refine List.Nodup.map_on (fun m hm n hn same => ?_) inv.outstanding_nodup
    by_contra ne
    apply inv.not_mem_slots (inv.pending_of_outstanding hm) (inv.pending_of_outstanding hn) ne
    simp only [Function.comp_apply] at same
    rw [same]
    exact List.mem_cons_self

theorem Inv.mem_ignored_iff {n : Nat} (inv : s.Inv) (hn : s.Pending n) :
    (s.submission n).address ∈ s.ignoredRequests ↔
      (s.submission n).polled = true ∧ s.polling n = false := by
  rw [inv.ignored]
  constructor
  · rintro ⟨m, hm, polled, done, same⟩
    have e : m = n := by
      by_contra ne
      exact (inv.inPlace m hm).address_ne (inv.inPlace n hn) ne same
    rw [← e]
    exact ⟨polled, done⟩
  · rintro ⟨polled, done⟩
    exact ⟨n, hn, polled, done, rfl⟩

/-- What `notify` makes of an outstanding request is the report of it. -/
theorem Inv.result_eq {n : Nat} (inv : s.Inv) (hn : n ∈ s.outstanding) :
    BlockIODriver.result (s.heap.requests (s.submission n).address).toBlockRequest =
      s.report n := by
  have place := inv.inPlace n (inv.pending_of_outstanding hn)
  obtain ⟨-, status, used⟩ := (inv.produced n).1 (List.mem_of_mem_drop hn)
  rw [BlockIODriver.result, report, place.requestId, place.status, used]
  cases status <;> rfl

/-- A clean `notify` returns, having deleted the objects of the outstanding requests and reported
those of them that are not polled. -/
theorem Inv.notify_eq (inv : s.Inv) (clean : s.Clean .notify) :
    ∃ fuel device, s.driver.notify fuel (fun a => (s.heap.requests a).toBlockRequest) = some
        { device
          ignoredRequests :=
            s.ignoredRequests.diff (s.outstanding.map fun n => (s.submission n).address)
          deleted := s.outstanding.map fun n => (s.submission n).address
          results := (s.outstanding.filter fun n => !(s.submission n).polled).map s.report } ∧
      device.used = s.queue.used ∧ device.queueAck = s.produced.length % 128 ∧
      ∀ i ∉ s.outstanding.map fun n => 3 * n % 128, device.descriptors i = s.queue.descriptors i := by
  have few := inv.outstanding_length
  obtain ⟨device, run, used, ack, descriptors⟩ := @BlockIODriver.notifyBody_run
    (fun a => (s.heap.requests a).toBlockRequest) _
    { s.driver with results := [] } (inv.found clean.1) (by rw [List.length_map]; omega)
  rw [List.map_map] at run descriptors
  refine ⟨_, device, run.trans (congrArg some ?_), used, ?_, fun i hi => descriptors i hi⟩
  · have addresses : Prod.snd ∘ (fun n => (3 * n % 128, (s.submission n).address)) =
        fun n => (s.submission n).address := rfl
    rw [addresses, BlockIODriver.foldl_collect inv.addresses_nodup]
    have unpolled : (s.outstanding.filter fun n =>
        decide ((s.submission n).address ∉ s.ignoredRequests)) =
        s.outstanding.filter fun n => !(s.submission n).polled := by
      refine List.filter_congr fun n hn => ?_
      simp only [inv.mem_ignored_iff (inv.pending_of_outstanding hn), clean.2 n hn, and_true]
      cases (s.submission n).polled <;> rfl
    have results : ((s.outstanding.map fun n => (s.submission n).address).filter
          fun a => decide (a ∉ s.ignoredRequests)).map
          (fun a => BlockIODriver.result (s.heap.requests a).toBlockRequest) =
        (s.outstanding.filter fun n => !(s.submission n).polled).map s.report := by
      rw [List.filter_map, List.map_map, ← unpolled]
      refine List.map_congr_left fun n hn => inv.result_eq (List.mem_of_mem_filter hn)
    simp only [driver, List.nil_append]
    exact congrArg (BlockIODriver.mk device _ _) results
  · rw [ack, List.length_map]
    show (s.queue.queueAck + s.outstanding.length) % 128 = _
    have := inv.consumed
    rw [inv.ack, outstanding, List.length_drop]
    omega

/-- What a clean `notify` leads to. -/
theorem Inv.notify_cases {fuel : Nat} (inv : s.Inv) (clean : s.Clean .notify)
    (run : s.notify fuel = some s') :
    ∃ device : VirtIODevice, device.used = s.queue.used ∧
      device.queueAck = s.produced.length % 128 ∧
      (∀ i ∉ s.outstanding.map fun n => 3 * n % 128,
        device.descriptors i = s.queue.descriptors i) ∧
      s' = { s with
        queue := { s.queue with toVirtIODevice := device }
        heap :=
          { s.heap with
            allocated := fun a => s.heap.allocated a &&
              decide (a ∉ s.outstanding.map fun n => (s.submission n).address) }
        ignoredRequests :=
          s.ignoredRequests.diff (s.outstanding.map fun n => (s.submission n).address)
        consumed := s.produced.length
        deleted := s.deleted ++ s.outstanding
        results := s.results ++
          (s.outstanding.filter fun n => !(s.submission n).polled).map s.report } := by
  obtain ⟨fuel', device, ends, used, ack, descriptors⟩ := inv.notify_eq clean
  refine ⟨device, used, ack, descriptors, ?_⟩
  obtain ⟨b, ends', rfl⟩ := Option.map_eq_some_iff.1 run
  obtain rfl := Loop.run_unique ends' ends
  have owners : (s.outstanding.map fun n => (s.submission n).address).map s.owner =
      s.outstanding := by
    rw [List.map_map]
    refine (List.map_congr_left fun n hn => ?_).trans (List.map_id _)
    exact (inv.inPlace n (inv.pending_of_outstanding hn)).owner
  have all : s.consumed + s.outstanding.length = s.produced.length := by
    have := inv.consumed
    rw [outstanding, List.length_drop]
    omega
  have allocated : ∀ a ∈ s.outstanding.map fun n => (s.submission n).address,
      s.heap.allocated a = true := by
    intro a ha
    obtain ⟨n, hn, rfl⟩ := List.mem_map.1 ha
    exact (inv.inPlace n (inv.pending_of_outstanding hn)).allocated
  simp only [owners, List.length_map, all, RequestHeap.foldl_delete inv.addresses_nodup allocated]

theorem Inv.notify {fuel : Nat} (inv : s.Inv) (clean : s.Clean .notify)
    (run : s.notify fuel = some s') : s'.Inv ∧ s'.consumed = s'.produced.length := by
  obtain ⟨device, used, ack, descriptors, rfl⟩ := inv.notify_cases clean run
  refine ⟨?_, rfl⟩
  have split : s.collected ++ s.outstanding = s.produced := List.take_append_drop _ _
  -- what stays pending is what was and is not outstanding
  have same (n : Nat) : (n < s.submitted ∧ n ∉ s.produced.take s.produced.length) ↔
      s.Pending n ∧ n ∉ s.outstanding := by
    rw [List.take_length, ← split, List.mem_append, not_or]
    exact and_assoc.symm
  have other (n : Nat) (hn : s.Pending n) (kept : n ∉ s.outstanding) :
      (s.submission n).address ∉ s.outstanding.map fun n => (s.submission n).address := by
    intro mem
    obtain ⟨m, hm, address⟩ := List.mem_map.1 mem
    have ne : m ≠ n := by
      rintro rfl
      exact kept hm
    exact (inv.inPlace m (inv.pending_of_outstanding hm)).address_ne (inv.inPlace n hn) ne address
  have st := inv.settled
  constructor
  case settled =>
    constructor
    case live => exact st.live
    case once =>
      rw [List.nodup_append]
      refine ⟨st.once, inv.outstanding_nodup, ?_⟩
      rintro m hm n hn rfl
      exact (inv.pending_of_outstanding hn).2 ((st.done m).1 hm)
    case done =>
      intro n
      show n ∈ s.deleted ++ s.outstanding ↔ n ∈ s.produced.take s.produced.length
      rw [List.take_length, List.mem_append, st.done, ← List.mem_append, split]
    case polling =>
      intro n hn
      rcases List.mem_append.1 hn with hn | hn
      · exact st.polling n hn
      · exact clean.2 n hn
    case results =>
      show s.results ++ _ = ((s.deleted ++ s.outstanding).filter _).map _
      rw [List.filter_append, List.map_append, st.results]
      rfl
  case cursor => exact inv.cursor
  case consumed => exact Nat.le_refl _
  case ack => exact ack
  case index =>
    show device.used.index.toNat = _
    rw [used]
    exact inv.index
  case ring =>
    show Remembers 128 (fun i => (device.used.ring i).id.toNat) _
    rw [used]
    exact inv.ring
  case numbers => exact inv.numbers
  case produced => exact inv.produced
  case recent =>
    intro n hn
    exact inv.recent n ((same n).1 hn).1
  case inPlace =>
    intro n hn
    obtain ⟨pending, kept⟩ := (same n).1 hn
    have place := inv.inPlace n pending
    refine place.frame rfl rfl ?_ rfl place.status fun i hi => ?_
    · show (s.heap.allocated _ && decide _) = _
      rw [decide_eq_true (other n pending kept), Bool.and_true]
    · show device.descriptors i = _
      apply descriptors
      intro mem
      obtain ⟨m, hm, rfl⟩ := List.mem_map.1 mem
      have ne : m ≠ n := by
        rintro rfl
        exact kept hm
      exact inv.not_mem_slots (inv.pending_of_outstanding hm) pending ne hi
  case polling =>
    intro n hn
    obtain ⟨pending, polled⟩ := inv.polling n hn
    refine ⟨(same n).2 ⟨pending, fun mem => ?_⟩, polled⟩
    rw [clean.2 n mem] at hn
    cases hn
  case ignored =>
    intro a
    show a ∈ s.ignoredRequests.diff _ ↔ _
    rw [inv.different.mem_sdiff_iff, inv.ignored]
    constructor
    · rintro ⟨⟨n, pending, polled, done, rfl⟩, kept⟩
      refine ⟨n, (same n).2 ⟨pending, fun mem => kept ?_⟩, polled, done, rfl⟩
      exact List.mem_map_of_mem mem
    · rintro ⟨n, hn, polled, done, rfl⟩
      obtain ⟨pending, kept⟩ := (same n).1 hn
      exact ⟨⟨n, pending, polled, done, rfl⟩, other n pending kept⟩
  case different => exact inv.different.diff

/-! ## Runs -/

/-- **One step.** A clean step keeps the invariant. -/
theorem Inv.step {e : RequestEvent} (inv : s.Inv) (step : s.CleanStep e s') : s'.Inv := by
  obtain ⟨clean, fuel, run⟩ := step
  cases e with
  | submit polled address op => exact inv.submit clean run
  | answer n status => exact inv.answer run
  | produce n length => exact inv.produce run
  | poll n => exact inv.poll clean run
  | notify => exact (inv.notify clean run).1

end RequestRun

/-- **Released once.** After every run of clean steps nothing was used or deleted after its deletion,
the requests whose used elements `notify` has taken are deleted, each of them once, and no other is,
no caller polls for a deleted request, and the results are one for each deleted request that is not
polled, with its own id and status. A clean call of `notify` returns and leaves nothing that the
device has produced undeleted. -/
theorem released_once {queue : VirtIODevice} {availableRing : Nat → BitVec 16}
    {requests : BitVec 64 → BlockIO.Request} {events : List RequestEvent} {s : RequestRun}
    (run : Run RequestRun.CleanStep (.init queue availableRing requests) events s) :
    s.Settled ∧ (s.Clean .notify → (∃ s', s.Step .notify s') ∧
      ∀ s', s.Step .notify s' → s'.Settled ∧ ∀ n, n ∈ s'.deleted ↔ n ∈ s'.produced) := by
  have inv : s.Inv :=
    run.invariant (fun _ _ _ inv step => inv.step step) (RequestRun.init_inv _ _ _)
  refine ⟨inv.settled, fun clean => ⟨?_, ?_⟩⟩
  · obtain ⟨fuel, device, ends, -⟩ := inv.notify_eq clean
    have returns : (s.notify fuel).isSome := by simp [RequestRun.notify, ends]
    obtain ⟨s', step⟩ := Option.isSome_iff_exists.1 returns
    exact ⟨s', fuel, step⟩
  · rintro s' ⟨fuel, step⟩
    obtain ⟨inv', all⟩ := inv.notify clean step
    refine ⟨inv'.settled, fun n => ?_⟩
    rw [inv'.settled.done, RequestRun.collected, all, List.take_length]

/-- A driver that has made no request. -/
def freshDriver : RequestRun :=
  .init ⟨fun _ => ⟨0, 0, 0, 0⟩, ⟨0, fun _ => ⟨0, 0⟩⟩, 0⟩ (fun _ => 0) fun _ => ⟨⟨0, 0⟩, ⟨0, 0, 0⟩, 0⟩

/-- An asynchronous write that the device fails and a polled read that goes well, with `notify`
called before and after the caller has seen the status. -/
def writeAndRead : List RequestEvent :=
  [.submit false 0x80010000 ⟨7, 0x80020000, 512, 0, true⟩,
    .submit true 0x80010100 ⟨0, 0x80030000, 1024, 512, false⟩,
    .notify, .poll 1, .answer 1 .ok, .answer 0 .ioErr, .poll 1, .produce 1 1, .notify,
    .produce 0 1, .notify]

theorem released_once_writeAndRead :
    ∃ s, Run RequestRun.CleanStep freshDriver writeAndRead s ∧ s.Settled ∧ s.deleted = [1, 0] ∧
      s.results = [⟨7, .failed⟩] := by
  let next (s : RequestRun) (e : RequestEvent) : Option RequestRun :=
    if s.Clean e then s.step 3 e else none
  have sound : ∀ s e s', next s e = some s' → s.CleanStep e s' := by
    intro s e s' h
    by_cases clean : s.Clean e
    · exact ⟨clean, 3, (if_pos clean).symm.trans h⟩
    · exact absurd ((if_neg clean).symm.trans h) (by simp)
  have ends : ((writeAndRead.foldlM next freshDriver).map fun s => (s.deleted, s.results)) =
      some ([1, 0], [⟨7, .failed⟩]) := by decide +kernel
  obtain ⟨s, h, logs⟩ := Option.map_eq_some_iff.1 ends
  have run := Run.of_foldlM sound h
  exact ⟨s, run, (released_once run).1, congrArg Prod.fst logs, congrArg Prod.snd logs⟩

/-- A polled read that the device fails. -/
def failedRead : List RequestEvent :=
  [.submit true 0x80010000 ⟨0, 0x80020000, 512, 0, false⟩, .answer 0 .ioErr, .produce 0 1, .poll 0,
    .notify]

/-- The polling caller and `notify` both delete the request, and `notify` reports it. -/
theorem not_released_once_failedRead :
    ∃ s, Run RequestRun.Step freshDriver failedRead s ∧ ¬ s.Settled ∧ s.deleted = [0, 0] ∧
      s.heap.dangling = true ∧ s.results = [⟨0, .failed⟩] := by
  have ends : ((failedRead.foldlM (RequestRun.step 2) freshDriver).map fun s =>
      (s.deleted, s.heap.dangling, s.results)) = some ([0, 0], true, [⟨0, .failed⟩]) := by
    decide +kernel
  obtain ⟨s, h, logs⟩ := Option.map_eq_some_iff.1 ends
  have run : Run RequestRun.Step freshDriver failedRead s :=
    Run.of_foldlM (fun _ _ _ step => ⟨2, step⟩) h
  obtain ⟨deleted, dangling, results⟩ : s.deleted = [0, 0] ∧ s.heap.dangling = true ∧
      s.results = [⟨0, .failed⟩] := by simpa using logs
  refine ⟨s, run, fun settled => ?_, deleted, dangling, results⟩
  have := settled.live
  rw [dangling] at this
  cases this

end MatteOS.Devices
