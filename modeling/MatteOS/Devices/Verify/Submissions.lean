import MatteOS.Devices.Verify.Descriptors

/-!
# What a submission publishes

On a new queue, call number `k` of `block_operation` publishes the head `3 * k % 128` in the
entry `k % 128` of the available ring, and the chain from there has the header of the request,
the buffer of the caller and the status byte. The header counts in sectors and the descriptor
of the buffer has 32 bits for its length, so the bytes transferred are those asked for exactly
if the offset is at a sector and the size is below 4 GiB.
-/

namespace MatteOS.Devices

open Transition

namespace VirtQueueDescriptor

def HasNext (d : VirtQueueDescriptor) : Prop := d.flags &&& VirtQueueDescriptorFlags.Next ≠ 0

/-- The device may write the buffer, and may only read it otherwise. -/
def Writable (d : VirtQueueDescriptor) : Prop := d.flags &&& VirtQueueDescriptorFlags.Write ≠ 0

instance (d : VirtQueueDescriptor) : Decidable d.HasNext := inferInstanceAs (Decidable (_ ≠ _))

instance (d : VirtQueueDescriptor) : Decidable d.Writable := inferInstanceAs (Decidable (_ ≠ _))

end VirtQueueDescriptor

namespace VirtIOQueue

/-- The descriptors that are visited from `i` on along the `Next` flags, `fuel` at most. -/
def chain (descriptors : Nat → VirtQueueDescriptor) : Nat → Nat → List Nat
  | 0, _ => []
  | fuel + 1, i =>
    i :: if (descriptors i).HasNext then chain descriptors fuel (descriptors i).next.toNat else []

/-- What the device finds at an entry of the available ring: the first sector and the number of
bytes. -/
def transfer (q : VirtIOQueue) (h : RequestHeap) (entry : Nat) : BitVec 64 × BitVec 32 :=
  let header := q.descriptors (q.available.ring (entry % 128)).toNat
  let data := q.descriptors header.next.toNat
  ((h.requests header.address).header.sector, data.length)

/-! ## The three descriptors -/

section

variable {q : VirtIOQueue} {address : BitVec 64} {op : BlockOperation}

theorem linked_of_hasNext {i : Nat} {d : VirtQueueDescriptor} (next : d.HasNext) :
    linked i d = { d with next := BitVec.ofNat 16 ((i + 1) % 128) } := if_pos next

theorem linked_of_not_hasNext {i : Nat} {d : VirtQueueDescriptor} (last : ¬d.HasNext) :
    linked i d = d := if_neg last

theorem headerDescriptor_flags (address : BitVec 64) :
    (BlockOperation.headerDescriptor address).HasNext ∧
      ¬(BlockOperation.headerDescriptor address).Writable := by
  simp only [VirtQueueDescriptor.HasNext, VirtQueueDescriptor.Writable,
    BlockOperation.headerDescriptor]
  decide

theorem bufferDescriptor_flags (op : BlockOperation) :
    op.bufferDescriptor.HasNext ∧ (op.bufferDescriptor.Writable ↔ op.isWrite = false) := by
  simp only [VirtQueueDescriptor.HasNext, VirtQueueDescriptor.Writable,
    BlockOperation.bufferDescriptor]
  cases op.isWrite <;> decide

theorem statusDescriptor_flags (address : BitVec 64) :
    ¬(BlockOperation.statusDescriptor address).HasNext ∧
      (BlockOperation.statusDescriptor address).Writable := by
  simp only [VirtQueueDescriptor.HasNext, VirtQueueDescriptor.Writable,
    BlockOperation.statusDescriptor]
  decide

theorem publish_header : q.publish address op q.queueIndex =
    { BlockOperation.headerDescriptor address with
      next := BitVec.ofNat 16 ((q.queueIndex + 1) % 128) } := by
  unfold publish
  rw [Function.update_of_ne (by omega), Function.update_of_ne (by omega), Function.update_self,
    linked_of_hasNext (headerDescriptor_flags _).1]

theorem publish_buffer : q.publish address op ((q.queueIndex + 1) % 128) =
    { op.bufferDescriptor with next := BitVec.ofNat 16 ((q.queueIndex + 2) % 128) } := by
  have next : ((q.queueIndex + 1) % 128 + 1) % 128 = (q.queueIndex + 2) % 128 := by omega
  unfold publish
  rw [Function.update_of_ne (by omega), Function.update_self,
    linked_of_hasNext (bufferDescriptor_flags _).1, next]

theorem publish_status : q.publish address op ((q.queueIndex + 2) % 128) =
    BlockOperation.statusDescriptor address := by
  unfold publish
  rw [Function.update_self, linked_of_not_hasNext (statusDescriptor_flags _).1]

theorem toNat_slot (n : Nat) : (BitVec.ofNat 16 (n % 128)).toNat = n % 128 := by
  rw [BitVec.toNat_ofNat]
  omega

theorem publish_header_next :
    (q.publish address op q.queueIndex).next.toNat = (q.queueIndex + 1) % 128 := by
  rw [publish_header]
  exact toNat_slot _

theorem publish_buffer_next :
    (q.publish address op ((q.queueIndex + 1) % 128)).next.toNat = (q.queueIndex + 2) % 128 := by
  rw [publish_buffer]
  exact toNat_slot _

/-- The chain from the cursor ends with the status byte. -/
theorem chain_publish (fuel : Nat) :
    chain (q.publish address op) (fuel + 3) q.queueIndex = slots q.queueIndex := by
  have header : (q.publish address op q.queueIndex).HasNext := by
    rw [publish_header]
    exact (headerDescriptor_flags address).1
  have buffer : (q.publish address op ((q.queueIndex + 1) % 128)).HasNext := by
    rw [publish_buffer]
    exact (bufferDescriptor_flags _).1
  rw [chain, if_pos header, publish_header_next, chain, if_pos buffer, publish_buffer_next, chain,
    publish_status, if_neg (statusDescriptor_flags _).1]
  rfl

theorem slots_nodup (head : Nat) : (slots head).Nodup := by
  simp only [slots, List.nodup_cons, List.mem_cons, List.not_mem_nil, or_false, not_or,
    not_false_eq_true, List.nodup_nil, and_true]
  omega

end

end VirtIOQueue

open VirtIOQueue

/-! ## Chains across the ring -/

/-- Call number `k`, which is for `op` and has its request at `address`, has been published. -/
structure VirtIOQueue.Published (q : VirtIOQueue) (k : Nat) (address : BitVec 64)
    (op : BlockOperation) : Prop where
  entry : (q.available.ring (k % 128)).toNat = 3 * k % 128
  index : q.available.index.toNat = (k + 1) % 2 ^ 16
  chain : ∀ fuel, VirtIOQueue.chain q.descriptors (fuel + 3) (3 * k % 128) =
    [3 * k % 128, (3 * k + 1) % 128, (3 * k + 2) % 128]
  distinct : [3 * k % 128, (3 * k + 1) % 128, (3 * k + 2) % 128].Nodup
  header : ∃ d, q.descriptors (3 * k % 128) = d ∧ d.address = address ∧ d.length.toNat = 16 ∧
    ¬d.Writable
  buffer : ∃ d, q.descriptors ((3 * k + 1) % 128) = d ∧ d.address = op.buffer ∧
    d.length.toNat = op.size.toNat ∧ (d.Writable ↔ op.isWrite = false)
  status : ∃ d, q.descriptors ((3 * k + 2) % 128) = d ∧
    d.address = address + BlockIO.Request.statusOffset ∧ d.length.toNat = 1 ∧ d.Writable ∧
    ¬d.HasNext

/-- Where the cursors stand after `k` calls. -/
structure VirtIOQueue.Counted (q : VirtIOQueue) (k : Nat) : Prop where
  cursor : q.queueIndex = 3 * k % 128
  index : q.available.index.toNat = k % 2 ^ 16

/-- A call of `block_operation` with the address that `new` returns in it. -/
abbrev BlockCall := BitVec 64 × BlockOperation

/-- The checks that the size of a call is to pass: whole sectors, and below 4 GiB. -/
def BlockCall.Sized (call : BlockCall) : Prop :=
  call.2.size.toNat % 512 = 0 ∧ call.2.size.toNat < 2 ^ 32

/-- The queue and the requests after a sequence of calls. -/
def blockOperations (calls : List BlockCall) (s : VirtIOQueue × RequestHeap) :
    VirtIOQueue × RequestHeap :=
  calls.foldl (fun s call => (blockOperation call.1 call.2 s.1 s.2).2) s

section

variable {q : VirtIOQueue} {h : RequestHeap} {call : BlockCall} {k : Nat}

theorem BlockCall.Sized.valid (sized : call.Sized) : call.2.size % 512 = 0 := by
  apply BitVec.eq_of_toNat_eq
  rw [BitVec.toNat_umod]
  exact sized.1

/-- **One call** publishes its chain at the cursor and moves both cursors on. -/
theorem VirtIOQueue.Counted.blockOperation (counted : q.Counted k) (sized : call.Sized) :
    (blockOperation call.1 call.2 q h).2.1.Counted (k + 1) ∧
      (blockOperation call.1 call.2 q h).2.1.Published k call.1 call.2 := by
  obtain ⟨q', run, descriptors, index, -, -, available⟩ :=
    @blockOperation_valid call.1 call.2 q h sized.valid
  have next : (q.available.index + 1).toNat = (k + 1) % 2 ^ 16 := by
    rw [BitVec.toNat_add, counted.index]
    simp
  have entry : q.available.index.toNat % 128 = k % 128 := by
    rw [counted.index]
    omega
  have length : (call.2.size.setWidth 32).toNat = call.2.size.toNat := by
    rw [BitVec.toNat_setWidth, Nat.mod_eq_of_lt sized.2]
  have second : (3 * k + 1) % 128 = (q.queueIndex + 1) % 128 := by
    rw [counted.cursor]
    omega
  have third : (3 * k + 2) % 128 = (q.queueIndex + 2) % 128 := by
    rw [counted.cursor]
    omega
  rw [run]
  refine ⟨⟨?_, ?_⟩, ?_, ?_, fun fuel => ?_, ?_, ?_, ?_, ?_⟩
  · rw [index, counted.cursor]
    omega
  · rw [available]
    exact next
  · simp only [available, entry, Function.update_self, counted.cursor, toNat_slot]
  · rw [available]
    exact next
  · rw [descriptors, second, third, ← counted.cursor]
    exact chain_publish fuel
  · rw [second, third, ← counted.cursor]
    exact slots_nodup _
  · rw [descriptors, ← counted.cursor, publish_header]
    exact ⟨_, rfl, rfl, rfl, (headerDescriptor_flags call.1).2⟩
  · rw [descriptors, second, publish_buffer]
    exact ⟨_, rfl, rfl, length, (bufferDescriptor_flags _).2⟩
  · rw [descriptors, third, publish_status]
    exact ⟨_, rfl, rfl, rfl, (statusDescriptor_flags _).2,
      (statusDescriptor_flags _).1⟩

theorem VirtIOQueue.Counted.blockOperations (counted : q.Counted k) {calls : List BlockCall}
    (sized : ∀ call ∈ calls, call.Sized) :
    (blockOperations calls (q, h)).1.Counted (k + calls.length) := by
  induction calls generalizing q h k with
  | nil => exact counted
  | cons call calls ih =>
    have step := (counted.blockOperation (h := h) (sized call List.mem_cons_self)).1
    rw [List.length_cons, Nat.add_comm calls.length, ← Nat.add_assoc]
    exact ih step fun call mem => sized call (List.mem_cons_of_mem _ mem)

end

/-- **Chains across the ring.** The last of `k + 1` calls on a new queue is published with a chain
of its header, its buffer and its status byte. -/
theorem blockOperations_published (descriptors : Nat → VirtQueueDescriptor)
    (usedRing : Nat → VirtQueueUsedElement) (availableRing : Nat → BitVec 16) (heap : RequestHeap)
    (calls : List BlockCall) (last : BlockCall) (sized : ∀ call ∈ calls ++ [last], call.Sized) :
    (blockOperations (calls ++ [last])
      ((SubmissionRun.init descriptors usedRing availableRing heap).queue, heap)).1.Published
        calls.length last.1 last.2 := by
  have fresh : (SubmissionRun.init descriptors usedRing availableRing heap).queue.Counted 0 :=
    ⟨rfl, rfl⟩
  have before := fresh.blockOperations (h := heap) fun call mem =>
    sized call (List.mem_append_left _ mem)
  rw [Nat.zero_add] at before
  rw [blockOperations, List.foldl_append]
  exact (before.blockOperation (sized last (by simp))).2

theorem blockOperations_published_first :
    (blockOperations ([] ++ [(0x80010000, ⟨7, 0x80020000, 512, 0, false⟩)])
      ((SubmissionRun.init (fun _ => ⟨0, 0, 0, 0⟩) (fun _ => ⟨0, 0⟩) (fun _ => 0)
        ⟨fun _ => ⟨⟨0, 0⟩, ⟨0, 0, 0⟩, 0⟩, fun _ => false, false⟩).queue,
        ⟨fun _ => ⟨⟨0, 0⟩, ⟨0, 0, 0⟩, 0⟩, fun _ => false, false⟩)).1.Published 0 0x80010000
          ⟨7, 0x80020000, 512, 0, false⟩ := by
  apply blockOperations_published _ _ _ _ [] (0x80010000, ⟨7, 0x80020000, 512, 0, false⟩)
  intro call mem
  obtain rfl := List.mem_singleton.1 mem
  exact ⟨by decide, by decide⟩

/-! ## The bytes of a transfer -/

/-- The transfer is of the bytes from the offset of the operation on, as many as its size. -/
def BlockOperation.DenotedBy (op : BlockOperation) (transfer : BitVec 64 × BitVec 32) : Prop :=
  transfer.1.toNat * 512 = op.offset.toNat ∧ transfer.2.toNat = op.size.toNat

/-- A request that `block_operation` accepts is published for the bytes of the operation, and an
operation whose bytes no request can denote is rejected and publishes nothing. -/
structure BlockOperation.Exact (op : BlockOperation) (address : BitVec 64) (q : VirtIOQueue)
    (h : RequestHeap) : Prop where
  accepted : ∀ request q' h', blockOperation address op q h = (.ok request, q', h') →
    op.DenotedBy (q'.transfer h' q.available.index.toNat)
  rejected : (¬∃ transfer, op.DenotedBy transfer) →
    ∃ error, blockOperation address op q h = (.error error, q, h)

section

variable {q : VirtIOQueue} {h : RequestHeap} {address : BitVec 64} {op : BlockOperation}

/-- What the device finds of a request. -/
theorem blockOperation_transfer (cursor : q.queueIndex < 128) (valid : op.size % 512 = 0)
    {request : BitVec 64} {q' : VirtIOQueue} {h' : RequestHeap}
    (run : blockOperation address op q h = (.ok request, q', h')) :
    q'.transfer h' q.available.index.toNat = (op.offset / 512, op.size.setWidth 32) := by
  obtain ⟨published, result, descriptors, -, -, -, available⟩ :=
    @blockOperation_valid address op q h valid
  rw [run, Prod.mk.injEq, Prod.mk.injEq] at result
  obtain ⟨-, rfl, rfl⟩ := result
  have entry : (q'.available.ring (q.available.index.toNat % 128)).toNat = q.queueIndex := by
    rw [available]
    simp only [Function.update_self, BitVec.toNat_ofNat]
    omega
  have header : (q.publish address op q.queueIndex).address = address := by
    rw [publish_header]
    rfl
  have data : (q.publish address op ((q.queueIndex + 1) % 128)).length = op.size.setWidth 32 := by
    rw [publish_buffer]
    rfl
  unfold transfer
  simp only [entry, descriptors, publish_header_next, header, data, RequestHeap.create,
    Function.update_self, BlockOperation.request]

theorem size_valid_iff : op.size % 512 = 0 ↔ op.size.toNat % 512 = 0 := by
  rw [← BitVec.toNat_inj, BitVec.toNat_umod]
  rfl

theorem denotedBy_iff :
    op.DenotedBy (op.offset / 512, op.size.setWidth 32) ↔
      512 ∣ op.offset.toNat ∧ op.size.toNat < 2 ^ 32 := by
  simp only [BlockOperation.DenotedBy, BitVec.toNat_udiv, BitVec.toNat_setWidth]
  rw [show (512 : BitVec 64).toNat = 512 from rfl]
  omega

theorem blockOperation_exact (cursor : q.queueIndex < 128) :
    op.Exact address q h ↔
      op.size.toNat % 512 ≠ 0 ∨ 512 ∣ op.offset.toNat ∧ op.size.toNat < 2 ^ 32 := by
  by_cases valid : op.size % 512 = 0
  · rw [or_iff_right (not_not.2 (size_valid_iff.1 valid)), ← denotedBy_iff]
    constructor
    · intro exact
      obtain ⟨q', run, -⟩ := @blockOperation_valid address op q h valid
      rw [← blockOperation_transfer cursor valid run]
      exact exact.accepted _ _ _ run
    · intro denoted
      refine ⟨fun request q' h' run => ?_, fun none => absurd ⟨_, denoted⟩ none⟩
      rwa [blockOperation_transfer cursor valid run]
  · refine iff_of_true ⟨fun request q' h' run => ?_, fun _ => ?_⟩ (.inl (mt size_valid_iff.2 valid))
    · rw [blockOperation_invalid valid] at run
      cases run
    · exact ⟨_, blockOperation_invalid valid⟩

end

/-- **Exact transfers.** Whatever has been submitted and completed before, a call of
`block_operation` transfers the bytes asked for or is rejected, if and only if its size is not a
multiple of 512, or its offset is one and its size is below 4 GiB. -/
theorem blockOperation_exact_iff (descriptors : Nat → VirtQueueDescriptor)
    (usedRing : Nat → VirtQueueUsedElement) (availableRing : Nat → BitVec 16) (heap : RequestHeap)
    (events : List SubmissionEvent) (address : BitVec 64) (op : BlockOperation) :
    let s := events.foldl SubmissionRun.step (.init descriptors usedRing availableRing heap)
    op.Exact address s.queue s.heap ↔
      op.size.toNat % 512 ≠ 0 ∨ 512 ∣ op.offset.toNat ∧ op.size.toNat < 2 ^ 32 := by
  intro s
  have numbered : s.Numbered := Along.invariant (P := fun _ _ => True)
    (fun s e inv _ => inv.step e) (SubmissionRun.init_numbered _ _ _ _)
    (Along.of_forall (fun _ _ => trivial) _ events)
  refine blockOperation_exact ?_
  rw [numbered.cursor]
  omega

/-- A read of 512 bytes from offset 100 on reads sector zero. -/
theorem not_blockOperation_exact :
    let s := SubmissionRun.init (fun _ => ⟨0, 0, 0, 0⟩) (fun _ => ⟨0, 0⟩) (fun _ => 0)
      ⟨fun _ => ⟨⟨0, 0⟩, ⟨0, 0, 0⟩, 0⟩, fun _ => false, false⟩
    ¬(⟨7, 0x80020000, 512, 100, false⟩ : BlockOperation).Exact 0x80010000 s.queue s.heap := by
  intro s exact
  have holds := (blockOperation_exact (show s.queue.queueIndex < 128 by decide)).1 exact
  revert holds
  decide

end MatteOS.Devices
