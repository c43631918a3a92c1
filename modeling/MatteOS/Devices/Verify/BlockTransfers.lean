import MatteOS.Devices.BlockTransfers
import MatteOS.Devices.Verify.BlockRequests
import MatteOS.Devices.Verify.Submissions
import MatteOS.Lib.Simulation

/-!
# Block requests move the bytes they were made for

The queue, the request objects and the interrupt handler come to a store of accepted operations,
each of which is carried out once, at its offset rounded down to a sector and in the lowest 32
bits of its size. Clean runs of the driver are runs of that store (`simulates_block_store`), so
no request moves the bytes of another one, whatever the order in which the device answers and
however often the rings go around.
-/

namespace MatteOS.Devices

open ByteMemory Transition VirtIOQueue

/-! ## The store -/

namespace BlockOperation

variable (op : BlockOperation)

/-- The first byte of the disk that an operation concerns. -/
def start : Nat := (op.offset / 512).toNat * 512

/-- How many bytes an operation concerns. -/
def extent : Nat := op.size.toNat % 2 ^ 32

end BlockOperation

/-- Carry out an operation between the buffer and the disk. If it fails, what it writes may hold
`moved` instead. -/
def Storage.perform (store : Storage) (op : BlockOperation) (status : BlockStatus)
    (moved : List (BitVec 8)) : Storage :=
  let partly := moved.take op.extent
  if op.isWrite then
    let bytes := if status = .ok then loadBytes store.memory op.buffer.toNat op.extent else partly
    { store with disk := storeBytes store.disk op.start bytes }
  else
    let bytes := if status = .ok then loadBytes store.disk op.start op.extent else partly
    { store with memory := storeBytes store.memory op.buffer.toNat bytes }

/-- A store with the operations that it has accepted and how they ended. -/
structure BlockStore extends Storage where
  accepted : List (BlockOperation × Option BlockStatus)

inductive BlockStoreAction where
  | accept (op : BlockOperation)
  | carryOut (number : Nat) (status : BlockStatus) (moved : List (BitVec 8))
  | store (address : Nat) (bytes : List (BitVec 8))
deriving DecidableEq

namespace BlockStore

/-- An operation that was accepted is carried out once. -/
def step (s : BlockStore) : BlockStoreAction → Option BlockStore
  | .accept op => some { s with accepted := s.accepted ++ [(op, none)] }
  | .carryOut number status moved =>
    match s.accepted[number]? with
    | some (op, none) => some
        { toStorage := s.perform op status moved
          accepted := s.accepted.set number (op, some status) }
    | _ => none
  | .store address bytes => some { s with memory := storeBytes s.memory address bytes }

def Step (s : BlockStore) (a : BlockStoreAction) (s' : BlockStore) : Prop := s.step a = some s'

/-- The operation with a number ended so. -/
def Ended (s : BlockStore) (number : Nat) (op : BlockOperation) (status : BlockStatus) : Prop :=
  s.accepted[number]? = some (op, some status)

end BlockStore

/-! ## What the device fetches -/

namespace RequestRun

/-- What the device needs of request `n`, beyond what keeps its object in place. -/
structure Described (s : RequestRun) (n : Nat) : Prop where
  entry : (s.queue.available.ring (n % 128)).toNat = 3 * n % 128
  data : s.queue.descriptors ((3 * n + 1) % 128) =
    { (s.submission n).operation.bufferDescriptor with
      next := BitVec.ofNat 16 ((3 * n + 2) % 128) }
  header : (s.heap.requests (s.submission n).address).header =
    (s.submission n).operation.request.header

variable {s s' : RequestRun} {n : Nat}

/-- A description stays as it is when a step changes nothing of it. -/
theorem Described.frame (h : s.Described n) (submission : s'.submission n = s.submission n)
    (entry : s'.queue.available.ring (n % 128) = s.queue.available.ring (n % 128))
    (data : s'.queue.descriptors ((3 * n + 1) % 128) = s.queue.descriptors ((3 * n + 1) % 128))
    (header : (s'.heap.requests (s.submission n).address).header =
      (s.heap.requests (s.submission n).address).header) : s'.Described n := by
  constructor
  · rw [entry]
    exact h.entry
  · rw [data, submission]
    exact h.data
  · rw [submission, header]
    exact h.header

/-- The device fetches the header and the buffer of the request. -/
theorem Described.fetch (h : s.Described n) (place : s.InPlace n) :
    s.fetch n =
      { header := (s.submission n).operation.request.header
        data := { (s.submission n).operation.bufferDescriptor with
          next := BitVec.ofNat 16 ((3 * n + 2) % 128) } } := by
  simp only [RequestRun.fetch, VIRTIO_RING_SIZE, h.entry, place.header, place.buffer, h.header, h.data]

end RequestRun

/-- What the device makes of an operation. -/
theorem Storage.transfer_operation (store : Storage) (op : BlockOperation) (next : BitVec 16)
    (status : BlockStatus) (moved : List (BitVec 8)) :
    store.transfer { header := op.request.header, data := { op.bufferDescriptor with next } } status
      moved = store.perform op status moved := by
  have length : op.bufferDescriptor.length.toNat = op.extent := BitVec.toNat_setWidth _ _
  have writable := (bufferDescriptor_flags op).2
  simp only [VirtQueueDescriptor.Writable] at writable
  simp only [Storage.transfer, Storage.perform, length, writable]
  cases h : op.isWrite with
  | false =>
    have type : op.request.header.type = BlockIO.RequestType.Read := by
      simp only [BlockOperation.request, h]
      rfl
    rw [if_pos ⟨type, rfl⟩]
    rfl
  | true =>
    have type : op.request.header.type = BlockIO.RequestType.Write := by
      simp only [BlockOperation.request, h]
      rfl
    rw [if_neg (by simp), if_pos ⟨type, by simp⟩]
    rfl

/-! ## Every request that is pending is described -/

namespace RequestRun

variable {s s' : RequestRun} {n : Nat}

/-- What submissions leave in the available ring. -/
theorem submit_available {polled : Bool} {address : BitVec 64} {op : BlockOperation}
    (valid : op.size % 512 = 0) (run : s.submit polled address op = some s') :
    s'.queue.available =
      { index := s.queue.available.index + 1
        ring := Function.update s.queue.available.ring (s.queue.available.index.toNat % 128)
          (BitVec.ofNat 16 s.queue.queueIndex) } := by
  unfold submit at run
  split at run
  · cases run
  · obtain ⟨q, step, -, -, -, -, available⟩ :=
      @blockOperation_valid address (op.calledBy polled) s.queue s.heap (by simpa using valid)
    simp only [step] at run
    rw [← Option.some.inj run]
    exact available

/-- After a submission the cursors have moved on. -/
theorem submit_counted {polled : Bool} {address : BitVec 64} {op : BlockOperation}
    (counted : s.queue.Counted s.submitted) (valid : op.size % 512 = 0)
    (run : s.submit polled address op = some s') :
    s'.submitted = s.submitted + 1 ∧ s'.queue.Counted (s.submitted + 1) := by
  have available := submit_available valid run
  obtain ⟨-, q, -, index, -, -, rfl⟩ := submit_valid valid run
  refine ⟨rfl, ?_, ?_⟩
  · show q.queueIndex = _
    rw [index, counted.cursor]
    omega
  · rw [available, BitVec.toNat_add, counted.index]
    simp

/-- The request that is submitted is described. -/
theorem submit_described {polled : Bool} {address : BitVec 64} {op : BlockOperation}
    (counted : s.queue.Counted s.submitted) (valid : op.size % 512 = 0)
    (run : s.submit polled address op = some s') : s'.Described s.submitted := by
  have available := submit_available valid run
  obtain ⟨-, q, descriptors, -, -, -, rfl⟩ := submit_valid valid run
  have slot : s.queue.available.index.toNat % 128 = s.submitted % 128 := by
    rw [counted.index]
    omega
  have second : (3 * s.submitted + 1) % 128 = (s.queue.queueIndex + 1) % 128 := by
    rw [counted.cursor]
    omega
  have third : (3 * s.submitted + 2) % 128 = (s.queue.queueIndex + 2) % 128 := by
    rw [counted.cursor]
    omega
  constructor
  · rw [available, slot]
    show (Function.update s.queue.available.ring (s.submitted % 128) _ (s.submitted % 128)).toNat = _
    rw [Function.update_self, counted.cursor]
    exact toNat_slot _
  · simp only [Function.update_self]
    rw [descriptors, second, third]
    exact publish_buffer
  · simp only [Function.update_self, RequestHeap.create]

/-- A request that is near enough and has another object stays described. -/
theorem Described.submit {polled : Bool} {address : BitVec 64} {op : BlockOperation}
    (h : s.Described n) (counted : s.queue.Counted s.submitted) (lt : n < s.submitted)
    (near : s.submitted < n + 42) (other : (s.submission n).address ≠ address)
    (valid : op.size % 512 = 0) (run : s.submit polled address op = some s') : s'.Described n := by
  have available := submit_available valid run
  obtain ⟨-, q, descriptors, -, -, -, rfl⟩ := submit_valid valid run
  have slot : n % 128 ≠ s.queue.available.index.toNat % 128 := by
    rw [counted.index]
    omega
  have outside : (3 * n + 1) % 128 ∉ slots s.queue.queueIndex := by
    rw [counted.cursor]
    simp only [slots, List.mem_cons, List.not_mem_nil, or_false]
    omega
  refine h.frame (Function.update_of_ne (Nat.ne_of_lt lt) _ _) ?_ ?_ ?_
  · rw [available]
    exact Function.update_of_ne slot _ _
  · show q.descriptors _ = _
    rw [descriptors, publish_of_not_mem outside]
  · show (Function.update s.heap.requests address _ (s.submission n).address).header = _
    rw [Function.update_of_ne other]

/-- An answer in place writes the status of its request only. -/
theorem answer_eq {status : BlockStatus} (place : s.InPlace n)
    (run : s.answer n status = some s') :
    n < s.submitted ∧ s.stage n = .inFlight ∧ s' = { s with
      heap := { s.heap with
        requests := Function.update s.heap.requests (s.submission n).address
          { s.heap.requests (s.submission n).address with status := status.value } }
      stage := Function.update s.stage n (.answered status) } := by
  unfold RequestRun.answer at run
  split at run
  swap
  · cases run
  rename_i h
  have offset : (s.submission n).address + BlockIO.Request.statusOffset -
      BlockIO.Request.statusOffset = (s.submission n).address := by
    rw [BitVec.add_sub_cancel]
  refine ⟨h.1, h.2, ?_⟩
  rw [← Option.some.inj run]
  simp only [place.statusAddress, RequestHeap.writeStatus, offset,
    RequestHeap.touch_eq place.allocated]

/-- An answer keeps every description. -/
theorem Described.answer {m : Nat} {status : BlockStatus} (h : s.Described m) (place : s.InPlace n)
    (run : s.answer n status = some s') : s'.Described m := by
  obtain ⟨-, -, rfl⟩ := answer_eq place run
  refine h.frame rfl rfl rfl ?_
  by_cases same : (s.submission m).address = (s.submission n).address
  · simp only [same, Function.update_self]
  · simp only [Function.update_of_ne same]

/-- What a used element that is produced adds. -/
theorem produce_eq {length : BitVec 32} (run : s.produce n length = some s') :
    ∃ status, n < s.submitted ∧ s.stage n = .answered status ∧ s' = { s with
      queue := s.queue.complete ⟨BitVec.ofNat 32 (s.submission n).head, length⟩
      stage := Function.update s.stage n (.used status)
      produced := s.produced ++ [n] } := by
  unfold RequestRun.produce at run
  split at run
  swap
  · cases run
  rename_i lt
  split at run
  swap
  · cases run
  rename_i status stage
  exact ⟨status, lt, stage, (Option.some.inj run).symm⟩

/-- A look at the status leaves the queue, the objects, the submissions and the stages alone. -/
theorem poll_frame (run : s.poll n = some s') :
    s'.queue = s.queue ∧ s'.heap.requests = s.heap.requests ∧ s'.submitted = s.submitted ∧
      s'.submission = s.submission ∧ s'.stage = s.stage ∧ s'.produced = s.produced ∧
      s'.consumed = s.consumed := by
  unfold RequestRun.poll at run
  split at run
  swap
  · cases run
  simp only [] at run
  split at run
  · rw [← Option.some.inj run]
    exact ⟨rfl, rfl, rfl, rfl, rfl, rfl, rfl⟩
  · split at run
    · rw [← Option.some.inj run]
      exact ⟨rfl, rfl, rfl, rfl, rfl, rfl, rfl⟩
    · rw [← Option.some.inj run]
      exact ⟨rfl, rfl, rfl, rfl, rfl, rfl, rfl⟩

/-- The invariant of the requests, with what the device needs of those that are pending. -/
structure DataInv (s : RequestRun) : Prop where
  inv : s.Inv
  counted : s.queue.Counted s.submitted
  described : ∀ n, s.Pending n → s.Described n

theorem DataInv.submit {polled : Bool} {address : BitVec 64} {op : BlockOperation} (d : s.DataInv)
    (clean : s.Clean (.submit polled address op)) (run : s.submit polled address op = some s') :
    s'.DataInv := by
  have inv' := d.inv.submit clean run
  by_cases valid : op.size % 512 = 0
  swap
  · rw [submit_invalid valid run]
    exact d
  obtain ⟨submitted, counted⟩ := submit_counted d.counted valid run
  refine ⟨inv', by rw [submitted]; exact counted, fun n hn => ?_⟩
  have recent := inv'.recent n hn
  rw [submitted] at recent
  by_cases new : n = s.submitted
  · rw [new]
    exact submit_described d.counted valid run
  have lt : n < s.submitted := by
    have := hn.1
    omega
  obtain ⟨free, q, -, -, -, -, e⟩ := submit_valid valid run
  have pending : s.Pending n := ⟨lt, by
    have kept := hn.2
    rw [e] at kept
    exact kept⟩
  have other : (s.submission n).address ≠ address := by
    intro same
    rw [← same, (d.inv.inPlace n pending).allocated] at free
    cases free
  exact (d.described n pending).submit d.counted lt (by omega) other valid run

theorem DataInv.answer {status : BlockStatus} (d : s.DataInv)
    (run : s.answer n status = some s') : s'.DataInv ∧ s.InPlace n ∧ s.Described n := by
  have h : n < s.submitted ∧ s.stage n = .inFlight := by
    by_contra h
    rw [RequestRun.answer, if_neg h] at run
    cases run
  have pending := d.inv.pending_of_stage h.1 (by simp [h.2])
  have place := d.inv.inPlace n pending
  refine ⟨⟨d.inv.answer run, ?_, fun m hm => ?_⟩, place, d.described n pending⟩
  · obtain ⟨-, -, rfl⟩ := answer_eq place run
    exact d.counted
  · have pending' : s.Pending m := by
      obtain ⟨-, -, rfl⟩ := answer_eq place run
      exact hm
    exact (d.described m pending').answer place run

theorem DataInv.produce {length : BitVec 32} (d : s.DataInv)
    (run : s.produce n length = some s') : s'.DataInv := by
  have inv' := d.inv.produce run
  obtain ⟨status, -, -, e⟩ := produce_eq run
  have pending (m : Nat) (hm : s'.Pending m) : s.Pending m := by
    rw [e] at hm
    refine ⟨hm.1, fun mem => hm.2 ?_⟩
    simp only [collected] at mem ⊢
    rwa [List.take_append_of_le_length d.inv.consumed]
  rw [e] at inv' pending ⊢
  exact ⟨inv', ⟨d.counted.cursor, d.counted.index⟩, fun m hm =>
    (d.described m (pending m hm)).frame rfl rfl rfl rfl⟩

theorem DataInv.poll (d : s.DataInv) (clean : s.Clean (.poll n)) (run : s.poll n = some s') :
    s'.DataInv := by
  obtain ⟨queue, requests, submitted, submission, -, produced, consumed⟩ := poll_frame run
  refine ⟨d.inv.poll clean run, ?_, fun m hm => ?_⟩
  · rw [queue, submitted]
    exact d.counted
  · have pending : s.Pending m := by
      rw [Pending, collected, submitted, produced, consumed] at hm
      exact hm
    exact (d.described m pending).frame (by rw [submission]) (by rw [queue]) (by rw [queue])
      (by rw [requests])

theorem DataInv.notify {fuel : Nat} (d : s.DataInv) (clean : s.Clean .notify)
    (run : s.notify fuel = some s') : s'.DataInv := by
  have inv' := (d.inv.notify clean run).1
  obtain ⟨device, -, -, descriptors, rfl⟩ := d.inv.notify_cases clean run
  refine ⟨inv', ⟨d.counted.cursor, d.counted.index⟩, fun m hm => ?_⟩
  have pending : s.Pending m := by
    refine ⟨hm.1, fun mem => hm.2 ?_⟩
    simp only [collected, List.take_length]
    exact List.mem_of_mem_take mem
  refine (d.described m pending).frame rfl rfl (descriptors _ fun mem => ?_) rfl
  -- the heads of other requests lie outside of this chain
  obtain ⟨k, hk, slot⟩ := List.mem_map.1 mem
  by_cases same : k = m
  · rw [same] at slot
    omega
  · refine d.inv.not_mem_slots (d.inv.pending_of_outstanding hk) pending same ?_
    rw [slot]
    simp [slots]

/-- **One step** of the driver or the device keeps what the device needs. -/
theorem DataInv.step {e : RequestEvent} (d : s.DataInv) (step : s.CleanStep e s') :
    s'.DataInv := by
  obtain ⟨clean, fuel, run⟩ := step
  cases e with
  | submit polled address op => exact d.submit clean run
  | answer n status => exact (d.answer run).1
  | produce n length => exact d.produce run
  | poll n => exact d.poll clean run
  | notify => exact d.notify clean run

end RequestRun

/-! ## The simulation -/

/-- How the device has ended a request. -/
def RequestStage.ended : RequestStage → Option BlockStatus
  | .inFlight => none
  | .answered status => some status
  | .used status => some status

/-- What a step of the driver or the device is for the store. -/
def TransferEvent.action : TransferEvent → Option BlockStoreAction
  | .request (.submit polled _ op) _ =>
    if op.size % 512 = 0 then some (.accept (op.calledBy polled)) else none
  | .request (.answer number status) moved => some (.carryOut number status moved)
  | .request (.produce _ _) _ => none
  | .request (.poll _) _ => none
  | .request .notify _ => none
  | .store address bytes => some (.store address bytes)

namespace TransferRun

/-- A step in which the driver and the device do what is clean. -/
def Clean (s : TransferRun) : TransferEvent → Prop
  | .request event _ => s.requests.Clean event
  | .store _ _ => True

instance (s : TransferRun) : ∀ e, Decidable (s.Clean e)
  | .request event _ => inferInstanceAs (Decidable (s.requests.Clean event))
  | .store _ _ => isTrue trivial

def CleanStep (s : TransferRun) (e : TransferEvent) (s' : TransferRun) : Prop :=
  s.Clean e ∧ s.Step e s'

/-- The store as the callers see it. -/
def view (s : TransferRun) : BlockStore where
  toStorage := s.storage
  accepted := (List.range s.requests.submitted).map fun n =>
    ((s.requests.submission n).operation, (s.requests.stage n).ended)

variable {s s' : TransferRun}

theorem view_accepted_get {n : Nat} (lt : n < s.requests.submitted) :
    s.view.accepted[n]? =
      some ((s.requests.submission n).operation, (s.requests.stage n).ended) := by
  simp [view, lt]

/-- A step that leaves the storage, the submissions and how they ended as they are. -/
theorem view_eq (storage : s'.storage = s.storage)
    (submitted : s'.requests.submitted = s.requests.submitted)
    (submission : s'.requests.submission = s.requests.submission)
    (ended : ∀ n, (s'.requests.stage n).ended = (s.requests.stage n).ended) :
    s'.view = s.view := by
  simp only [view, storage, submitted, submission, ended]

theorem submit_view {requests : RequestRun} {polled : Bool} {address : BitVec 64}
    {op : BlockOperation} (valid : op.size % 512 = 0)
    (run : s.requests.submit polled address op = some requests) :
    s.view.Step (.accept (op.calledBy polled)) (view { s with requests }) := by
  obtain ⟨-, q, -, -, -, -, rfl⟩ := RequestRun.submit_valid valid run
  have old : (List.range s.requests.submitted).map (fun n =>
        ((Function.update s.requests.submission s.requests.submitted
          { address, head := s.requests.queue.queueIndex, operation := op.calledBy polled, polled }
            n).operation,
          (Function.update s.requests.stage s.requests.submitted .inFlight n).ended)) =
      s.view.accepted := by
    refine List.map_congr_left fun n hn => ?_
    have ne : n ≠ s.requests.submitted := Nat.ne_of_lt (List.mem_range.1 hn)
    simp only [Function.update_of_ne ne]
  simp only [BlockStore.Step, BlockStore.step, Option.some.injEq]
  simp only [view, List.range_succ, List.map_append, List.map_singleton, Function.update_self, old]
  rfl

theorem answer_view {requests : RequestRun} {n : Nat} {status : BlockStatus}
    {moved : List (BitVec 8)} (place : s.requests.InPlace n) (described : s.requests.Described n)
    (run : s.requests.answer n status = some requests) :
    s.view.Step (.carryOut n status moved)
      (view { requests, storage := s.transferred moved (.answer n status) }) := by
  obtain ⟨lt, stage, rfl⟩ := RequestRun.answer_eq place run
  have found := @view_accepted_get s n lt
  rw [stage] at found
  have now : (List.range s.requests.submitted).map (fun m =>
        ((s.requests.submission m).operation,
          (Function.update s.requests.stage n (.answered status) m).ended)) =
      s.view.accepted.set n ((s.requests.submission n).operation, some status) := by
    refine List.ext_getElem (by simp [view]) fun m _ _ => ?_
    rw [List.getElem_map, List.getElem_range, List.getElem_set]
    split
    · rename_i same
      rw [← same, Function.update_self]
      rfl
    · rename_i other
      simp [view, Function.update_of_ne (Ne.symm other)]
  have carried : s.transferred moved (.answer n status) =
      s.storage.perform (s.requests.submission n).operation status moved := by
    simp only [transferred, described.fetch place]
    exact Storage.transfer_operation _ _ _ _ _
  simp only [BlockStore.Step, BlockStore.step, found, RequestStage.ended, carried]
  simp only [view, now]

/-- **The driver and the device simulate the store.** -/
theorem simulation : Simulation CleanStep (fun s => s.requests.DataInv) view TransferEvent.action
    BlockStore.Step where
  kept := by
    intro s e s' d step
    obtain ⟨clean, fuel, run⟩ := step
    cases e with
    | request event moved =>
      obtain ⟨requests, ran, rfl⟩ := Option.map_eq_some_iff.1 run
      exact d.step ⟨clean, fuel, ran⟩
    | store address bytes =>
      rw [← Option.some.inj run]
      exact d
  visible := by
    intro s e s' a d step label
    obtain ⟨clean, fuel, run⟩ := step
    cases e with
    | request event moved =>
      obtain ⟨requests, ran, rfl⟩ := Option.map_eq_some_iff.1 run
      cases event with
      | submit polled address op =>
        simp only [TransferEvent.action] at label
        split at label
        swap
        · cases label
        · rename_i valid
          rw [← Option.some.inj label]
          exact submit_view valid ran
      | answer n status =>
        obtain ⟨-, place, described⟩ := d.answer ran
        rw [← Option.some.inj label]
        exact answer_view place described ran
      | produce n length => cases label
      | poll n => cases label
      | notify => cases label
    | store address bytes =>
      rw [← Option.some.inj label, ← Option.some.inj run]
      rfl
  silent := by
    intro s e s' d step label
    obtain ⟨clean, fuel, run⟩ := step
    cases e with
    | request event moved =>
      obtain ⟨requests, ran, rfl⟩ := Option.map_eq_some_iff.1 run
      cases event with
      | submit polled address op =>
        simp only [TransferEvent.action] at label
        split at label
        · cases label
        · rename_i invalid
          have same : requests = s.requests := RequestRun.submit_invalid invalid ran
          rw [same]
          rfl
      | answer n status => cases label
      | produce n length =>
        obtain ⟨status, -, stage, e⟩ := RequestRun.produce_eq ran
        rw [e]
        refine view_eq rfl rfl rfl fun m => ?_
        by_cases same : m = n
        · simp only [same, Function.update_self, stage, RequestStage.ended]
        · simp only [Function.update_of_ne same]
      | poll n =>
        obtain ⟨-, -, submitted, submission, stage, -⟩ := RequestRun.poll_frame ran
        exact view_eq rfl submitted submission fun m => congrArg _ (congrFun stage m)
      | notify =>
        obtain ⟨device, -, -, -, e⟩ := d.inv.notify_cases clean ran
        rw [e]
        rfl
    | store address bytes => cases label

/-- The operation of a request with a used element has ended as the used element says. -/
theorem view_ended {n : Nat} {status : BlockStatus} (lt : n < s.requests.submitted)
    (stage : s.requests.stage n = .used status) :
    s.view.Ended n (s.requests.submission n).operation status := by
  rw [BlockStore.Ended, view_accepted_get lt, stage]
  rfl

/-- What the results report is how the operations ended. -/
theorem results_ended (d : s.requests.DataInv) :
    ∃ numbers : List Nat, numbers.Nodup ∧
      List.Forall₂ (fun n result => ∃ op status, s.view.Ended n op status ∧
        result = ⟨op.requestId, if status = .ok then .ok else .failed⟩)
        numbers s.requests.results := by
  refine ⟨s.requests.deleted.filter fun n => !(s.requests.submission n).polled,
    d.inv.settled.once.filter _, ?_⟩
  rw [d.inv.settled.results, List.forall₂_map_right_iff, List.forall₂_same]
  intro n hn
  have collected := (d.inv.settled.done n).1 (List.mem_of_mem_filter hn)
  obtain ⟨lt, status, stage⟩ := (d.inv.produced n).1 (List.mem_of_mem_take collected)
  refine ⟨_, status, view_ended lt stage, ?_⟩
  rw [RequestRun.report, stage]
  cases status <;> rfl

/-- What a polling caller sees is how its operation ended. -/
theorem status_ended (d : s.requests.DataInv) {n : Nat} (polls : s.requests.polling n = true) :
    (s.requests.heap.requests (s.requests.submission n).address).status = 0 ↔
      ∃ op, s.view.Ended n op .ok := by
  obtain ⟨pending, -⟩ := d.inv.polling n polls
  rw [(d.inv.inPlace n pending).status]
  simp only [BlockStore.Ended, view_accepted_get pending.1, Option.some.injEq, Prod.mk.injEq]
  cases stage : s.requests.stage n with
  | inFlight => simp [RequestStage.status, RequestStage.ended, statusValue]
  | answered status => cases status <;> simp [RequestStage.status, RequestStage.ended,
      BlockStatus.value]
  | used status => cases status <;> simp [RequestStage.status, RequestStage.ended,
      BlockStatus.value]

/-- A driver after `VirtIODevice::init`, without any request. -/
def init (queue : VirtIODevice) (availableRing : Nat → BitVec 16)
    (requests : BitVec 64 → BlockIO.Request) (storage : Storage) : TransferRun where
  requests := .init queue availableRing requests
  storage

end TransferRun

theorem RequestRun.init_dataInv (queue : VirtIODevice) (availableRing : Nat → BitVec 16)
    (requests : BitVec 64 → BlockIO.Request) : (init queue availableRing requests).DataInv where
  inv := init_inv queue availableRing requests
  counted := ⟨rfl, rfl⟩
  described n hn := absurd hn.1 (Nat.not_lt_zero n)

/-- **Block requests move their bytes.** A clean run of the driver is a run of the store: each
operation that was accepted is carried out once, when the device answers it, on the memory and the
disk as they then are, and nothing else is written. Every result is about another operation, with
its request id, and says how that ended; and a caller that polls sees the status 0 exactly when its
operation has been carried out with success. -/
theorem simulates_block_store {queue : VirtIODevice} {availableRing : Nat → BitVec 16}
    {requests : BitVec 64 → BlockIO.Request} {storage : Storage} {events : List TransferEvent}
    {s : TransferRun}
    (run : Run TransferRun.CleanStep (.init queue availableRing requests storage) events s) :
    Run BlockStore.Step { toStorage := storage, accepted := [] }
        (events.filterMap TransferEvent.action) s.view ∧
      (∃ numbers : List Nat, numbers.Nodup ∧
        List.Forall₂ (fun n result => ∃ op status, s.view.Ended n op status ∧
          result = ⟨op.requestId, if status = .ok then .ok else .failed⟩)
          numbers s.requests.results) ∧
      ∀ n, s.requests.polling n = true →
        ((s.requests.heap.requests (s.requests.submission n).address).status = 0 ↔
          ∃ op, s.view.Ended n op .ok) := by
  obtain ⟨d, refined⟩ := TransferRun.simulation.run (RequestRun.init_dataInv _ _ _) run
  exact ⟨refined, TransferRun.results_ended d, fun n polls => TransferRun.status_ended d polls⟩

/-- Two bytes are written to the second sector and read back to another place, with the interrupt
handler before the caller has seen the status. -/
def writeThenRead : List TransferEvent :=
  [.store 0x80020000 [7, 8],
    .request (.submit false 0x80010000 ⟨7, 0x80020000, 512, 512, true⟩) [],
    .request (.answer 0 .ok) [],
    .request (.submit true 0x80010100 ⟨0, 0x80030000, 512, 512, false⟩) [],
    .request (.produce 0 1) [], .request .notify [], .request (.answer 1 .ok) [],
    .request (.poll 1) []]

theorem simulates_block_store_writeThenRead :
    ∃ s : TransferRun, s.storage.memory 0x80030001 = 8 ∧
      Run BlockStore.Step { memory := fun _ => 0, disk := fun _ => 0, accepted := [] }
        (writeThenRead.filterMap TransferEvent.action) s.view := by
  let init : TransferRun := { requests := freshDriver, storage := ⟨fun _ => 0, fun _ => 0⟩ }
  let next (s : TransferRun) (e : TransferEvent) : Option TransferRun :=
    if s.Clean e then s.step 3 e else none
  have sound : ∀ s e s', next s e = some s' → s.CleanStep e s' := by
    intro s e s' h
    by_cases clean : s.Clean e
    · exact ⟨clean, 3, (if_pos clean).symm.trans h⟩
    · exact absurd ((if_neg clean).symm.trans h) (by simp)
  have ends : ((writeThenRead.foldlM next init).map fun s => s.storage.memory 0x80030001) =
      some 8 := by
    decide +kernel
  obtain ⟨s, h, byte⟩ := Option.map_eq_some_iff.1 ends
  exact ⟨s, byte, (simulates_block_store (Run.of_foldlM sound h)).1⟩

end MatteOS.Devices
