import MatteOS.Devices.PolledCalls
import MatteOS.Devices.Verify.BlockTransfers
import MatteOS.FileSystem.BlockBackedFileSystem

/-!
# Calls that poll are atomic

While the interrupt handler does not run, nothing gives a descriptor or an object back, and the
rings go around over requests that the device has answered. Each call of `read_poll` and
`write_poll` still moves its bytes and no others before it returns, however many calls there are
(`polled_calls_atomic`). To a file system that only reads, the driver is the block device of its
model (`reads_are_readPoll`).
-/

namespace MatteOS.Devices

open ByteMemory Transition VirtIOQueue

/-- What a call does to the memory and the disk: all of it, or nothing if the size is no multiple
of 512, or what a failing device makes of it. -/
inductive PolledCall.Performs (call : PolledCall) (store : Storage) :
    Except String Unit → Storage → Prop where
  | invalid (size : call.size % 512 ≠ 0) :
      Performs call store (.error "BlockIODriver: Size must be a multiple of 512 bytes.") store
  | done (size : call.size % 512 = 0) :
      Performs call store (.ok ()) (store.perform call.operation .ok [])
  | failed (size : call.size % 512 = 0) {status : BlockStatus} (failed : status ≠ .ok)
      (moved : List (BitVec 8)) :
      Performs call store (.error call.failure) (store.perform call.operation status moved)

/-- What goes well does not depend on what a failing device would have moved. -/
theorem Storage.perform_ok (store : Storage) (op : BlockOperation) (moved : List (BitVec 8)) :
    store.perform op .ok moved = store.perform op .ok [] := by
  unfold Storage.perform
  cases op.isWrite <;> rfl

namespace RequestRun

variable {s s' : RequestRun} {n : Nat}

/-- A request that is submitted has its object and its descriptors in place. -/
theorem submit_inPlace {polled : Bool} {address : BitVec 64} {op : BlockOperation}
    (cursor : s.queue.queueIndex = 3 * s.submitted % 128) (valid : op.size % 512 = 0)
    (run : s.submit polled address op = some s') : s'.InPlace s.submitted := by
  obtain ⟨-, q, descriptors, -, -, -, rfl⟩ := submit_valid valid run
  obtain ⟨header, buffer, tail, answer⟩ := publish_here s.queue address (op.calledBy polled)
  have second : (3 * s.submitted % 128 + 1) % 128 = (3 * s.submitted + 1) % 128 := by omega
  have third : (3 * s.submitted % 128 + 2) % 128 = (3 * s.submitted + 2) % 128 := by omega
  rw [← descriptors, cursor] at header buffer tail answer
  rw [second] at buffer tail
  rw [third] at tail answer
  constructor <;> simp only [Function.update_self, RequestHeap.create]
  · exact cursor
  · rfl
  · rfl
  · exact header
  · exact buffer
  · exact tail
  · exact answer

theorem InPlace.answered {status : BlockStatus} (place : s.InPlace n)
    (run : s.answer n status = some s') : s'.InPlace n := by
  obtain ⟨-, -, rfl⟩ := answer_eq place run
  refine place.frame rfl rfl rfl ?_ ?_ fun _ _ => rfl
  · simp only [Function.update_self]
  · simp only [Function.update_self]
    rfl

theorem InPlace.produced {m : Nat} {length : BitVec 32} (place : s.InPlace n)
    (run : s.produce m length = some s') : s'.InPlace n := by
  obtain ⟨status, -, stage, rfl⟩ := produce_eq run
  refine place.frame rfl rfl rfl rfl ?_ fun _ _ => rfl
  by_cases same : n = m
  · subst same
    rw [place.status, stage]
    simp only [Function.update_self]
    rfl
  · simp only [Function.update_of_ne same]
    exact place.status

end RequestRun

/-! ## Between two calls -/

/-- The device has answered every request and nobody polls. -/
structure TransferRun.Quiet (s : TransferRun) : Prop where
  counted : s.requests.queue.Counted s.requests.submitted
  answered : ∀ n < s.requests.submitted, s.requests.stage n ≠ .inFlight
  polling : ∀ n, s.requests.polling n = false

/-- The storage while request `n` is polled for, from what it was when `op` was submitted. -/
def TransferRun.Carried (before : Storage) (op : BlockOperation) (n : Nat) (s : TransferRun) : Prop :=
  match (s.requests.stage n).ended with
  | none => s.storage = before
  | some status => ∃ moved, s.storage = before.perform op status moved

/-- The last request, number `n`, is polled for, and the device has answered the others. -/
structure TransferRun.Waiting (before : Storage) (address : BitVec 64) (op : BlockOperation)
    (n : Nat) (s : TransferRun) : Prop where
  submitted : s.requests.submitted = n + 1
  counted : s.requests.queue.Counted (n + 1)
  answered : ∀ m < n, s.requests.stage m ≠ .inFlight
  polling : ∀ m, s.requests.polling m = true ↔ m = n
  address : (s.requests.submission n).address = address
  operation : (s.requests.submission n).operation = op
  place : s.requests.InPlace n
  described : s.requests.Described n
  carried : s.Carried before op n

namespace TransferRun

variable {s s' : TransferRun} {before : Storage} {address : BitVec 64} {op : BlockOperation} {n : Nat}

theorem Quiet.submit {call : PolledCall} (quiet : s.Quiet) (valid : call.size % 512 = 0)
    (run : s.step 0 (.request (.submit true call.address call.operation) []) = some s') :
    s'.Waiting s.storage call.address call.operation s.requests.submitted := by
  obtain ⟨requests, ran, rfl⟩ := Option.map_eq_some_iff.1 run
  obtain ⟨submitted, counted⟩ := RequestRun.submit_counted quiet.counted valid ran
  have place := RequestRun.submit_inPlace quiet.counted.cursor valid ran
  have described := RequestRun.submit_described quiet.counted valid ran
  obtain ⟨-, q, -, -, -, -, rfl⟩ := RequestRun.submit_valid valid ran
  refine ⟨submitted, counted, fun m hm => ?_, fun m => ?_, ?_, ?_, place, described, ?_⟩
  · show Function.update s.requests.stage _ _ m ≠ _
    rw [Function.update_of_ne (Nat.ne_of_lt hm)]
    exact quiet.answered m hm
  · show Function.update s.requests.polling _ _ m = true ↔ _
    by_cases same : m = s.requests.submitted
    · simp [same]
    · simp [quiet.polling, same]
  · simp only [Function.update_self]
  · simp only [Function.update_self]
    rfl
  · simp only [Carried, Function.update_self, RequestStage.ended]
    rfl

theorem Waiting.answer {m : Nat} {status : BlockStatus} {moved : List (BitVec 8)}
    (w : s.Waiting before address op n)
    (run : s.step 0 (.request (.answer m status) moved) = some s') :
    s'.Waiting before address op n ∧ m = n ∧ s'.requests.stage n = .answered status ∧
      s'.storage = before.perform op status moved := by
  obtain ⟨requests, ran, rfl⟩ := Option.map_eq_some_iff.1 run
  have h : m < s.requests.submitted ∧ s.requests.stage m = .inFlight := by
    by_contra h
    have stuck : s.requests.answer m status = none := if_neg h
    rw [show s.requests.step 0 (.answer m status) = none from stuck] at ran
    cases ran
  -- only the last request is in flight
  have same : m = n := by
    by_contra ne
    have lt : m < n := by
      have := w.submitted
      omega
    exact w.answered m lt h.2
  subst same
  have start : s.storage = before := by
    have := w.carried
    simp only [Carried, h.2, RequestStage.ended] at this
    exact this
  have place := w.place.answered ran
  have described := w.described.answer w.place ran
  have carried : s.transferred moved (.answer m status) = before.perform op status moved := by
    simp only [transferred, w.described.fetch w.place, w.operation, start]
    exact Storage.transfer_operation _ _ _ _ _
  obtain ⟨-, -, rfl⟩ := RequestRun.answer_eq w.place ran
  refine ⟨⟨w.submitted, w.counted, fun k hk => ?_, w.polling, w.address, w.operation, place,
    described, ?_⟩, rfl, ?_, carried⟩
  · show Function.update s.requests.stage m _ k ≠ _
    rw [Function.update_of_ne (Nat.ne_of_lt hk)]
    exact w.answered k hk
  · simp only [Carried, Function.update_self, RequestStage.ended]
    exact ⟨moved, carried⟩
  · simp only [Function.update_self]

theorem Waiting.produce {m : Nat} {length : BitVec 32} {moved : List (BitVec 8)}
    (w : s.Waiting before address op n)
    (run : s.step 0 (.request (.produce m length) moved) = some s') :
    s'.Waiting before address op n := by
  obtain ⟨requests, ran, rfl⟩ := Option.map_eq_some_iff.1 run
  have place := w.place.produced ran
  obtain ⟨status, -, stage, rfl⟩ := RequestRun.produce_eq ran
  refine ⟨w.submitted, ⟨w.counted.cursor, w.counted.index⟩, fun k hk => ?_, w.polling, w.address,
    w.operation, place, w.described.frame rfl rfl rfl rfl, ?_⟩
  · show Function.update s.requests.stage m _ k ≠ _
    by_cases same : k = m
    · simp [same]
    · rw [Function.update_of_ne same]
      exact w.answered k hk
  · have was := w.carried
    simp only [Carried] at was ⊢
    by_cases same : n = m
    · subst same
      rw [stage] at was
      simp only [Function.update_self]
      exact was
    · simp only [Function.update_of_ne same]
      exact was

/-- A look before the device has answered changes nothing; a look after it ends the wait. -/
theorem Waiting.poll (w : s.Waiting before address op n) (moved : List (BitVec 8)) :
    ∃ s', s.step 0 (.request (.poll n) moved) = some s' ∧ s'.storage = s.storage ∧
      (s'.requests.polling n = true → s' = s) ∧
      (s'.requests.polling n = false → s'.Quiet) ∧
      (s'.requests.polling n = true ↔ s.requests.stage n = .inFlight) := by
  have polls : s.requests.polling n = true := (w.polling n).2 rfl
  have others (m : Nat) : Function.update s.requests.polling n false m = false := by
    by_cases same : m = n
    · rw [same, Function.update_self]
    · rw [Function.update_of_ne same, ← Bool.not_eq_true, w.polling]
      exact same
  have touch := RequestRun.RequestHeap.touch_eq w.place.allocated
  have status := w.place.status
  have unanswered : (s.requests.stage n).status = statusValue ↔ s.requests.stage n = .inFlight := by
    cases s.requests.stage n with
    | inFlight => simp [RequestStage.status]
    | answered status => cases status <;> simp [RequestStage.status, BlockStatus.value, statusValue]
    | used status => cases status <;> simp [RequestStage.status, BlockStatus.value, statusValue]
  simp only [step, RequestRun.step, RequestRun.poll, polls, if_true, touch, status, unanswered]
  by_cases flight : s.requests.stage n = .inFlight
  · rw [if_pos flight]
    refine ⟨s, rfl, rfl, fun _ => rfl, fun stop => ?_, fun _ => flight, fun _ => polls⟩
    rw [polls] at stop
    cases stop
  · rw [if_neg flight]
    have ends : ∀ m < n + 1, s.requests.stage m ≠ .inFlight := by
      intro m hm
      by_cases same : m = n
      · rwa [same]
      · exact w.answered m (by omega)
    rw [← w.submitted] at ends
    split
    · refine ⟨_, rfl, rfl, fun more => ?_, fun _ => ⟨?_, ends, others⟩, fun more => ?_,
        fun flight' => absurd flight' flight⟩
      · simp at more
      · exact w.submitted ▸ w.counted
      · simp at more
    · refine ⟨_, rfl, rfl, fun more => ?_, fun _ => ⟨?_, ends, others⟩, fun more => ?_,
        fun flight' => absurd flight' flight⟩
      · simp at more
      · exact w.submitted ▸ w.counted
      · simp at more

theorem Waiting.waits {e : TransferEvent} (w : s.Waiting before address op n)
    (step : PolledCall.Waits n s e s') : s'.Waiting before address op n := by
  obtain ⟨run, kind⟩ := step
  cases e with
  | request event moved =>
    cases event with
    | answer m status => exact (w.answer run).1
    | produce m length => exact w.produce run
    | poll m =>
      obtain ⟨rfl, still⟩ := kind
      obtain ⟨s'', run', -, unchanged, -⟩ := w.poll moved
      rw [run] at run'
      obtain rfl := Option.some.inj run'
      rw [unchanged still]
      exact w
    | submit polled address op => exact kind.elim
    | notify => exact kind.elim
  | store address bytes => exact kind.elim

end TransferRun

/-! ## Calls -/

/-- **One call.** Between quiet states a call that returns has done what it is for. -/
theorem PolledCall.Returns.performs {call : PolledCall} {s s' : TransferRun}
    {result : Except String Unit} (returns : call.Returns s result s') (quiet : s.Quiet) :
    s'.Quiet ∧ call.Performs s.storage result s'.storage := by
  cases returns with
  | invalid size => exact ⟨quiet, .invalid size⟩
  | @polled s₁ s₂ _ events size submit wait look done =>
    have w : s₂.Waiting s.storage call.address call.operation s.requests.submitted :=
      wait.invariant (fun _ _ _ w step => w.waits step) (quiet.submit size submit)
    obtain ⟨s₃, look', storage, -, stops, still⟩ := w.poll []
    rw [look] at look'
    obtain rfl := Option.some.inj look'
    refine ⟨stops done, ?_⟩
    have answered : s₂.requests.stage s.requests.submitted ≠ .inFlight := by
      intro flight
      rw [still.2 flight] at done
      cases done
    have carried := w.carried
    rw [storage, ← w.address, w.place.status]
    -- the status that ended the wait is the one the device answered with
    have ended (status : BlockStatus)
        (h : (s₂.requests.stage s.requests.submitted).ended = some status)
        (byte : (s₂.requests.stage s.requests.submitted).status = status.value) :
        call.Performs s.storage
          (if (s₂.requests.stage s.requests.submitted).status = 0 then .ok ()
            else .error call.failure) s₂.storage := by
      simp only [TransferRun.Carried, h] at carried
      obtain ⟨moved, carried⟩ := carried
      rw [byte, carried]
      cases status with
      | ok =>
        rw [Storage.perform_ok]
        exact .done size
      | ioErr => exact .failed size (by decide) moved
      | unsupp => exact .failed size (by decide) moved
    cases stage : s₂.requests.stage s.requests.submitted with
    | inFlight => exact absurd stage answered
    | answered status =>
      rw [stage] at ended
      exact ended status rfl rfl
    | used status =>
      rw [stage] at ended
      exact ended status rfl rfl

/-- What the status of the device makes of a call. -/
def PolledCall.result (call : PolledCall) (status : BlockStatus) : Except String Unit :=
  if status = .ok then .ok () else .error call.failure

/-- A call returns as soon as it looks at what the device has answered. -/
theorem PolledCall.returns {call : PolledCall} {s : TransferRun} (quiet : s.Quiet)
    (valid : call.size % 512 = 0) (free : s.requests.heap.allocated call.address = false)
    (status : BlockStatus) (moved : List (BitVec 8)) :
    ∃ s', call.Returns s (call.result status) s' ∧
      s'.storage = s.storage.perform call.operation status moved := by
  obtain ⟨s₁, submit⟩ :
      ∃ s₁, s.step 0 (.request (.submit true call.address call.operation) []) = some s₁ := by
    obtain ⟨q, run, -⟩ := @blockOperation_valid call.address (call.operation.calledBy true)
      s.requests.queue s.requests.heap valid
    simp [TransferRun.step, RequestRun.step, RequestRun.submit, free, run]
  have w := quiet.submit valid submit
  have flight : s₁.requests.stage s.requests.submitted = .inFlight := by
    obtain ⟨requests, ran, rfl⟩ := Option.map_eq_some_iff.1 submit
    obtain ⟨-, q, -, -, -, -, rfl⟩ := RequestRun.submit_valid valid ran
    simp only [Function.update_self]
  obtain ⟨s₂, answer⟩ :
      ∃ s₂, s₁.step 0 (.request (.answer s.requests.submitted status) moved) = some s₂ := by
    simp [TransferRun.step, RequestRun.step, RequestRun.answer, w.submitted, flight]
  obtain ⟨w', -, stage, carried⟩ := w.answer answer
  obtain ⟨s', look, storage, -, -, still⟩ := w'.poll []
  have done : s'.requests.polling s.requests.submitted = false := by
    rw [← Bool.not_eq_true, still, stage]
    exact RequestStage.noConfusion
  have byte : (s₂.requests.heap.requests call.address).status = status.value := by
    rw [← w'.address, w'.place.status, stage]
    rfl
  have wait : Run (Waits s.requests.submitted) s₁
      [.request (.answer s.requests.submitted status) moved] s₂ :=
    .cons ⟨answer, trivial⟩ (.nil _)
  refine ⟨s', ?_, storage.trans carried⟩
  have returns := Returns.polled valid submit wait look done
  rw [byte] at returns
  cases status <;> exact returns

/-- The calls that return, as the callers see them. -/
def PolledEvent.returned : PolledEvent → Option (PolledCall × Except String Unit)
  | .returns call result => some (call, result)
  | .produce _ _ => none

/-- The calls as steps of the storage. -/
def Storage.CallStep (store : Storage) (returned : PolledCall × Except String Unit)
    (store' : Storage) : Prop :=
  returned.1.Performs store returned.2 store'

theorem polledCalls_simulation : Simulation PolledEvent.Step TransferRun.Quiet TransferRun.storage
    PolledEvent.returned Storage.CallStep where
  kept := by
    intro s e s' quiet step
    cases e with
    | returns call result => exact (PolledCall.Returns.performs step quiet).1
    | produce n length =>
      obtain ⟨requests, ran, rfl⟩ := Option.map_eq_some_iff.1 step
      obtain ⟨status, -, stage, rfl⟩ := RequestRun.produce_eq ran
      refine ⟨⟨quiet.counted.cursor, quiet.counted.index⟩, fun m hm => ?_, quiet.polling⟩
      show Function.update s.requests.stage n _ m ≠ _
      by_cases same : m = n
      · simp [same]
      · rw [Function.update_of_ne same]
        exact quiet.answered m hm
  visible := by
    intro s e s' returned quiet step label
    cases e with
    | returns call result =>
      rw [← Option.some.inj label]
      exact (PolledCall.Returns.performs step quiet).2
    | produce n length => cases label
  silent := by
    intro s e s' quiet step label
    cases e with
    | returns call result => cases label
    | produce n length =>
      obtain ⟨requests, ran, rfl⟩ := Option.map_eq_some_iff.1 step
      rfl

theorem TransferRun.init_quiet (queue : VirtIODevice) (availableRing : Nat → BitVec 16)
    (requests : BitVec 64 → BlockIO.Request) (storage : Storage) :
    (init queue availableRing requests storage).Quiet where
  counted := ⟨rfl, rfl⟩
  answered n hn := absurd hn (Nat.not_lt_zero n)
  polling _ := rfl

/-- **Polled calls are atomic.** While `notify` does not run, the calls of `read_poll` and
`write_poll` that return are, in their order, whole operations on the memory and the disk, whatever
the device does between two looks. A valid call can return from every state that is reached, with
each status that the device may answer with. -/
theorem polled_calls_atomic {queue : VirtIODevice} {availableRing : Nat → BitVec 16}
    {requests : BitVec 64 → BlockIO.Request} {storage : Storage} {events : List PolledEvent}
    {s : TransferRun}
    (run : Run PolledEvent.Step (.init queue availableRing requests storage) events s) :
    Run Storage.CallStep storage (events.filterMap PolledEvent.returned) s.storage ∧
      ∀ call : PolledCall, call.size % 512 = 0 → s.requests.heap.allocated call.address = false →
        ∀ status moved, ∃ s', call.Returns s (call.result status) s' ∧
          s'.storage = s.storage.perform call.operation status moved := by
  obtain ⟨quiet, calls⟩ := polledCalls_simulation.run (TransferRun.init_quiet _ _ _ _) run
  exact ⟨calls, fun call valid free status moved => call.returns quiet valid free status moved⟩

/-- The polled read of a sector on a driver that has made no request. -/
theorem polled_calls_atomic_first :
    ∃ s, Run Storage.CallStep ⟨fun _ => 0, fun _ => 7⟩
        [(⟨false, 0x80020000, 512, 0, 0x80010000⟩, .ok ())] s ∧ s.memory 0x80020000 = 7 := by
  let init : TransferRun := { requests := freshDriver, storage := ⟨fun _ => 0, fun _ => 7⟩ }
  let call : PolledCall := ⟨false, 0x80020000, 512, 0, 0x80010000⟩
  have start := (polled_calls_atomic (s := init) (.nil _)).2
  obtain ⟨s, returns, storage⟩ := start call (by decide) rfl .ok []
  have run : Run PolledEvent.Step init [.returns call (.ok ())] s := .cons returns (.nil _)
  refine ⟨s.storage, (polled_calls_atomic run).1, ?_⟩
  rw [storage]
  decide +kernel

/-! ## The block device of a file system -/

/-- The calls as the block device of a file system serves them, the next of which has a number. -/
def PolledCall.ServedBy (device : FileSystem.BlockDevice) (before : Nat × Storage)
    (returned : PolledCall × Except String Unit) (after : Nat × Storage) : Prop :=
  let (call, result) := returned
  after.1 = before.1 + 1 ∧ after.2.disk = before.2.disk ∧
    (∀ x, x < call.buffer.toNat ∨ call.buffer.toNat + call.size.toNat ≤ x →
      after.2.memory x = before.2.memory x) ∧
    match device.readPoll call.size.toNat call.offset.toNat before.1 with
    | .error error => result = .error error
    | .ok bytes => result = .ok () ∧
      after.2.memory = storeBytes before.2.memory call.buffer.toNat bytes

/-- The error of a call that has one. -/
def PolledCall.error? : PolledCall × Except String Unit → Option String
  | (_, .error error) => some error
  | (_, .ok _) => none

/-- A block device on which the calls go as they went. -/
def readDevice (disk : Memory) (calls : List (PolledCall × Except String Unit)) :
    FileSystem.BlockDevice where
  image := disk
  failure n := calls[n]?.bind PolledCall.error?

section

variable {call : PolledCall} {store store' : Storage} {result : Except String Unit}

/-- A read that is performed is one that the block device serves. -/
theorem PolledCall.Performs.serves (performs : call.Performs store result store')
    (read : call.isWrite = false) (small : call.size.toNat < 2 ^ 32) {device : FileSystem.BlockDevice}
    (image : device.image = store.disk) {n : Nat}
    (failure : device.failure n = PolledCall.error? (call, result)) :
    PolledCall.ServedBy device (n, store) (call, result) (n + 1, store') := by
  have whole : call.size % 512 = 0 ↔ call.size.toNat % FileSystem.SECTOR_SIZE = 0 := by
    rw [← BitVec.toNat_inj, BitVec.toNat_umod]
    rfl
  have extent : call.operation.extent = call.size.toNat := Nat.mod_eq_of_lt small
  have unwritten (status : BlockStatus) (moved : List (BitVec 8)) :
      store.perform call.operation status moved = { store with
        memory := storeBytes store.memory call.buffer.toNat
          (if status = .ok then loadBytes store.disk call.operation.start call.size.toNat
            else moved.take call.size.toNat) } := by
    simp only [Storage.perform, PolledCall.operation, read, Bool.false_eq_true, if_false] at extent ⊢
    rw [extent]
  have outside (bytes : List (BitVec 8)) (short : bytes.length ≤ call.size.toNat) (x : Nat)
      (hx : x < call.buffer.toNat ∨ call.buffer.toNat + call.size.toNat ≤ x) :
      storeBytes store.memory call.buffer.toNat bytes x = store.memory x :=
    storeBytes_apply_of_outside _ fun i hi => by omega
  cases performs with
  | invalid size =>
    refine ⟨rfl, rfl, fun _ _ => rfl, ?_⟩
    rw [FileSystem.BlockDevice.readPoll, if_pos (mt whole.2 size)]
  | done size =>
    rw [unwritten]
    refine ⟨rfl, rfl, outside _ (by simp), ?_⟩
    rw [FileSystem.BlockDevice.readPoll, if_neg (not_not.2 (whole.1 size)), failure]
    have start : call.operation.start =
        call.offset.toNat / FileSystem.SECTOR_SIZE * FileSystem.SECTOR_SIZE := by
      simp only [BlockOperation.start, PolledCall.operation, BitVec.toNat_udiv]
      rfl
    have delivered : loadBytes store.disk call.operation.start call.size.toNat =
        device.bytes call.size.toNat call.offset.toNat := by
      rw [start, ← image]
      rfl
    exact ⟨rfl, by rw [if_pos rfl, delivered]⟩
  | @failed size status ioErr moved =>
    rw [unwritten, if_neg ioErr]
    refine ⟨rfl, rfl, outside _ (List.length_take_le _ _), ?_⟩
    rw [FileSystem.BlockDevice.readPoll, if_neg (not_not.2 (whole.1 size)), failure]
    rfl

/-- Reads in a row are those that a block device serves. -/
theorem Storage.serves_of_run {calls : List (PolledCall × Except String Unit)}
    (run : Run Storage.CallStep store calls store')
    (reads : ∀ c ∈ calls, c.1.isWrite = false ∧ c.1.size.toNat < 2 ^ 32)
    {device : FileSystem.BlockDevice} (image : device.image = store.disk) {n : Nat}
    (failure : ∀ i < calls.length, device.failure (n + i) = calls[i]?.bind PolledCall.error?) :
    Run (PolledCall.ServedBy device) (n, store) calls (n + calls.length, store') := by
  induction run generalizing n with
  | nil store => exact .nil _
  | @cons store next store' c cs head tail ih =>
    obtain ⟨call, result⟩ := c
    obtain ⟨read, small⟩ := reads (call, result) List.mem_cons_self
    have now : device.failure n = PolledCall.error? (call, result) := by
      simpa using failure 0 (by simp)
    have served := PolledCall.Performs.serves head read small image now
    have rest := ih (n := n + 1) (fun c hc => reads c (List.mem_cons_of_mem _ hc))
      (image.trans served.2.1.symm) fun i hi => by
        have := failure (i + 1) (by rw [List.length_cons]; omega)
        rw [List.getElem?_cons_succ] at this
        rw [← this]
        exact congrArg _ (by omega)
    refine .cons served ?_
    rw [List.length_cons, show n + (cs.length + 1) = n + 1 + cs.length by omega]
    exact rest

end

/-- **The driver is the block device of a file system.** Calls of `read_poll` for less than 4 GiB
each go as the reads of one block device, whose bytes are those of the disk from the sector of the
offset on: the buffer gets what it delivers, a call that fails has its error, and nothing outside of
the buffers changes. -/
theorem reads_are_readPoll {queue : VirtIODevice} {availableRing : Nat → BitVec 16}
    {requests : BitVec 64 → BlockIO.Request} {storage : Storage} {events : List PolledEvent}
    {s : TransferRun}
    (run : Run PolledEvent.Step (.init queue availableRing requests storage) events s)
    (reads : ∀ c ∈ events.filterMap PolledEvent.returned,
      c.1.isWrite = false ∧ c.1.size.toNat < 2 ^ 32) :
    ∃ device : FileSystem.BlockDevice, device.image = storage.disk ∧
      Run (PolledCall.ServedBy device) (0, storage)
        (events.filterMap PolledEvent.returned)
        ((events.filterMap PolledEvent.returned).length, s.storage) := by
  obtain ⟨-, calls⟩ := polledCalls_simulation.run (TransferRun.init_quiet _ _ _ _) run
  refine ⟨readDevice storage.disk (events.filterMap PolledEvent.returned), rfl, ?_⟩
  have image : (readDevice storage.disk (events.filterMap PolledEvent.returned)).image =
      storage.disk := rfl
  have served := Storage.serves_of_run calls reads image (n := 0) fun i _ => by rw [Nat.zero_add]; rfl
  rw [Nat.zero_add] at served
  exact served

theorem reads_are_readPoll_first :
    ∃ s, ∃ device : FileSystem.BlockDevice, device.image = (fun _ => 7) ∧
      Run (PolledCall.ServedBy device) (0, ⟨fun _ => 0, fun _ => 7⟩)
        [(⟨false, 0x80020000, 512, 0, 0x80010000⟩, .ok ())] (1, s) := by
  let init : TransferRun := { requests := freshDriver, storage := ⟨fun _ => 0, fun _ => 7⟩ }
  let call : PolledCall := ⟨false, 0x80020000, 512, 0, 0x80010000⟩
  have quiet : init.Quiet := TransferRun.init_quiet _ _ _ _
  obtain ⟨s, returns, -⟩ := call.returns quiet (by decide) rfl .ok []
  have run : Run PolledEvent.Step init [.returns call (.ok ())] s := .cons returns (.nil _)
  refine ⟨s.storage, reads_are_readPoll run fun c hc => ?_⟩
  obtain rfl := List.mem_singleton.1 hc
  exact ⟨rfl, by decide⟩

end MatteOS.Devices
