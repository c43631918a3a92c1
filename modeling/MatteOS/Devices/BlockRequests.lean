import MatteOS.Devices.BlockOperation

/-!
# Block requests between their callers, the device and the interrupt handler

Operations are submitted by callers that poll for the status (`read_poll`, `write_poll`)
and by callers that do not (`read_async`, `write_async`). The device answers a request
by writing its status and then produces a used element. `notify` may be called from the
interrupt handler between any two of these steps.
-/

namespace MatteOS.Devices

/-- The statuses a device answers with, `VIRTIO_BLK_S_OK` and so on. -/
inductive BlockStatus where
  | ok
  | ioErr
  | unsupp
deriving DecidableEq

def BlockStatus.value : BlockStatus → BitVec 8
  | .ok => 0
  | .ioErr => 1
  | .unsupp => 2

/-- How far the device has come with a request. -/
inductive RequestStage where
  | inFlight
  | answered (status : BlockStatus)
  | used (status : BlockStatus)
deriving DecidableEq

/-- A request that was submitted: where its object and its descriptors are, and what for. -/
structure Submission where
  address : BitVec 64
  head : Nat
  operation : BlockOperation
  polled : Bool
deriving DecidableEq

inductive RequestEvent where
  | submit (polled : Bool) (address : BitVec 64) (op : BlockOperation)
  | answer (number : Nat) (status : BlockStatus)
  | produce (number : Nat) (length : BitVec 32)
  | poll (number : Nat)
  | notify
deriving DecidableEq

/-- The driver and the device, with the history of the requests by number of submission: `polling`
are those a caller waits for, `produced` those with a used element, the first `consumed` of which
`notify` has taken; `owner` is the request whose object was last created at an address, and `deleted`
the requests whose objects were deleted, in order. -/
structure RequestRun where
  queue : VirtIOQueue
  heap : RequestHeap
  ignoredRequests : List (BitVec 64)
  submitted : Nat
  submission : Nat → Submission
  polling : Nat → Bool
  stage : Nat → RequestStage
  produced : List Nat
  consumed : Nat
  owner : BitVec 64 → Nat
  deleted : List Nat
  results : List BlockDeviceAsyncResult

/-- `read_poll` and `write_poll` call `block_operation` with the request id 0. -/
def BlockOperation.calledBy (op : BlockOperation) (polled : Bool) : BlockOperation :=
  if polled then { op with requestId := 0 } else op

/-- The status byte the device finds by following the descriptors of a request. -/
def VirtIOQueue.statusAddress (q : VirtIOQueue) (head : Nat) : BitVec 64 :=
  let buffer := q.descriptors (q.descriptors head).next.toNat
  (q.descriptors buffer.next.toNat).address

namespace RequestRun

/-- `block_operation`, called where the allocator has a free address. -/
def submit (s : RequestRun) (polled : Bool) (address : BitVec 64) (op : BlockOperation) :
    Option RequestRun :=
  if s.heap.allocated address then none
  else
    let op := op.calledBy polled
    match blockOperation address op s.queue s.heap with
    | (.error _, queue, heap) => some { s with queue, heap }
    | (.ok request, queue, heap) => some { s with
        queue, heap
        submitted := s.submitted + 1
        submission := Function.update s.submission s.submitted
          { address := request, head := s.queue.queueIndex, operation := op, polled }
        polling := Function.update s.polling s.submitted polled
        stage := Function.update s.stage s.submitted .inFlight
        owner := Function.update s.owner request s.submitted }

def answer (s : RequestRun) (number : Nat) (status : BlockStatus) : Option RequestRun :=
  if number < s.submitted ∧ s.stage number = .inFlight then
    some { s with
      heap := s.heap.writeStatus (s.queue.statusAddress (s.submission number).head) status.value
      stage := Function.update s.stage number (.answered status) }
  else none

def produce (s : RequestRun) (number : Nat) (length : BitVec 32) : Option RequestRun :=
  if number < s.submitted then
    match s.stage number with
    | .answered status => some { s with
        queue := s.queue.complete ⟨BitVec.ofNat 32 (s.submission number).head, length⟩
        stage := Function.update s.stage number (.used status)
        produced := s.produced ++ [number] }
    | _ => none
  else none

/-- One round of the loop of `read_poll` and `write_poll`. -/
def poll (s : RequestRun) (number : Nat) : Option RequestRun :=
  if s.polling number then
    let request := (s.submission number).address
    let heap := s.heap.touch request
    let status := (heap.requests request).status
    if status = statusValue then some { s with heap }
    else if status = 0 then
      some { s with
        heap
        ignoredRequests := s.ignoredRequests ++ [request]
        polling := Function.update s.polling number false }
    else
      some { s with
        heap := heap.delete request
        polling := Function.update s.polling number false
        deleted := s.deleted ++ [s.owner request] }
  else none

/-- The driver as `notify` finds it. -/
def driver (s : RequestRun) : BlockIODriver where
  device := s.queue.toVirtIODevice
  ignoredRequests := s.ignoredRequests
  deleted := []
  results := []

def notify (s : RequestRun) (fuel : Nat) : Option RequestRun :=
  (s.driver.notify fuel fun a => (s.heap.requests a).toBlockRequest).map fun b =>
    { s with
      queue := { s.queue with toVirtIODevice := b.device }
      heap := b.deleted.foldl RequestHeap.delete s.heap
      ignoredRequests := b.ignoredRequests
      consumed := s.consumed + b.deleted.length
      deleted := s.deleted ++ b.deleted.map s.owner
      results := s.results ++ b.results }

/-- One step, if it can be made; `notify` may need more fuel. -/
def step (fuel : Nat) (s : RequestRun) : RequestEvent → Option RequestRun
  | .submit polled address op => s.submit polled address op
  | .answer number status => s.answer number status
  | .produce number length => s.produce number length
  | .poll number => s.poll number
  | .notify => s.notify fuel

def Step (s : RequestRun) (e : RequestEvent) (s' : RequestRun) : Prop :=
  ∃ fuel, s.step fuel e = some s'

/-- A driver after `VirtIODevice::init`, without any request. -/
def init (queue : VirtIODevice) (availableRing : Nat → BitVec 16)
    (requests : BitVec 64 → BlockIO.Request) : RequestRun where
  queue :=
    { descriptors := queue.descriptors, used := { index := 0, ring := queue.used.ring }
      queueAck := 0, available := { index := 0, ring := availableRing }, queueIndex := 0 }
  heap := { requests, allocated := fun _ => false, dangling := false }
  ignoredRequests := []
  submitted := 0
  submission := fun _ =>
    { address := 0, head := 0, operation := ⟨0, 0, 0, 0, false⟩, polled := false }
  polling := fun _ => false
  stage := fun _ => .inFlight
  produced := []
  consumed := 0
  owner := fun _ => 0
  deleted := []
  results := []

end RequestRun

end MatteOS.Devices
