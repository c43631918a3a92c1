import MatteOS.Devices.BlockIODriver

/-!
# Submitting block requests

The part of `VirtQueue` that flows to the device. `BlockIODriver::block_operation` creates
a `BlockIO::Request`, describes it by three descriptors and publishes the first of them in
the available ring. Descriptor slots are handed out by a cursor, `m_queue_indexes`, that
goes around the descriptor table.
-/

namespace MatteOS.Devices

structure VirtQueueAvailable where
  index : BitVec 16
  ring : Nat → BitVec 16

/-- The queue in both directions, with `m_queue_indexes` of that queue. -/
structure VirtIOQueue extends VirtIODevice where
  available : VirtQueueAvailable
  queueIndex : Nat

namespace VirtQueueDescriptorFlags

def Next : BitVec 16 := 1
def Write : BitVec 16 := 2

end VirtQueueDescriptorFlags

namespace VirtIOQueue

def setDescriptor (q : VirtIOQueue) (i : Nat) (descriptor : VirtQueueDescriptor) : VirtIOQueue :=
  { q with descriptors := Function.update q.descriptors i descriptor }

/-- `VirtIODevice::get_next_queue_index`. -/
def getNextQueueIndex (q : VirtIOQueue) : Nat × VirtIOQueue :=
  let index := q.queueIndex
  (index, { q with queueIndex := (index + 1) % VIRTIO_RING_SIZE })

/-- `VirtIODevice::add_to_queue`. -/
def addToQueue (q : VirtIOQueue) (descriptor : VirtQueueDescriptor) :
    Except String (BitVec 32) × VirtIOQueue :=
  let (availableIndex, q) := q.getNextQueueIndex
  let q := q.setDescriptor availableIndex descriptor
  let q :=
    if descriptor.flags &&& VirtQueueDescriptorFlags.Next ≠ 0 then
      q.setDescriptor availableIndex { q.descriptors availableIndex with
        next := BitVec.ofNat 16 ((availableIndex + 1) % VIRTIO_RING_SIZE) }
    else q
  (.ok (BitVec.ofNat 32 availableIndex), q)

/-- `VirtIODevice::add_to_available`. -/
def addToAvailable (q : VirtIOQueue) (descriptorIndex : BitVec 32) : VirtIOQueue :=
  { q with available :=
    { index := q.available.index + 1
      ring := Function.update q.available.ring (q.available.index.toNat % VIRTIO_RING_SIZE)
        (descriptorIndex.setWidth 16) } }

/-- What the device does when it has completed a request. -/
def complete (q : VirtIOQueue) (element : VirtQueueUsedElement) : VirtIOQueue :=
  { q with toVirtIODevice := q.toVirtIODevice.complete element }

end VirtIOQueue

/-! ## Request objects -/

namespace BlockIO

structure Header where
  type : BitVec 32
  reserved : BitVec 32
  sector : BitVec 64
deriving DecidableEq

def RequestType.Read : BitVec 32 := 0
def RequestType.Write : BitVec 32 := 1

structure Request extends BlockRequest where
  header : Header
  data : BitVec 64
deriving DecidableEq

def Header.size : Nat := 16

/-- Where the status byte lies in a request, behind the header and the data pointer. -/
def Request.statusOffset : BitVec 64 := 24

end BlockIO

/-- The request objects by address. `dangling` records that an address was used or deleted
while no object was allocated there. -/
structure RequestHeap where
  requests : BitVec 64 → BlockIO.Request
  allocated : BitVec 64 → Bool
  dangling : Bool

namespace RequestHeap

/-- `new BlockIO::Request` where the allocator returns `address`. -/
def create (h : RequestHeap) (address : BitVec 64) (request : BlockIO.Request) : RequestHeap :=
  { h with
    requests := Function.update h.requests address request
    allocated := Function.update h.allocated address true }

/-- A read or write of the object at `address`. -/
def touch (h : RequestHeap) (address : BitVec 64) : RequestHeap :=
  { h with dangling := h.dangling || !h.allocated address }

def delete (h : RequestHeap) (address : BitVec 64) : RequestHeap :=
  { h with
    dangling := h.dangling || !h.allocated address
    allocated := Function.update h.allocated address false }

/-- The device answers a request by writing the byte at the address of its status. -/
def writeStatus (h : RequestHeap) (statusAddress : BitVec 64) (status : BitVec 8) : RequestHeap :=
  let address := statusAddress - BlockIO.Request.statusOffset
  { h.touch address with
    requests := Function.update h.requests address { h.requests address with status } }

end RequestHeap

/-! ## `block_operation` -/

/-- The arguments of `block_operation`. -/
structure BlockOperation where
  requestId : BitVec 64
  buffer : BitVec 64
  size : BitVec 64
  offset : BitVec 64
  isWrite : Bool
deriving DecidableEq

/-- `BlockIODriver::status_value`, `0x111` in a `u8`. -/
def statusValue : BitVec 8 := BitVec.ofNat 8 0x111

def BlockOperation.request (op : BlockOperation) : BlockIO.Request where
  status := statusValue
  requestId := op.requestId
  header :=
    { type := if op.isWrite then BlockIO.RequestType.Write else BlockIO.RequestType.Read
      reserved := 0
      sector := op.offset / 512 }
  data := op.buffer

def BlockOperation.headerDescriptor (address : BitVec 64) : VirtQueueDescriptor where
  address := address
  length := BitVec.ofNat 32 BlockIO.Header.size
  flags := VirtQueueDescriptorFlags.Next
  next := 0

def BlockOperation.bufferDescriptor (op : BlockOperation) : VirtQueueDescriptor where
  address := op.buffer
  length := op.size.setWidth 32
  flags := VirtQueueDescriptorFlags.Next |||
    (if !op.isWrite then VirtQueueDescriptorFlags.Write else 0)
  next := 0

def BlockOperation.statusDescriptor (address : BitVec 64) : VirtQueueDescriptor where
  address := address + BlockIO.Request.statusOffset
  length := 1
  flags := VirtQueueDescriptorFlags.Write
  next := 0

/-- `BlockIODriver::block_operation`, where `new` returns `address`. -/
def blockOperation (address : BitVec 64) (op : BlockOperation) (q : VirtIOQueue) (h : RequestHeap) :
    Except String (BitVec 64) × VirtIOQueue × RequestHeap :=
  if op.size % 512 ≠ 0 then
    (.error "BlockIODriver: Size must be a multiple of 512 bytes.", q, h)
  else
    let h := h.create address op.request
    let (headOrError, q) := q.addToQueue (BlockOperation.headerDescriptor address)
    let (_, q) := q.addToQueue op.bufferDescriptor
    let (_, q) := q.addToQueue (BlockOperation.statusDescriptor address)
    match headOrError with
    | .error e => (.error e, q, h.delete address)
    | .ok head => (.ok address, q.addToAvailable head, h)

/-! ## Submissions and completions -/

inductive SubmissionEvent where
  | submit (address : BitVec 64) (op : BlockOperation)
  | complete (number : Nat) (length : BitVec 32)
deriving DecidableEq

/-- The queue with the submissions that went through, counted, and those of them, by number and
head, that the device has not completed. -/
structure SubmissionRun where
  queue : VirtIOQueue
  heap : RequestHeap
  submitted : Nat
  inFlight : List (Nat × Nat)

def SubmissionRun.step (s : SubmissionRun) : SubmissionEvent → SubmissionRun
  | .submit address op =>
    match blockOperation address op s.queue s.heap with
    | (.error _, queue, heap) => { s with queue, heap }
    | (.ok _, queue, heap) =>
      { queue, heap
        submitted := s.submitted + 1
        inFlight := s.inFlight ++ [(s.submitted, s.queue.queueIndex)] }
  | .complete number length =>
    match s.inFlight.find? (·.1 = number) with
    | none => s
    | some (number, head) =>
      { s with
        queue := s.queue.complete ⟨BitVec.ofNat 32 head, length⟩
        inFlight := s.inFlight.erase (number, head) }

/-- A driver after `VirtIODevice::init`. -/
def SubmissionRun.init (descriptors : Nat → VirtQueueDescriptor)
    (usedRing : Nat → VirtQueueUsedElement) (availableRing : Nat → BitVec 16) (heap : RequestHeap) :
    SubmissionRun where
  queue :=
    { descriptors, used := { index := 0, ring := usedRing }, queueAck := 0
      available := { index := 0, ring := availableRing }, queueIndex := 0 }
  heap := heap
  submitted := 0
  inFlight := []

end MatteOS.Devices
