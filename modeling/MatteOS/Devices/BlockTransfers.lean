import MatteOS.Devices.BlockRequests
import MatteOS.Lib.ByteMemory

/-!
# The bytes that block requests move

A request names a buffer and a sector; the device moves the bytes. It takes the head of the
request from the available ring, reads the header of the object the first descriptor points to
and moves between the disk and the memory the second descriptor points to. The buffers lie
apart from the queue and from the request objects.
-/

namespace MatteOS.Devices

open ByteMemory

/-- The main memory and the disk. -/
structure Storage where
  memory : Memory
  disk : Memory

/-- What a device reads of a request. -/
structure FetchedRequest where
  header : BlockIO.Header
  data : VirtQueueDescriptor
deriving DecidableEq

/-- A request that goes well moves the bytes of its data descriptor; one that fails may have left
`moved` in the place of them. The device writes where the flags of the descriptor allow it, and
reads where they do not. -/
def Storage.transfer (store : Storage) (request : FetchedRequest) (status : BlockStatus)
    (moved : List (BitVec 8)) : Storage :=
  let sector := request.header.sector.toNat * 512
  let address := request.data.address.toNat
  let length := request.data.length.toNat
  let writable := request.data.flags &&& VirtQueueDescriptorFlags.Write ≠ 0
  if request.header.type = BlockIO.RequestType.Read ∧ writable then
    let bytes := if status = .ok then loadBytes store.disk sector length else moved.take length
    { store with memory := storeBytes store.memory address bytes }
  else if request.header.type = BlockIO.RequestType.Write ∧ ¬ writable then
    let bytes := if status = .ok then loadBytes store.memory address length else moved.take length
    { store with disk := storeBytes store.disk sector bytes }
  else store

/-- The device follows the entry of the available ring that was added for request `number`. -/
def RequestRun.fetch (s : RequestRun) (number : Nat) : FetchedRequest :=
  let head := s.queue.descriptors (s.queue.available.ring (number % VIRTIO_RING_SIZE)).toNat
  { header := (s.heap.requests head.address).header
    data := s.queue.descriptors head.next.toNat }

/-- A step of the driver or of the device, with what the device moves in it for a request that
fails, or a write of a caller to the main memory. -/
inductive TransferEvent where
  | request (event : RequestEvent) (moved : List (BitVec 8))
  | store (address : Nat) (bytes : List (BitVec 8))
deriving DecidableEq

structure TransferRun where
  requests : RequestRun
  storage : Storage

namespace TransferRun

/-- The device moves the bytes of a request before it writes the status of it. -/
def transferred (s : TransferRun) (moved : List (BitVec 8)) : RequestEvent → Storage
  | .answer number status => s.storage.transfer (s.requests.fetch number) status moved
  | _ => s.storage

def step (fuel : Nat) (s : TransferRun) : TransferEvent → Option TransferRun
  | .request event moved => (s.requests.step fuel event).map fun requests =>
    { requests, storage := s.transferred moved event }
  | .store address bytes => some { s with
      storage := { s.storage with memory := storeBytes s.storage.memory address bytes } }

def Step (s : TransferRun) (e : TransferEvent) (s' : TransferRun) : Prop :=
  ∃ fuel, s.step fuel e = some s'

end TransferRun

end MatteOS.Devices
