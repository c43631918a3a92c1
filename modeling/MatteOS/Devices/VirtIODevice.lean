import Mathlib.Algebra.GroupWithZero.Nat
import Mathlib.Logic.Function.Basic
import Mathlib.Tactic.Common

/-!
# The used ring of a virtqueue

The part of `VirtQueue` that flows back from the device: it writes completed elements
to the used ring, and `VirtIODevice::get_next_used_descriptor` takes them from there.
The device counts in a 16-bit index that wraps, the driver in `m_queue_acks`, a `u64`
it keeps below the ring size.
-/

namespace MatteOS.Devices

def VIRTIO_RING_SIZE : Nat := 128

structure VirtQueueDescriptor where
  address : BitVec 64
  length : BitVec 32
  flags : BitVec 16
  next : BitVec 16
deriving DecidableEq

structure VirtQueueUsedElement where
  id : BitVec 32
  length : BitVec 32
deriving DecidableEq

structure VirtQueueUsed where
  index : BitVec 16
  ring : Nat → VirtQueueUsedElement

/-- The queue a device uses, with `m_queue_acks` of that queue. -/
structure VirtIODevice where
  descriptors : Nat → VirtQueueDescriptor
  used : VirtQueueUsed
  queueAck : Nat

/-- `VirtIODevice::get_next_used_descriptor`. The descriptor it returns is the one at the `id` of
the element. -/
def VirtIODevice.getNextUsedDescriptor (d : VirtIODevice) :
    Except String VirtQueueUsedElement × VirtIODevice :=
  if d.queueAck = d.used.index.toNat then (.error "No used descriptor available.", d)
  else
    let ack := d.queueAck
    let element := d.used.ring (ack % VIRTIO_RING_SIZE)
    (.ok element, { d with queueAck := (ack + 1) % VIRTIO_RING_SIZE })

/-- What the device does when it has completed a request. -/
def VirtIODevice.complete (d : VirtIODevice) (element : VirtQueueUsedElement) : VirtIODevice :=
  { d with used :=
    { index := d.used.index + 1
      ring := Function.update d.used.ring (d.used.index.toNat % VIRTIO_RING_SIZE) element } }

/-! ## Runs -/

inductive QueueEvent where
  | complete (element : VirtQueueUsedElement)
  | poll
deriving DecidableEq

/-- The device, the elements it has produced and those the driver has obtained. -/
structure QueueRun where
  device : VirtIODevice
  produced : List VirtQueueUsedElement
  obtained : List VirtQueueUsedElement

def QueueRun.step (s : QueueRun) : QueueEvent → QueueRun
  | .complete element =>
    { s with device := s.device.complete element, produced := s.produced ++ [element] }
  | .poll =>
    match s.device.getNextUsedDescriptor with
    | (.ok element, d) => { s with device := d, obtained := s.obtained ++ [element] }
    | (.error _, d) => { s with device := d }

/-- A queue after `VirtIODevice::init`. -/
def QueueRun.init (descriptors : Nat → VirtQueueDescriptor) (ring : Nat → VirtQueueUsedElement) :
    QueueRun where
  device := { descriptors, used := { index := 0, ring }, queueAck := 0 }
  produced := []
  obtained := []

end MatteOS.Devices
