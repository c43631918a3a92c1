import MatteOS.Devices.VirtIODevice
import MatteOS.Memory.HeapMapping

/-!
# Initialising VirtIO devices

`VirtIODevice::init` on the registers of a device, which are words on a bus. What the devices make of
a read or a write is theirs, so that the bus is a parameter.
-/

namespace MatteOS.Devices

open Memory

/-! ## Registers -/

/-- What the devices answer to reads, and what becomes of them by writes of words and of bytes. -/
structure Bus (σ : Type) where
  read : σ → BitVec 64 → BitVec 32
  write : σ → BitVec 64 → BitVec 32 → σ
  writeByte : σ → BitVec 64 → BitVec 8 → σ

/-- The values of `MMIODeviceRegisterLayout` that are used. -/
inductive MMIODeviceRegisterLayout where
  | magicValue
  | deviceId
  | hostFeatures
  | guestFeatures
  | guestPageSize
  | queueSel
  | queueNumMax
  | queueNum
  | queuePfn
  | status
deriving DecidableEq

def MMIODeviceRegisterLayout.offset : MMIODeviceRegisterLayout → BitVec 64
  | magicValue => 0x000
  | deviceId => 0x008
  | hostFeatures => 0x010
  | guestFeatures => 0x020
  | guestPageSize => 0x028
  | queueSel => 0x030
  | queueNumMax => 0x034
  | queueNum => 0x038
  | queuePfn => 0x040
  | status => 0x070

namespace StatusField

def Acknowledge : BitVec 32 := 1 <<< 0

def Driver : BitVec 32 := 1 <<< 1

def DriverOK : BitVec 32 := 1 <<< 2

def FeaturesOK : BitVec 32 := 1 <<< 3

end StatusField

section

variable {σ : Type} (bus : Bus σ) (mmioDevice : BitVec 64) (register : MMIODeviceRegisterLayout)

/-- `MMIODevice::get_register_value` -/
def Bus.getRegisterValue (registers : σ) : BitVec 32 :=
  bus.read registers (mmioDevice + register.offset)

/-- `MMIODevice::set_register_value` -/
def Bus.setRegisterValue (registers : σ) (value : BitVec 32) : σ :=
  bus.write registers (mmioDevice + register.offset) value

end

/-! ## Initialisation -/

/-- `sizeof(VirtQueue)`: the descriptors and the available ring are padded to a page. -/
def sizeofVirtQueue : Nat := PAGE_SIZE + 1032

/-- The loop of `VirtIODevice::init` over the queues. The callback it calls only prints. -/
def allocateQueues (self numberOfPages : Nat) : Nat → PageHeap → Option (List Nat × PageHeap)
  | 0, heap => some ([], heap)
  | n + 1, heap => do
    let (queueAddress, heap) ← heap.zalloc self numberOfPages
    let (virtQueues, heap) ← allocateQueues self numberOfPages n heap
    return (queueAddress :: virtQueues, heap)

/-- `VirtIODevice::init`, with the addresses it leaves in `m_virt_queues`. -/
def virtIOInit {σ : Type} (bus : Bus σ) (self : Nat) (mmioDevice : BitVec 64)
    (features : BitVec 32) (numberOfVirtQueues : Nat) (r : σ) (heap : PageHeap) :
    Option (Except String (List Nat) × σ × PageHeap) :=
  let get := bus.getRegisterValue mmioDevice
  let set := bus.setRegisterValue mmioDevice
  -- "1. Reset the device."
  let r := set .status r 0
  -- "2. Set the ACKNOWLEDGE status bit"
  let status := get .status r ||| StatusField.Acknowledge
  let r := set .status r status
  -- "3. Set the DRIVER status bit"
  let status := status ||| StatusField.Driver
  let r := set .status r status
  -- "4. Read device feature bits"
  if get .hostFeatures r &&& features ≠ features then
    some (.error "Device does not support required features.", r, heap)
  else
    let r := set .guestFeatures r features
    -- "5. Set the FEATURES_OK status bit."
    let status := status ||| StatusField.FeaturesOK
    let r := set .status r status
    -- "6. Re-read device status to ensure the FEATURES_OK bit is still set"
    let status := get .status r
    if status &&& StatusField.FeaturesOK = 0 then
      some (.error "Device does not support required features.", r, heap)
    else
      -- "7. Perform device-specific setup"
      let queueNumMax := get .queueNumMax r
      let r := set .queueNum r (.ofNat 32 VIRTIO_RING_SIZE)
      if queueNumMax.toNat < VIRTIO_RING_SIZE then
        some (.error "Device does not support required number of queues.", r, heap)
      else do
        let r := set .queueSel r 0
        let numberOfPages := (sizeofVirtQueue + PAGE_SIZE - 1) / PAGE_SIZE
        let r := set .guestPageSize r (.ofNat 32 PAGE_SIZE)
        let (virtQueues, heap) ← allocateQueues self numberOfPages numberOfVirtQueues heap
        let queueAddressValue ← virtQueues[0]?
        let r := set .queuePfn r (.ofNat 32 queueAddressValue / .ofNat 32 PAGE_SIZE)
        -- "8. Set the DRIVER_OK status bit."
        let r := set .status r (status ||| StatusField.DriverOK)
        some (.ok virtQueues, r, heap)

end MatteOS.Devices
