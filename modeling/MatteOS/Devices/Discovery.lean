import MatteOS.Devices.DeviceManager
import MatteOS.Devices.VirtIOInit
import MatteOS.Firmware.Properties
import MatteOS.Memory.AddressSpaces

/-!
# Finding the devices

The part of the boot from `init_drivers` on: the drivers find nodes in the device tree, add a device
for each, and initialise it; then the devices get their drivers. A run ends (`none`) where a page is
needed and there is none, or where a search in the tree runs out of fuel. The kernel heap is taken to
have room for the devices, the drivers and the lists.
-/

namespace MatteOS.Devices

open Utils Firmware Memory

/-- The devices on the bus, the pages, and `m_devices`. -/
structure Boot (σ : Type) where
  registers : σ
  heap : PageHeap
  devices : List Device

/-- The magic value of VirtIO, "virt". -/
def virtIOMagic : BitVec 32 := 0x74726976

section

variable {σ : Type} (bus : Bus σ)

/-- The device that `try_to_load_mmio_device` makes for what is at an address, by the device id of
`VirtIODeviceIDs`. -/
def makeVirtIODevice (address : BitVec 64) (interrupts : List (BitVec 64)) (deviceId : BitVec 32) :
    Device :=
  let virtioDevice := UnderlyingDevice.virtio address []
  if deviceId = 4 then .entropyDevice virtioDevice interrupts
  else if deviceId = 2 then .blockDevice virtioDevice interrupts
  else .create virtioDevice interrupts .none false

/-- `DeviceManager::try_to_load_mmio_device`, on the page table at `root`. What `new` and `add` store
on the kernel heap, the device and its entry in `m_devices`, stays in the arena of that heap and is
left out of `heap`. -/
def tryToLoadMmioDevice (self root : Nat) (address : BitVec 64) (interrupts : List (BitVec 64))
    (b : Boot σ) : Option (Except String Nat × Boot σ) := do
  let heap ← b.heap.identityMapRange self root address (address + 0x1000) EntryBits.READ_WRITE
  let b := { b with heap }
  if bus.getRegisterValue address .magicValue b.registers = virtIOMagic then
    let deviceId := bus.getRegisterValue address .deviceId b.registers
    let device := makeVirtIODevice address interrupts deviceId
    return (.ok b.devices.length, { b with devices := b.devices ++ [device] })
  else return (.error "Not a VirtIO device.", b)

/-- `Device::init` of the device at an index, by its class. The files of `/dev` are left out. -/
def initDevice (self device : Nat) (b : Boot σ) : Option (Except String Unit × Boot σ) := do
  let d ← b.devices[device]?
  match d.deviceType, d.underlyingDevice with
  | .entropy, .virtio mmioDevice _ | .block, .virtio mmioDevice _ =>
    let (result, registers, heap) ← virtIOInit bus self mmioDevice 0 1 b.registers b.heap
    match result with
    | .error e => return (.error e, { b with registers, heap })
    | .ok virtQueues =>
      let d := { d with underlyingDevice := .virtio mmioDevice virtQueues }
      return (.ok (), { registers, heap, devices := b.devices.set device d })
  | _, _ => return (.error "Device slot is empty.", b)

/-- One round of the loop of `VirtIODriver::init`. -/
def VirtIODriver.round (self root : Nat) (b : Boot σ) (node : NodePointer) : Option (Boot σ) := do
  let address ← node.node.address
  let interrupts ← node.node.interrupts
  let (result, b) ← tryToLoadMmioDevice bus self root address interrupts b
  match result with
  | .error _ => return b
  | .ok device => return (← initDevice bus self device b).2

/-- `VirtIODriver::init` -/
def VirtIODriver.init (self root : Nat) (parser : FDTParser) (fuel : Nat) (b : Boot σ) :
    Option (Boot σ) := do
  let nodes ← parser.findNodes fuel (literal "/soc/virtio_mmio")
  nodes.foldlM (VirtIODriver.round bus self root) b

/-- The console that `MMIODriver::init` makes for a node. -/
def MMIODriver.console (serial : FDTNode) : Option Device := do
  let interrupts ← serial.interrupts
  let address ← serial.address
  let type :=
    match serial.findProperty (literal "compatible") with
    | .ok property => property.getValueAsString
    | .error _ => literal "unknown"
  return .consoleDevice (.universal 0 0 (literal "/soc/serial") type address) interrupts

/-- `MMIODriver::init`. A tree without a root node has no pointer to use. -/
def MMIODriver.init (self : Nat) (parser : FDTParser) (fuel : Nat) (b : Boot σ) :
    Option (Boot σ) := do
  match ← parser.findNode fuel (literal "/soc/serial") with
  | .error _ => return b
  | .ok serial =>
    let console ← MMIODriver.console (← serial).node
    let b := { b with devices := b.devices ++ [console] }
    return (← initDevice bus self (b.devices.length - 1) b).2

/-- `DriverManager::init_drivers`, for the drivers that `register_default_drivers` registers -/
def initDrivers (self root : Nat) (parser : FDTParser) (fuel : Nat) (b : Boot σ) :
    Option (Boot σ) := do
  let b ← VirtIODriver.init bus self root parser fuel b
  MMIODriver.init bus self parser fuel b

/-- The bytes that `NS16550ADriver::init` writes to the registers of the UART, in order. -/
def uartSetup : List (BitVec 64 × BitVec 8) :=
  [(1, 0x00), (3, 0x80), (0, 0x03), (1, 0x00), (3, 0x03), (2, 0x07), (1, 0x01), (4, 0x0F)]

/-- `init` of a driver for the device it is given. -/
def DeviceDriver.init (device : Device) (registers : σ) : DeviceDriver → σ
  | blockIODriver => registers
  | ns16550A =>
    match device.underlyingDevice with
    | .virtio _ _ => registers
    | .universal _ _ _ _ address =>
      uartSetup.foldl (fun r write => bus.writeByte r (address + write.1) write.2) registers

/-- One round of the loop of `DeviceManager::load_drivers`. -/
def loadDriversRound (s : List Device × σ) (device : Device) : List Device × σ :=
  match DeviceManager.newDriver device with
  | none => (s.1 ++ [device], s.2)
  | some driver =>
    let device := { device with driver := some driver }
    (s.1 ++ [device], driver.init bus device s.2)

/-- `DeviceManager::load_drivers` -/
def loadDrivers (b : Boot σ) : Boot σ :=
  let (devices, registers) := b.devices.foldl (loadDriversRound bus) ([], b.registers)
  { b with devices, registers }

/-- The devices are found and get their drivers, as `kmain` calls for it. -/
def setUpDevices (self root : Nat) (parser : FDTParser) (fuel : Nat) (b : Boot σ) :
    Option (Boot σ) :=
  (initDrivers bus self root parser fuel b).map (loadDrivers bus)

end

end MatteOS.Devices
