import MatteOS.Firmware.FDTParser
import MatteOS.Utils.NumberBuffer
import MatteOS.Utils.StringView

/-!
# Devices and their drivers

The list of the `DeviceManager`, and the drivers of the `DriverManager`. A `RefPtr` to a device is
the index of the device in the list, from which nothing is removed.
-/

namespace MatteOS.Devices

open Utils Firmware

/-! ## Devices -/

inductive DeviceType where
  | none
  | network
  | block
  | console
  | entropy
  | gpu
  | input
  | memory
deriving DecidableEq

inductive UnderlyingDeviceType where
  | virtio
  | sbiConsole
  | universal
deriving DecidableEq

/-- An `UnderlyingDevice`: a `VirtIODevice`, with the addresses in `m_virt_queues`, or a
`UniversalDevice`. No `SBIConsoleDevice` is ever made. -/
inductive UnderlyingDevice where
  | virtio (mmioDevice : BitVec 64) (virtQueues : List Nat)
  | universal (deviceId vendorId : BitVec 32) (deviceTreePath deviceType : Bytes)
      (address : BitVec 64)
deriving DecidableEq

def UnderlyingDevice.getDeviceType : UnderlyingDevice → UnderlyingDeviceType
  | virtio _ _ => .virtio
  | universal _ _ _ _ _ => .universal

/-- The classes of drivers for devices. -/
inductive DeviceDriver where
  | blockIODriver
  | ns16550A
deriving DecidableEq

/-- A `Device`. Its type tells its class: there is one class for blocks, one for the console and one
for entropy. -/
structure Device where
  underlyingDevice : UnderlyingDevice
  interrupts : List (BitVec 64)
  deviceType : DeviceType
  needsDriver : Bool
  driver : Option DeviceDriver
deriving DecidableEq

namespace Device

/-- `Device::Device` -/
def create (underlyingDevice : UnderlyingDevice) (interrupts : List (BitVec 64))
    (deviceType : DeviceType) (needsDriver : Bool) : Device where
  underlyingDevice
  interrupts
  deviceType
  needsDriver
  driver := none

/-- `EntropyDevice::EntropyDevice` -/
def entropyDevice (underlyingDevice : UnderlyingDevice) (interrupts : List (BitVec 64)) : Device :=
  create underlyingDevice interrupts .entropy false

/-- `BlockDevice::BlockDevice` -/
def blockDevice (underlyingDevice : UnderlyingDevice) (interrupts : List (BitVec 64)) : Device :=
  create underlyingDevice interrupts .block true

/-- `ConsoleDevice::ConsoleDevice` -/
def consoleDevice (underlyingDevice : UnderlyingDevice) (interrupts : List (BitVec 64)) : Device :=
  create underlyingDevice interrupts .console true

/-- `Device::handles_interrupt` -/
def handlesInterrupt (device : Device) (interruptId : BitVec 64) : Bool :=
  (device.interrupts.find? fun interrupt => interruptId == interrupt).isSome

end Device

/-! ## Drivers -/

/-- The classes of descriptors. -/
inductive DeviceDriverDescriptor where
  | virtIODevice
  | ns16550A
deriving DecidableEq

namespace DeviceDriverDescriptor

/-- `is_compatible_with` of `VirtIODeviceDriverDescriptor` and of `NS16550ADriverDescriptor` -/
def isCompatibleWith (device : Device) : DeviceDriverDescriptor → Bool
  | virtIODevice =>
    if device.underlyingDevice.getDeviceType ≠ .virtio then false
    else decide (device.deviceType = .block)
  | ns16550A =>
    if device.deviceType ≠ .console then false
    else
      match device.underlyingDevice with
      | .virtio _ _ => false
      | .universal _ _ _ deviceType _ =>
        -- `String::equals_ignore_case`, with the literal for the other string
        let model := literal "ns16550a"
        if deviceType.length ≠ model.length then false
        else sameLetters deviceType.length deviceType model

/-- `instantiate_driver` of the two -/
def instantiateDriver (device : Device) : DeviceDriverDescriptor → Except String DeviceDriver
  | virtIODevice =>
    if ¬ virtIODevice.isCompatibleWith device then .error "Device is not compatible."
    else if device.deviceType = .block then .ok .blockIODriver
    else .error "Device is not compatible. Driver could not be instantiated."
  | ns16550A => .ok .ns16550A

end DeviceDriverDescriptor

/-- `m_device_driver_descriptors`, as `DriverManager::register_default_drivers` leaves them -/
def deviceDriverDescriptors : List DeviceDriverDescriptor := [.virtIODevice, .ns16550A]

/-- `DriverManager::find_compatible_drivers` -/
def findCompatibleDrivers (device : Device) : List DeviceDriverDescriptor :=
  deviceDriverDescriptors.filter (·.isCompatibleWith device)

/-! ## The device manager -/

namespace DeviceManager

/-- The driver that a round of `DeviceManager::load_drivers` gives a device that has none. -/
def newDriver (device : Device) : Option DeviceDriver :=
  if device.driver.isSome ∨ ¬ device.needsDriver then none
  else do
    let descriptor ← (findCompatibleDrivers device)[0]?
    (descriptor.instantiateDriver device).toOption

/-- `DeviceManager::delegate_device_interrupt`, where `handle` is `handle_interrupt` of the devices
and `τ` is what it works on. -/
def delegateDeviceInterrupt {τ : Type} (devices : List Device)
    (handle : Nat → BitVec 64 → τ → Except String Unit × τ) (interruptId : BitVec 64) (t : τ) :
    Except String Unit × τ :=
  match devices.findIdx? (·.handlesInterrupt interruptId) with
  | none => (.error "Couldn't delegate interrupt. No device found!.", t)
  | some device => handle device interruptId t

end DeviceManager

end MatteOS.Devices
