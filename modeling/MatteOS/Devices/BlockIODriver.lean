import MatteOS.Devices.VirtIODevice
import MatteOS.Lib.Loop

/-!
# Collecting completed block requests

`BlockIODriver::notify` takes used elements until there are none. A request that was
polled for stands in `m_ignored_requests` and gives no result.
-/

namespace MatteOS.Devices

/-- The fields of a `BlockIO::Request` that `notify` reads. -/
structure BlockRequest where
  status : BitVec 8
  requestId : BitVec 64
deriving DecidableEq

inductive BlockDeviceAsyncRequestType where
  | ok
  | failed
deriving DecidableEq

structure BlockDeviceAsyncResult where
  requestId : BitVec 64
  type : BlockDeviceAsyncRequestType
deriving DecidableEq

/-- The driver during `notify`: its device, `m_ignored_requests`, the requests it has deleted and
the results so far. -/
structure BlockIODriver where
  device : VirtIODevice
  ignoredRequests : List (BitVec 64)
  deleted : List (BitVec 64)
  results : List BlockDeviceAsyncResult

/-- `descriptor->address = 0` -/
def VirtIODevice.clearAddress (d : VirtIODevice) (id : Nat) : VirtIODevice :=
  { d with descriptors := Function.update d.descriptors id { d.descriptors id with address := 0 } }

/-- One round of `notify`; `requests` are the request objects by address. -/
def BlockIODriver.notifyBody (requests : BitVec 64 → BlockRequest) (b : BlockIODriver) :
    Loop.Next BlockIODriver BlockIODriver :=
  match b.device.getNextUsedDescriptor with
  | (.error _, d) => .done { b with device := d }
  | (.ok element, d) =>
    let id := element.id.toNat
    let request := (d.descriptors id).address
    let b := { b with device := d.clearAddress id, deleted := b.deleted ++ [request] }
    if request ∈ b.ignoredRequests then
      .again { b with ignoredRequests := b.ignoredRequests.erase request }
    else
      let result :=
        { requestId := (requests request).requestId
          type := if (requests request).status = 0 then .ok else .failed }
      .again { b with results := b.results ++ [result] }

/-- `BlockIODriver::notify`. -/
def BlockIODriver.notify (fuel : Nat) (requests : BitVec 64 → BlockRequest) (b : BlockIODriver) :
    Option BlockIODriver :=
  Loop.run (notifyBody requests) fuel { b with results := [] }

end MatteOS.Devices
