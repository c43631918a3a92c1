import MatteOS.Devices.BlockOperation

/-!
# Block devices

`BlockDevice` numbers its asynchronous requests and keeps them in `m_requests`. The driver's
`notify` gives results that carry these numbers, and `handle_interrupt` looks each of them up to
call one of the callables of the request.
-/

namespace MatteOS.Devices

variable {F : Type}

/-- A request; `object` is the object that `new` made for it, which a `RefPtr` points to. -/
structure BlockDeviceAsyncRequest (F : Type) where
  object : Nat
  id : BitVec 64
  buffer : BitVec 64
  size : BitVec 64
  offset : BitVec 64
  write : Bool
  onSuccess : F
  onFailure : F
deriving DecidableEq

/-- The arguments of `read_async` and `write_async`. The driver creates a `BlockIO::Request` of its
own, at `address`. -/
structure BlockDeviceCall (F : Type) where
  buffer : BitVec 64
  size : BitVec 64
  offset : BitVec 64
  onSuccess : F
  onFailure : F
  address : BitVec 64
deriving DecidableEq

/-- `m_driver` is null or leads to a queue and to the requests of the driver. -/
structure BlockDevice (F : Type) where
  requests : List (BlockDeviceAsyncRequest F)
  nextRequestId : BitVec 64
  driver : Option (VirtIOQueue × RequestHeap)

/-- A callable with the request it is called with. -/
structure Callback (F : Type) where
  callable : F
  request : BlockDeviceAsyncRequest F
deriving DecidableEq

namespace BlockDevice

/-- `new BlockDeviceAsyncRequest`, as `read_async` and `write_async` both write it. -/
def newRequest (device : BlockDevice F) (object : Nat) (call : BlockDeviceCall F) :
    BlockDeviceAsyncRequest F where
  object
  id := device.nextRequestId
  buffer := call.buffer
  size := call.size
  offset := call.offset
  write := false
  onSuccess := call.onSuccess
  onFailure := call.onFailure

def addRequest (device : BlockDevice F) (request : BlockDeviceAsyncRequest F) : BlockDevice F :=
  { device with
    requests := device.requests ++ [request]
    nextRequestId := device.nextRequestId + 1 }

/-- `read_async` and `write_async`: the request is added before the driver is asked. -/
def async (isWrite : Bool) (device : BlockDevice F) (object : Nat) (call : BlockDeviceCall F) :
    Except String Unit × BlockDevice F :=
  match device.driver with
  | none => (.error "BlockDevice: No driver loaded.", device)
  | some (queue, heap) =>
    let request := device.newRequest object call
    let device := device.addRequest request
    let (result, driver) := blockOperation call.address
      ⟨request.id, call.buffer, call.size, call.offset, isWrite⟩ queue heap
    (result.map fun _ => (), { device with driver := some driver })

/-- `BlockDevice::write_async` -/
def writeAsync : BlockDevice F → Nat → BlockDeviceCall F → Except String Unit × BlockDevice F :=
  async true

/-- `BlockDevice::read_async` -/
def readAsync : BlockDevice F → Nat → BlockDeviceCall F → Except String Unit × BlockDevice F :=
  async false

/-- `m_requests.find_first_match` in `handle_interrupt` -/
def findRequest (device : BlockDevice F) (result : BlockDeviceAsyncResult) :
    Except String (BlockDeviceAsyncRequest F) :=
  match device.requests.find? fun request => request.id == result.requestId with
  | some request => .ok request
  | none => .error "No match found!"

end BlockDevice

/-! ## Runs -/

/-- What `notify` gives: the driver it leaves, and an error or the results. With each result stand
the calls of `read_async` (`false`) and `write_async` that the callable makes in turn. -/
structure Notified (F : Type) where
  driver : VirtIOQueue × RequestHeap
  results : Except String (List (BlockDeviceAsyncResult × List (Bool × BlockDeviceCall F)))

inductive BlockDeviceEvent (F : Type) where
  | setDriver (driver : VirtIOQueue × RequestHeap)
  | writeAsync (call : BlockDeviceCall F)
  | readAsync (call : BlockDeviceCall F)
  | interrupt (notified : Notified F)

/-- A device with the number of calls that were made, the requests of the calls that returned
without an error and the callables that were called. -/
structure BlockDeviceRun (F : Type) where
  device : BlockDevice F
  calls : Nat
  accepted : List (BlockDeviceAsyncRequest F)
  callbacks : List (Callback F)

namespace BlockDeviceRun

def init : BlockDeviceRun F where
  device := { requests := [], nextRequestId := 0, driver := none }
  calls := 0
  accepted := []
  callbacks := []

/-- A call of `read_async` or `write_async`. -/
def async (isWrite : Bool) (s : BlockDeviceRun F) (call : BlockDeviceCall F) : BlockDeviceRun F :=
  let (result, device) :=
    if isWrite then s.device.writeAsync s.calls call else s.device.readAsync s.calls call
  { s with
    device
    calls := s.calls + 1
    accepted :=
      match result with
      | .ok _ => s.accepted ++ [s.device.newRequest s.calls call]
      | .error _ => s.accepted }

/-- One round of the loop of `handle_interrupt`. -/
def handleResult (s : BlockDeviceRun F)
    (result : BlockDeviceAsyncResult × List (Bool × BlockDeviceCall F)) : BlockDeviceRun F :=
  match s.device.findRequest result.1 with
  | .error _ => s
  | .ok request =>
    let callable := if result.1.type = .ok then request.onSuccess else request.onFailure
    let s := { s with callbacks := s.callbacks ++ [⟨callable, request⟩] }
    result.2.foldl (fun s call => s.async call.1 call.2) s

/-- `BlockDevice::handle_interrupt` -/
def handleInterrupt (s : BlockDeviceRun F) (notified : Notified F) :
    Except String Unit × BlockDeviceRun F :=
  match s.device.driver with
  | none => (.error "BlockDevice: No driver loaded.", s)
  | some _ =>
    let s := { s with device := { s.device with driver := some notified.driver } }
    match notified.results with
    | .error e => (.error e, s)
    | .ok results => (.ok (), results.foldl handleResult s)

def step (s : BlockDeviceRun F) : BlockDeviceEvent F → BlockDeviceRun F
  | .setDriver driver => { s with device := { s.device with driver := some driver } }
  | .writeAsync call => s.async true call
  | .readAsync call => s.async false call
  | .interrupt notified => (s.handleInterrupt notified).2

def run (events : List (BlockDeviceEvent F)) : BlockDeviceRun F :=
  events.foldl step init

end BlockDeviceRun

end MatteOS.Devices
