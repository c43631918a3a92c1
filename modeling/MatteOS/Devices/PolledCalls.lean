import MatteOS.Devices.BlockTransfers
import MatteOS.Lib.Transition

/-!
# Calls that poll

`read_poll` and `write_poll` submit an operation and look at its status until it is no longer
`status_value`. Between two looks the device may answer and give back requests. The interrupt
handler does not run, as when a file system is mounted during the boot.
-/

namespace MatteOS.Devices

open Transition

/-- The arguments of `read_poll` and `write_poll`, with the address `new` returns. -/
structure PolledCall where
  isWrite : Bool
  buffer : BitVec 64
  size : BitVec 64
  offset : BitVec 64
  address : BitVec 64
deriving DecidableEq

namespace PolledCall

/-- What the call passes to `block_operation`. -/
def operation (call : PolledCall) : BlockOperation where
  requestId := 0
  buffer := call.buffer
  size := call.size
  offset := call.offset
  isWrite := call.isWrite

/-- The error of a request with another status than 0. -/
def failure (call : PolledCall) : String :=
  if call.isWrite then "BlockIODriver: Write failed." else "BlockIODriver: Read failed."

/-- A step of the device, or a look after which the caller of request `number` keeps polling. -/
def Waits (number : Nat) (s : TransferRun) (e : TransferEvent) (s' : TransferRun) : Prop :=
  s.step 0 e = some s' ∧
    match e with
    | .request (.answer _ _) _ => True
    | .request (.produce _ _) _ => True
    | .request (.poll n) _ => n = number ∧ s'.requests.polling number = true
    | _ => False

/-- A call of `read_poll` or `write_poll` that starts in the state `s` returns. -/
inductive Returns (call : PolledCall) (s : TransferRun) :
    Except String Unit → TransferRun → Prop where
  | invalid (size : call.size % 512 ≠ 0) :
      Returns call s (.error "BlockIODriver: Size must be a multiple of 512 bytes.") s
  | polled {s₁ s₂ s' : TransferRun} {events : List TransferEvent} (size : call.size % 512 = 0)
      (submit : s.step 0 (.request (.submit true call.address call.operation) []) = some s₁)
      (wait : Run (Waits s.requests.submitted) s₁ events s₂)
      (look : s₂.step 0 (.request (.poll s.requests.submitted) []) = some s')
      (done : s'.requests.polling s.requests.submitted = false) :
      Returns call s
        (if (s₂.requests.heap.requests call.address).status = 0 then .ok ()
          else .error call.failure) s'

end PolledCall

/-- A call returns, or the device gives back a request between two calls. -/
inductive PolledEvent where
  | returns (call : PolledCall) (result : Except String Unit)
  | produce (number : Nat) (length : BitVec 32)

def PolledEvent.Step (s : TransferRun) : PolledEvent → TransferRun → Prop
  | .returns call result, s' => call.Returns s result s'
  | .produce number length, s' => s.step 0 (.request (.produce number length) []) = some s'

end MatteOS.Devices
