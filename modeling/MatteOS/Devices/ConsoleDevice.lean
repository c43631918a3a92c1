import Mathlib.Tactic.Common

/-!
# The console

`NS16550ADriver` collects received characters into lines, and `ConsoleDevice` keeps the
contexts of the reads that found no line. The queue of completed lines and the list of
contexts are lists.
-/

namespace MatteOS.Devices

/-- The two ids of a `RequestContext`. -/
structure RequestContext where
  pid : BitVec 64
  tid : BitVec 64
deriving DecidableEq

/-- `RequestContext::create_context` -/
def RequestContext.create : RequestContext := { pid := 0, tid := 0 }

/-- `RequestContext::assign` -/
def RequestContext.assign (pid tid : BitVec 64) (context : RequestContext) : RequestContext :=
  if context.pid = 0 then { pid, tid } else context

structure NS16550ADriver where
  buffer : List (BitVec 8)
  lines : List (List (BitVec 8))
deriving DecidableEq

namespace NS16550ADriver

def lineAvailable (driver : NS16550ADriver) : Bool := !driver.lines.isEmpty

/-- `NS16550ADriver::read_line` -/
def readLine (driver : NS16550ADriver) : Except String (List (BitVec 8)) × NS16550ADriver :=
  match driver.lines with
  | [] => (.error "Buffer is empty.", driver)
  | line :: lines => (.ok line, { driver with lines })

/-- `NS16550ADriver::handle_interrupt`; `read_char` gives `received`, or an error when there is no
data. -/
def handleInterrupt (received : Option (BitVec 8)) (driver : NS16550ADriver) : NS16550ADriver :=
  match received with
  | none => driver
  | some value =>
    if value = 13 then { buffer := [], lines := driver.lines ++ [driver.buffer] }
    else { driver with buffer := driver.buffer ++ [value] }

end NS16550ADriver

structure ConsoleDevice where
  driver : Option NS16550ADriver
  requests : List RequestContext
deriving DecidableEq

/-- A `Request<String>`: a blocked one holds the place of its context in `m_requests`. -/
inductive ConsoleRequest where
  | blocked (context : Nat)
  | finalized (value : List (BitVec 8))
deriving DecidableEq

namespace ConsoleDevice

/-- `ConsoleDevice::read` -/
def read (console : ConsoleDevice) : Except String (List (BitVec 8)) × ConsoleDevice :=
  match console.driver with
  | none => (.error "ConsoleDevice: No driver.", console)
  | some driver =>
    let (line, driver) := driver.readLine
    (line, { console with driver := some driver })

/-- `ConsoleDevice::read_async` -/
def readAsync (console : ConsoleDevice) : ConsoleRequest × ConsoleDevice :=
  match console.read with
  | (.error _, console) =>
    (.blocked console.requests.length,
      { console with requests := console.requests ++ [.create] })
  | (.ok line, console) => (.finalized line, console)

/-- `Request::assign` on a blocked request. -/
def assign (context : Nat) (pid tid : BitVec 64) (console : ConsoleDevice) : ConsoleDevice :=
  { console with requests := console.requests.modify context (.assign pid tid) }

/-- `ConsoleDevice::handle_interrupt`: the requests whose threads it unblocks, and the device
afterwards. -/
def handleInterrupt (received : Option (BitVec 8)) (console : ConsoleDevice) :
    List RequestContext × ConsoleDevice :=
  match console.driver with
  | none => ([], console)
  | some driver =>
    let driver := driver.handleInterrupt received
    if driver.lineAvailable then (console.requests, { driver := some driver, requests := [] })
    else ([], { console with driver := some driver })

end ConsoleDevice

end MatteOS.Devices
