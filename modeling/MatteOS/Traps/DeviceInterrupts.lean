import MatteOS.Devices.DeviceManager
import MatteOS.Traps.Plic

/-!
# Interrupts of devices

How `InterruptManager` sets up the interrupt controller for the devices, and how an external
interrupt is handled. A read of the claim register has an effect on the controller, which is a
parameter here.
-/

namespace MatteOS.Traps

open Devices

/-- `InterruptManager::DEFAULT_CONTEXT_ID` -/
def DEFAULT_CONTEXT_ID : BitVec 32 := 1

/-! ## Set up -/

namespace InterruptManager

/-- `InterruptManager::set_threshold` -/
def setThreshold (plic : Plic) (registers : Registers) (threshold : BitVec 64) : Registers :=
  plic.setThreshold DEFAULT_CONTEXT_ID registers (threshold.setWidth 8)

/-- `InterruptManager::enable_device_interrupts`. The controller takes ids of 32 bits. -/
def enableDeviceInterrupts (plic : Plic) (devices : List Device) (registers : Registers) :
    Registers :=
  devices.foldl (fun registers device =>
    device.interrupts.foldl (fun registers interruptId =>
      let id := interruptId.setWidth 32
      plic.setPriority id (plic.enable DEFAULT_CONTEXT_ID id registers) 1) registers) registers

/-- The set-up of the interrupts in `kmain`. -/
def setUp (plic : Plic) (devices : List Device) (registers : Registers) : Registers :=
  enableDeviceInterrupts plic devices (setThreshold plic registers 0)

end InterruptManager

/-! ## Handling -/

/-- The registers of a controller, where reads have effects. -/
structure PlicBus (σ : Type) where
  load : σ → BitVec 64 → BitVec 32 × σ
  store : σ → BitVec 64 → BitVec 32 → σ

section

variable {σ τ : Type} (bus : PlicBus σ) (plic : Plic)

/-- `Plic::next` -/
def Plic.nextOn (contextId : BitVec 32) (s : σ) : Option (BitVec 32) × σ :=
  let claim := bus.load s (plic.claimRegister contextId)
  if claim.1 = 0 then (none, claim.2) else (some claim.1, claim.2)

/-- `Plic::complete` -/
def Plic.completeOn (contextId id : BitVec 32) (s : σ) : σ :=
  bus.store s (plic.completeRegister contextId) id

variable (devices : List Device) (handle : Nat → BitVec 64 → τ → Except String Unit × τ)

/-- `InterruptManager::delegate_device_interrupt` -/
def InterruptManager.delegateDeviceInterrupt (interruptId : BitVec 64) (t : τ) :
    Except String Unit × τ :=
  DeviceManager.delegateDeviceInterrupt devices handle interruptId t

/-- `handle_external_interrupt`, on the controller and what the devices work on. The trap frame it
returns is the one it gets. -/
def Plic.handleExternalInterrupt (s : σ × τ) : σ × τ :=
  let (nextInterrupt, controller) := plic.nextOn bus DEFAULT_CONTEXT_ID s.1
  match nextInterrupt with
  | none => (controller, s.2)
  | some interrupt =>
    let (_, t) := InterruptManager.delegateDeviceInterrupt devices handle (interrupt.setWidth 64) s.2
    (plic.completeOn bus DEFAULT_CONTEXT_ID interrupt controller, t)

end

/-! ## Interleavings -/

/-- Where the hart is in `handle_external_interrupt`. -/
inductive ServicePhase where
  | idle
  | claimed (interrupt : BitVec 32)
  | delegated (interrupt : BitVec 32)
deriving DecidableEq

/-- The steps of `handle_external_interrupt`, and a signal from a device, which can come between any
two of them. -/
inductive ServiceEvent where
  | signal (id : BitVec 32)
  | claim
  | delegate
  | complete

structure ServiceState (σ τ : Type) where
  controller : σ
  kernel : τ
  phase : ServicePhase

section

variable {σ τ : Type} (bus : PlicBus σ) (signal : σ → BitVec 32 → σ) (plic : Plic)
  (devices : List Device) (handle : Nat → BitVec 64 → τ → Except String Unit × τ)

/-- What an event leaves. While an interrupt is handled no other one is taken. -/
def ServiceState.next (s : ServiceState σ τ) : ServiceEvent → Option (ServiceState σ τ)
  | .signal id => some { s with controller := signal s.controller id }
  | .claim =>
    match s.phase with
    | .idle =>
      let (nextInterrupt, controller) := plic.nextOn bus DEFAULT_CONTEXT_ID s.controller
      match nextInterrupt with
      | none => some { s with controller }
      | some interrupt => some { s with controller, phase := .claimed interrupt }
    | _ => none
  | .delegate =>
    match s.phase with
    | .claimed interrupt =>
      let (_, kernel) :=
        InterruptManager.delegateDeviceInterrupt devices handle (interrupt.setWidth 64) s.kernel
      some { s with kernel, phase := .delegated interrupt }
    | _ => none
  | .complete =>
    match s.phase with
    | .delegated interrupt =>
      let controller := plic.completeOn bus DEFAULT_CONTEXT_ID interrupt s.controller
      some { s with controller, phase := .idle }
    | _ => none

end

end MatteOS.Traps
