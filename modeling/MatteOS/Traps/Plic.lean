import Mathlib.Algebra.GroupWithZero.Nat
import Mathlib.Logic.Function.Basic
import Mathlib.Tactic.Common

/-!
# The interrupt controller

`Plic`, whose registers are words at addresses from a base on, which the device tree gives.
-/

namespace MatteOS.Traps

/-- `Plic::PlicOffsets` -/
inductive PlicOffsets where
  | priority
  | pending
  | interruptEnable
  | priorityThreshold
  | claim
  | complete

def PlicOffsets.value : PlicOffsets → BitVec 64
  | priority => 0x000000
  | pending => 0x001000
  | interruptEnable => 0x002000
  | priorityThreshold => 0x200000
  | claim => 0x200004
  | complete => 0x200004

/-- The words at all addresses. -/
abbrev Registers := BitVec 64 → BitVec 32

/-- The controller: its `m_base`. -/
structure Plic where
  base : BitVec 64

namespace Plic

variable (plic : Plic) (contextId id : BitVec 32) (registers : Registers)

/-! ## Addresses -/

/-- The address of a register behind an offset. -/
def addressOf (offset : PlicOffsets) (index : BitVec 32) : BitVec 64 :=
  plic.base + offset.value + index.setWidth 64

def enableRegister : BitVec 64 :=
  plic.addressOf .interruptEnable (4 * (id / 32)) + (0x80 * contextId).setWidth 64

def priorityRegister : BitVec 64 := plic.addressOf .priority (4 * id)

def thresholdRegister : BitVec 64 := plic.addressOf .priorityThreshold (0x1000 * contextId)

def claimRegister : BitVec 64 := plic.addressOf .claim (0x1000 * contextId)

def completeRegister : BitVec 64 := plic.addressOf .complete (0x1000 * contextId)

def pendingRegister : BitVec 64 := plic.addressOf .pending (4 * (id / 32))

/-- The bit of an interrupt in its register. -/
def actualId : BitVec 32 := 1#32 <<< (id % 32)

/-! ## Operations -/

/-- `Plic::enable` -/
def enable : Registers :=
  let enable := plic.enableRegister contextId id
  Function.update registers enable (registers enable ||| actualId id)

/-- `Plic::disable` -/
def disable : Registers :=
  let enable := plic.enableRegister contextId id
  Function.update registers enable (registers enable &&& ~~~actualId id)

/-- `Plic::set_priority` -/
def setPriority (priority : BitVec 8) : Registers :=
  Function.update registers (plic.priorityRegister id) ((priority &&& 7).setWidth 32)

/-- `Plic::set_threshold` -/
def setThreshold (threshold : BitVec 8) : Registers :=
  Function.update registers (plic.thresholdRegister contextId) ((threshold &&& 7).setWidth 32)

/-- `Plic::next`, without what the device does when its claim register is read. -/
def next : Option (BitVec 32) :=
  let claim := registers (plic.claimRegister contextId)
  if claim = 0 then none else some claim

/-- `Plic::complete` -/
def complete : Registers := Function.update registers (plic.completeRegister contextId) id

/-- `Plic::is_pending` -/
def isPending : Bool := registers (plic.pendingRegister id) &&& actualId id ≠ 0

end Plic

/-! ## Calls -/

/-- A call that configures the controller. -/
inductive PlicCall where
  | enable (contextId id : BitVec 32)
  | disable (contextId id : BitVec 32)
  | setPriority (id : BitVec 32) (priority : BitVec 8)
  | setThreshold (contextId : BitVec 32) (threshold : BitVec 8)

def Plic.call (plic : Plic) (registers : Registers) : PlicCall → Registers
  | .enable contextId id => plic.enable contextId id registers
  | .disable contextId id => plic.disable contextId id registers
  | .setPriority id priority => plic.setPriority id registers priority
  | .setThreshold contextId threshold => plic.setThreshold contextId registers threshold

end MatteOS.Traps
