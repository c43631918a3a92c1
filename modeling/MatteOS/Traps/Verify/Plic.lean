import MatteOS.Lib.Observation
import MatteOS.Lib.Transition
import MatteOS.Traps.Plic

/-!
# Calls of the interrupt controller do not interfere

All registers are at a distance from the base that is less than `2 ^ 26`, and registers of different
kinds, contexts or groups of ids are at different distances. So each call changes one
register, and of an enable register one bit: what it configures is what it sets (`enabled_written`,
`priority_written`, `threshold_written`), and a run of calls leaves what was last set
(`configuration_of_run`).
-/

namespace MatteOS.Traps

open Observation Transition

/-! ## What is configured -/

namespace Plic

/-- The enable bit of a context and an interrupt. -/
def enabled (plic : Plic) (contextId id : BitVec 32) (registers : Registers) : Bool :=
  (registers (plic.enableRegister contextId id)).getLsbD (id.toNat % 32)

def priority (plic : Plic) (id : BitVec 32) (registers : Registers) : Nat :=
  (registers (plic.priorityRegister id)).toNat

def threshold (plic : Plic) (contextId : BitVec 32) (registers : Registers) : Nat :=
  (registers (plic.thresholdRegister contextId)).toNat

end Plic

/-- The contexts of the controller. -/
def IsContext (contextId : BitVec 32) : Prop := contextId.toNat < 15872

/-- The interrupts of the controller. -/
def IsInterrupt (id : BitVec 32) : Prop := id.toNat < 1024

instance : DecidablePred IsContext := fun _ => inferInstanceAs (Decidable (_ < _))

instance : DecidablePred IsInterrupt := fun _ => inferInstanceAs (Decidable (_ < _))

namespace PlicCall

/-- The call is about a context and an interrupt that exist. -/
def Valid : PlicCall → Prop
  | enable contextId id => IsContext contextId ∧ IsInterrupt id
  | disable contextId id => IsContext contextId ∧ IsInterrupt id
  | setPriority id _ => IsInterrupt id
  | setThreshold contextId _ => IsContext contextId

/-- Whether the call enables or disables exactly this pair. -/
def enables (contextId id : BitVec 32) : PlicCall → Option Bool
  | enable contextId' id' => if contextId' = contextId ∧ id' = id then some true else none
  | disable contextId' id' => if contextId' = contextId ∧ id' = id then some false else none
  | _ => none

/-- The low three bits of the priority that the call writes for the interrupt. -/
def prioritizes (id : BitVec 32) : PlicCall → Option Nat
  | setPriority id' priority => if id' = id then some (priority.toNat % 8) else none
  | _ => none

/-- The low three bits of the threshold that the call writes for the context. -/
def limits (contextId : BitVec 32) : PlicCall → Option Nat
  | setThreshold contextId' threshold =>
    if contextId' = contextId then some (threshold.toNat % 8) else none
  | _ => none

end PlicCall

/-! ## Addresses -/

/-- A register of the controller. One of the words of a context enables 32 interrupts. -/
inductive PlicRegister where
  | priority (id : Nat)
  | pending (word : Nat)
  | enable (context word : Nat)
  | threshold (context : Nat)
  | claim (context : Nat)
deriving DecidableEq

namespace PlicRegister

def Valid : PlicRegister → Prop
  | priority id => id < 1024
  | pending word => word < 32
  | enable context word => context < 15872 ∧ word < 32
  | threshold context => context < 15872
  | claim context => context < 15872

/-- How far the register is behind the base. -/
def distance : PlicRegister → Nat
  | priority id => 4 * id
  | pending word => 0x1000 + 4 * word
  | enable context word => 0x2000 + 4 * word + 0x80 * context
  | threshold context => 0x200000 + 0x1000 * context
  | claim context => 0x200004 + 0x1000 * context

theorem distance_lt {r : PlicRegister} (valid : r.Valid) : r.distance < 2 ^ 26 := by
  cases r <;> simp only [Valid] at valid <;> simp only [distance] <;> omega

/-- The regions of the registers do not overlap. -/
theorem distance_inj {r r' : PlicRegister} (valid : r.Valid) (valid' : r'.Valid)
    (same : r.distance = r'.distance) : r = r' := by
  cases r <;> cases r' <;> simp only [Valid] at valid valid' <;> simp only [distance] at same <;>
    simp only [reduceCtorEq, priority.injEq, pending.injEq, enable.injEq, threshold.injEq,
      claim.injEq] <;> omega

/-- The address of a register. -/
def address (plic : Plic) (r : PlicRegister) : BitVec 64 := plic.base + BitVec.ofNat 64 r.distance

theorem address_inj {plic : Plic} {r r' : PlicRegister} (valid : r.Valid) (valid' : r'.Valid) :
    r.address plic = r'.address plic ↔ r = r' := by
  refine ⟨fun same => distance_inj valid valid' ?_, congrArg _⟩
  have offsets := congrArg BitVec.toNat ((BitVec.add_right_inj plic.base).1 same)
  have bound := distance_lt valid
  have bound' := distance_lt valid'
  rwa [BitVec.toNat_ofNat, BitVec.toNat_ofNat, Nat.mod_eq_of_lt (by omega),
    Nat.mod_eq_of_lt (by omega)] at offsets

/-- A write to one register is not seen in another. -/
theorem update_apply {plic : Plic} {r r' : PlicRegister} (valid : r.Valid) (valid' : r'.Valid)
    (registers : Registers) (value : BitVec 32) :
    Function.update registers (r.address plic) value (r'.address plic) =
      if r' = r then value else registers (r'.address plic) := by
  rw [Function.update_apply]
  exact if_congr (address_inj valid' valid) rfl rfl

end PlicRegister

namespace Plic

variable {plic : Plic} {registers : Registers} {contextId contextId' id id' : BitVec 32}

theorem addressOf_eq (offset : PlicOffsets) (index : BitVec 32) :
    plic.addressOf offset index =
      plic.base + BitVec.ofNat 64 (offset.value.toNat + index.toNat) := by
  rw [addressOf, BitVec.add_assoc, BitVec.ofNat_add, BitVec.ofNat_toNat, BitVec.setWidth_eq,
    BitVec.ofNat_toNat]

theorem toNat_stride (stride : Nat) {index : BitVec 32} (fits : stride * index.toNat < 2 ^ 32) :
    (BitVec.ofNat 32 stride * index).toNat = stride * index.toNat := by
  rw [BitVec.toNat_mul, BitVec.toNat_ofNat, Nat.mod_mul_mod, Nat.mod_eq_of_lt fits]

theorem toNat_word (id : BitVec 32) : (4 * (id / 32)).toNat = 4 * (id.toNat / 32) := by
  have quotient : (id / 32).toNat = id.toNat / 32 := BitVec.toNat_udiv
  have bound := id.isLt
  rw [← quotient]
  exact toNat_stride 4 (by omega)

theorem toNat_page (context : IsContext contextId) :
    (0x1000 * contextId).toNat = 0x1000 * contextId.toNat := by
  have bound : contextId.toNat < 15872 := context
  exact toNat_stride 0x1000 (by omega)

theorem enableRegister_eq (context : IsContext contextId) (id : BitVec 32) :
    plic.enableRegister contextId id =
      (PlicRegister.enable contextId.toNat (id.toNat / 32)).address plic := by
  have bound : contextId.toNat < 15872 := context
  have stride : (0x80 * contextId).toNat = 0x80 * contextId.toNat := toNat_stride 0x80 (by omega)
  rw [enableRegister, addressOf_eq, toNat_word, BitVec.add_assoc, ← BitVec.ofNat_toNat, stride,
    BitVec.ofNat_add_ofNat]
  rfl

theorem priorityRegister_eq (interrupt : IsInterrupt id) :
    plic.priorityRegister id = (PlicRegister.priority id.toNat).address plic := by
  have bound : id.toNat < 1024 := interrupt
  have stride : (4 * id).toNat = 4 * id.toNat := toNat_stride 4 (by omega)
  rw [priorityRegister, addressOf_eq, stride]
  exact congrArg (plic.base + BitVec.ofNat 64 ·) (Nat.zero_add _)

theorem pendingRegister_eq (id : BitVec 32) :
    plic.pendingRegister id = (PlicRegister.pending (id.toNat / 32)).address plic := by
  rw [pendingRegister, addressOf_eq, toNat_word]
  rfl

theorem thresholdRegister_eq (context : IsContext contextId) :
    plic.thresholdRegister contextId = (PlicRegister.threshold contextId.toNat).address plic := by
  rw [thresholdRegister, addressOf_eq, toNat_page context]
  rfl

theorem claimRegister_eq (context : IsContext contextId) :
    plic.claimRegister contextId = (PlicRegister.claim contextId.toNat).address plic := by
  rw [claimRegister, addressOf_eq, toNat_page context]
  rfl

/-! ## Bits -/

theorem getLsbD_actualId (id : BitVec 32) {k : Nat} (bit : k < 32) :
    (actualId id).getLsbD k = decide (k = id.toNat % 32) := by
  have rest : (id % 32).toNat = id.toNat % 32 := BitVec.toNat_umod
  rw [actualId, BitVec.shiftLeft_eq', rest, BitVec.getLsbD_shiftLeft, BitVec.getLsbD_one]
  simp only [bit, decide_true, Bool.true_and, Nat.zero_lt_succ, ← decide_not, ← Bool.decide_and]
  exact decide_eq_decide.2 (by omega)

theorem valid_enable (context : IsContext contextId) (interrupt : IsInterrupt id) :
    (PlicRegister.enable contextId.toNat (id.toNat / 32)).Valid :=
  ⟨context, Nat.div_lt_of_lt_mul interrupt⟩

/-- A change of one bit of an enable register. -/
theorem enabled_update (context : IsContext contextId) (context' : IsContext contextId')
    (interrupt : IsInterrupt id) (interrupt' : IsInterrupt id') {value : Bool}
    {word : BitVec 32}
    (bit : ∀ k < 32, word.getLsbD k = if k = id'.toNat % 32 then value
      else (registers (plic.enableRegister contextId' id')).getLsbD k) :
    plic.enabled contextId id
        (Function.update registers (plic.enableRegister contextId' id') word) =
      if contextId' = contextId ∧ id' = id then value
      else plic.enabled contextId id registers := by
  rw [enabled, enabled]
  rw [enableRegister_eq context', enableRegister_eq context] at *
  rw [PlicRegister.update_apply (valid_enable context' interrupt') (valid_enable context interrupt)]
  by_cases same : PlicRegister.enable contextId.toNat (id.toNat / 32) =
      PlicRegister.enable contextId'.toNat (id'.toNat / 32)
  · obtain ⟨contexts, words⟩ := PlicRegister.enable.inj same
    rw [if_pos same, bit _ (Nat.mod_lt _ (by omega)), contexts, words]
    refine if_congr ?_ rfl rfl
    rw [← BitVec.toNat_inj, ← BitVec.toNat_inj]
    omega
  · rw [if_neg same, if_neg]
    rintro ⟨rfl, rfl⟩
    exact same rfl

end Plic

/-! ## What a call sets -/

/-- The register that the call changes. -/
def PlicCall.register : PlicCall → PlicRegister
  | enable contextId id => .enable contextId.toNat (id.toNat / 32)
  | disable contextId id => .enable contextId.toNat (id.toNat / 32)
  | setPriority id _ => .priority id.toNat
  | setThreshold contextId _ => .threshold contextId.toNat

namespace Plic

variable {plic : Plic} {contextId id : BitVec 32}

/-- **Frame.** A call leaves all other registers alone. -/
theorem call_apply_of_ne (plic : Plic) {call : PlicCall} (valid : call.Valid) {r : PlicRegister}
    (existing : r.Valid) (other : r ≠ call.register) (registers : Registers) :
    plic.call registers call (r.address plic) = registers (r.address plic) := by
  cases call with
  | enable contextId id =>
    rw [Plic.call, enable, enableRegister_eq valid.1,
      PlicRegister.update_apply (valid_enable valid.1 valid.2) existing]
    exact if_neg other
  | disable contextId id =>
    rw [Plic.call, disable, enableRegister_eq valid.1,
      PlicRegister.update_apply (valid_enable valid.1 valid.2) existing]
    exact if_neg other
  | setPriority id priority =>
    rw [Plic.call, setPriority, priorityRegister_eq valid,
      PlicRegister.update_apply (r := .priority id.toNat) valid existing]
    exact if_neg other
  | setThreshold contextId threshold =>
    rw [Plic.call, setThreshold, thresholdRegister_eq valid,
      PlicRegister.update_apply (r := .threshold contextId.toNat) valid existing]
    exact if_neg other

theorem enabled_written (context : IsContext contextId) (interrupt : IsInterrupt id) :
    Written plic.call PlicCall.Valid (plic.enabled contextId id)
      (PlicCall.enables contextId id) := by
  intro registers call valid
  have frame := call_apply_of_ne plic valid (valid_enable context interrupt)
  cases call with
  | enable contextId' id' =>
    rw [Plic.call, enable, PlicCall.enables, apply_ite (Option.getD · _)]
    refine enabled_update context valid.1 interrupt valid.2 fun k small => ?_
    rw [BitVec.getLsbD_or, getLsbD_actualId id' small]
    split <;> simp [*]
  | disable contextId' id' =>
    rw [Plic.call, disable, PlicCall.enables, apply_ite (Option.getD · _)]
    refine enabled_update context valid.1 interrupt valid.2 fun k small => ?_
    rw [BitVec.getLsbD_and, BitVec.getLsbD_not, getLsbD_actualId id' small]
    split <;> simp [*]
  | setPriority id' priority =>
    rw [enabled, enabled, enableRegister_eq context, frame PlicRegister.noConfusion]
    rfl
  | setThreshold contextId' threshold =>
    rw [enabled, enabled, enableRegister_eq context, frame PlicRegister.noConfusion]
    rfl

/-- The low three bits of a byte, as a word. -/
theorem toNat_lowBits (value : BitVec 8) :
    ((value &&& 7).setWidth 32).toNat = value.toNat % 8 := by
  have bits : (value &&& 7).toNat = value.toNat % 8 := Nat.and_two_pow_sub_one_eq_mod _ 3
  rw [BitVec.toNat_setWidth, bits, Nat.mod_eq_of_lt (by omega)]

theorem priority_written (interrupt : IsInterrupt id) :
    Written plic.call PlicCall.Valid (plic.priority id) (PlicCall.prioritizes id) := by
  intro registers call valid
  have frame := call_apply_of_ne plic (r := .priority id.toNat) valid interrupt
  rw [priority, priority, priorityRegister_eq interrupt]
  cases call with
  | enable contextId' id' =>
    rw [frame PlicRegister.noConfusion]
    rfl
  | disable contextId' id' =>
    rw [frame PlicRegister.noConfusion]
    rfl
  | setPriority id' value =>
    rw [PlicCall.prioritizes]
    split
    · rename_i same
      rw [Plic.call, setPriority, same, priorityRegister_eq interrupt, Function.update_self,
        toNat_lowBits]
      rfl
    · rename_i other
      rw [frame fun same => other (BitVec.eq_of_toNat_eq (PlicRegister.priority.inj same).symm)]
      rfl
  | setThreshold contextId' value =>
    rw [frame PlicRegister.noConfusion]
    rfl

theorem threshold_written (context : IsContext contextId) :
    Written plic.call PlicCall.Valid (plic.threshold contextId)
      (PlicCall.limits contextId) := by
  intro registers call valid
  have frame := call_apply_of_ne plic (r := .threshold contextId.toNat) valid context
  rw [threshold, threshold, thresholdRegister_eq context]
  cases call with
  | enable contextId' id' =>
    rw [frame PlicRegister.noConfusion]
    rfl
  | disable contextId' id' =>
    rw [frame PlicRegister.noConfusion]
    rfl
  | setPriority id' value =>
    rw [frame PlicRegister.noConfusion]
    rfl
  | setThreshold contextId' value =>
    rw [PlicCall.limits]
    split
    · rename_i same
      rw [Plic.call, setThreshold, same, thresholdRegister_eq context, Function.update_self,
        toNat_lowBits]
      rfl
    · rename_i other
      rw [frame fun same => other (BitVec.eq_of_toNat_eq (PlicRegister.threshold.inj same).symm)]
      rfl

/-! ## Runs -/

/-- The call leaves alone every bit and register that it does not set. -/
structure Leaves (plic : Plic) (registers : Registers) (call : PlicCall) : Prop where
  enabled : ∀ contextId id, IsContext contextId → IsInterrupt id →
    call.enables contextId id = none →
    plic.enabled contextId id (plic.call registers call) = plic.enabled contextId id registers
  priority : ∀ id, IsInterrupt id → call.prioritizes id = none →
    plic.priority id (plic.call registers call) = plic.priority id registers
  threshold : ∀ contextId, IsContext contextId → call.limits contextId = none →
    plic.threshold contextId (plic.call registers call) = plic.threshold contextId registers
  pending : ∀ id, IsInterrupt id →
    plic.isPending id (plic.call registers call) = plic.isPending id registers
  next : ∀ contextId, IsContext contextId →
    plic.next contextId (plic.call registers call) = plic.next contextId registers

theorem leaves {call : PlicCall} (valid : call.Valid) (registers : Registers) :
    plic.Leaves registers call where
  enabled _ _ context interrupt := (enabled_written context interrupt).unchanged valid
  priority _ interrupt := (priority_written interrupt).unchanged valid
  threshold _ context := (threshold_written context).unchanged valid
  pending id interrupt := by
    have group : id.toNat < 1024 := interrupt
    rw [isPending, isPending, pendingRegister_eq, call_apply_of_ne plic valid]
    · exact Nat.div_lt_of_lt_mul group
    · cases call <;> exact PlicRegister.noConfusion
  next contextId context := by
    rw [next, next, claimRegister_eq context, call_apply_of_ne plic valid]
    · exact context
    · cases call <;> exact PlicRegister.noConfusion

/-- **Calls do not interfere.** After any run an enable bit is what the last call for exactly its
pair made it, and priorities and thresholds are the low three bits of what was last written; each
call leaves everything else alone. -/
theorem configuration_of_run (plic : Plic) (registers : Registers) (calls : List PlicCall)
    (valid : ∀ call ∈ calls, call.Valid) :
    (∀ contextId id, IsContext contextId → IsInterrupt id →
      plic.enabled contextId id (calls.foldl plic.call registers) =
        last (PlicCall.enables contextId id) (plic.enabled contextId id registers) calls) ∧
    (∀ id, IsInterrupt id →
      plic.priority id (calls.foldl plic.call registers) =
        last (PlicCall.prioritizes id) (plic.priority id registers) calls) ∧
    (∀ contextId, IsContext contextId →
      plic.threshold contextId (calls.foldl plic.call registers) =
        last (PlicCall.limits contextId) (plic.threshold contextId registers) calls) ∧
    Along plic.call plic.Leaves registers calls := by
  refine ⟨fun contextId id context interrupt => ?_, fun id interrupt => ?_,
    fun contextId context => ?_, ?_⟩
  · exact (enabled_written context interrupt).foldl valid registers
  · exact (priority_written interrupt).foldl valid registers
  · exact (threshold_written context).foldl valid registers
  · exact Along.of_forall_mem (fun call mem => leaves (valid call mem)) registers

/-- The console's interrupt is enabled for the second context, with a priority of which the low bits
count, and another interrupt is disabled in the same register. -/
theorem configuration_of_run_console :
    let plic : Plic := ⟨0xC000000⟩
    let registers := [PlicCall.enable 1 10, .setPriority 10 9, .setThreshold 1 0,
      .disable 1 11].foldl plic.call fun _ => 0
    plic.enabled 1 10 registers = true ∧ plic.priority 10 registers = 1 ∧
      plic.threshold 1 registers = 0 := by
  intro plic registers
  obtain ⟨bits, priorities, thresholds, -⟩ := configuration_of_run plic (fun _ => 0)
    [.enable 1 10, .setPriority 10 9, .setThreshold 1 0, .disable 1 11]
    (by simp [PlicCall.Valid, IsContext, IsInterrupt])
  refine ⟨(bits 1 10 ?_ ?_).trans ?_, (priorities 10 ?_).trans ?_, (thresholds 1 ?_).trans ?_⟩ <;>
    decide

end Plic

end MatteOS.Traps
