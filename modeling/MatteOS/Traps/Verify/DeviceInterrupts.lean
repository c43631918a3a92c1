import Mathlib.Data.List.MinMax
import MatteOS.Lib.Gateway
import MatteOS.Traps.DeviceInterrupts
import MatteOS.Traps.Verify.Plic

/-!
# Every forwarded interrupt reaches its device once

The specification of the interrupt controller, whose gateways forward one signal of a source at a
time, and what the kernel makes of signals that come between any two of its steps: a signal that is
forwarded stays with the gateway until it is claimed, a claimed one is handled by the first device
that lists it, and none is handled twice (`interrupts_handled_once`). The interrupts that are pending
are served in ascending order (`pending_served_in_order`).
-/

namespace MatteOS.Traps

open Devices Gateway Observation Transition

/-! ## What the kernel configures -/

/-- A device lists the interrupt. -/
def Listed (devices : List Device) (id : BitVec 32) : Prop :=
  ∃ d ∈ devices, id.setWidth 64 ∈ d.interrupts

instance (devices : List Device) (id : BitVec 32) : Decidable (Listed devices id) :=
  inferInstanceAs (Decidable (∃ d ∈ devices, _))

/-- The controller has the ids that the devices list. -/
def KnownInterrupts (devices : List Device) : Prop :=
  ∀ d ∈ devices, ∀ i ∈ d.interrupts, i.toNat < 1024

/-- The listed interrupts, and no others, can be claimed, all with one priority. -/
structure Configured (plic : Plic) (devices : List Device) (registers : Registers) : Prop where
  enabled : ∀ id, IsInterrupt id →
    plic.enabled DEFAULT_CONTEXT_ID id registers = decide (Listed devices id)
  priority : ∀ id, IsInterrupt id → Listed devices id → plic.priority id registers = 1
  threshold : plic.threshold DEFAULT_CONTEXT_ID registers = 0

section Configuration

variable {plic : Plic} {devices : List Device}

/-- The calls for one device. -/
def Device.enableCalls (device : Device) : List PlicCall :=
  device.interrupts.flatMap fun interruptId =>
    [.enable DEFAULT_CONTEXT_ID (interruptId.setWidth 32), .setPriority (interruptId.setWidth 32) 1]

theorem setUp_eq (plic : Plic) (devices : List Device) (registers : Registers) :
    InterruptManager.setUp plic devices registers =
      (.setThreshold DEFAULT_CONTEXT_ID 0 :: devices.flatMap Device.enableCalls).foldl plic.call
        registers := by
  rw [List.foldl_cons, List.foldl_flatMap]
  simp only [Device.enableCalls, List.foldl_flatMap]
  rfl

theorem mem_enableCalls {call : PlicCall} :
    call ∈ devices.flatMap Device.enableCalls ↔ ∃ d ∈ devices, ∃ i ∈ d.interrupts,
      call = .enable DEFAULT_CONTEXT_ID (i.setWidth 32) ∨ call = .setPriority (i.setWidth 32) 1 := by
  simp [Device.enableCalls]

theorem isInterrupt_setWidth {i : BitVec 64} (known : i.toNat < 1024) :
    IsInterrupt (i.setWidth 32) := by
  rw [IsInterrupt, BitVec.toNat_setWidth, Nat.mod_eq_of_lt (by omega)]
  exact known

/-- The id of an interrupt that the controller has is not cut. -/
theorem setWidth_eq_iff {i : BitVec 64} (known : i.toNat < 1024) (id : BitVec 32) :
    i.setWidth 32 = id ↔ i = id.setWidth 64 := by
  constructor
  · rintro rfl
    apply BitVec.eq_of_toNat_eq
    rw [BitVec.toNat_setWidth, BitVec.toNat_setWidth, Nat.mod_eq_of_lt (by omega),
      Nat.mod_eq_of_lt (by omega)]
  · rintro rfl
    apply BitVec.eq_of_toNat_eq
    have bound := id.isLt
    rw [BitVec.toNat_setWidth, BitVec.toNat_setWidth, Nat.mod_eq_of_lt (by omega),
      Nat.mod_eq_of_lt (by omega)]

theorem defaultContext : IsContext DEFAULT_CONTEXT_ID := by decide

theorem setUp_valid (known : KnownInterrupts devices) :
    ∀ call ∈ .setThreshold DEFAULT_CONTEXT_ID 0 :: devices.flatMap Device.enableCalls,
      PlicCall.Valid call := by
  intro call mem
  rcases List.mem_cons.1 mem with rfl | mem
  · exact defaultContext
  · obtain ⟨d, device, i, listed, rfl | rfl⟩ := mem_enableCalls.1 mem
    · exact ⟨defaultContext, isInterrupt_setWidth (known d device i listed)⟩
    · exact isInterrupt_setWidth (known d device i listed)

/-- The calls enable the listed interrupts only. -/
theorem enables_setUp (known : KnownInterrupts devices) (id : BitVec 32) (before : Bool) :
    last (PlicCall.enables DEFAULT_CONTEXT_ID id) before (devices.flatMap Device.enableCalls) =
      (before || decide (Listed devices id)) := by
  by_cases listed : Listed devices id
  · rw [decide_eq_true listed, Bool.or_true]
    obtain ⟨d, device, mem⟩ := listed
    refine last_of_some (fun call mem value written => ?_)
      ⟨.enable DEFAULT_CONTEXT_ID id, mem_enableCalls.2 ⟨d, device, _, mem, .inl ?_⟩, ?_⟩ before
    · obtain ⟨_, _, i, _, rfl | rfl⟩ := mem_enableCalls.1 mem
      · rw [PlicCall.enables] at written
        split_ifs at written
        exact (Option.some.inj written).symm
      · cases written
    · rw [(setWidth_eq_iff (known d device _ mem) id).2 rfl]
    · rw [PlicCall.enables, if_pos ⟨rfl, rfl⟩]
      rfl
  · rw [decide_eq_false listed, Bool.or_false]
    refine last_of_none (fun call mem => ?_) before
    obtain ⟨d, device, i, inside, rfl | rfl⟩ := mem_enableCalls.1 mem
    · refine if_neg fun same => listed ⟨d, device, ?_⟩
      rwa [← (setWidth_eq_iff (known d device i inside) id).1 same.2]
    · rfl

theorem prioritizes_setUp (known : KnownInterrupts devices) {id : BitVec 32}
    (listed : Listed devices id) (before : Nat) :
    last (PlicCall.prioritizes id) before (devices.flatMap Device.enableCalls) = 1 := by
  obtain ⟨d, device, mem⟩ := listed
  refine last_of_some (fun call mem value written => ?_)
    ⟨.setPriority id 1, mem_enableCalls.2 ⟨d, device, _, mem, .inr ?_⟩, ?_⟩ before
  · obtain ⟨_, _, i, _, rfl | rfl⟩ := mem_enableCalls.1 mem
    · cases written
    · rw [PlicCall.prioritizes] at written
      split_ifs at written
      exact (Option.some.inj written).symm
  · rw [(setWidth_eq_iff (known d device _ mem) id).2 rfl]
  · rw [PlicCall.prioritizes, if_pos rfl]
    rfl

theorem limits_setUp (devices : List Device) (before : Nat) :
    last (PlicCall.limits DEFAULT_CONTEXT_ID) before (devices.flatMap Device.enableCalls) = before := by
  refine last_of_none (fun call mem => ?_) before
  obtain ⟨_, _, i, _, rfl | rfl⟩ := mem_enableCalls.1 mem <;> rfl

/-- **Set-up.** From registers that enable nothing the kernel enables what the devices list. -/
theorem configured_setUp (known : KnownInterrupts devices) {registers : Registers}
    (off : ∀ id, IsInterrupt id → plic.enabled DEFAULT_CONTEXT_ID id registers = false) :
    Configured plic devices (InterruptManager.setUp plic devices registers) := by
  rw [setUp_eq]
  have valid := setUp_valid known
  refine ⟨fun id interrupt => ?_, fun id interrupt listed => ?_, ?_⟩
  · rw [(Plic.enabled_written defaultContext interrupt).foldl valid, off id interrupt, last_cons,
      enables_setUp known]
    exact Bool.false_or _
  · rw [(Plic.priority_written interrupt).foldl valid, last_cons, prioritizes_setUp known listed]
  · rw [(Plic.threshold_written defaultContext).foldl valid, last_cons, limits_setUp]
    rfl

end Configuration

/-! ## The controller -/

/-- The interrupt controller: its registers and the lines behind its gateways. -/
structure PlicState where
  registers : Registers
  lines : Lines (BitVec 32)

namespace PlicState

variable (plic : Plic) (contextId : BitVec 32) (hw : PlicState)

/-- The interrupts that the context can claim, in ascending order. A priority of zero is for
interrupts that never come. -/
def candidates : List (BitVec 32) :=
  ((List.range' 1 1023).map (BitVec.ofNat 32)).filter fun id =>
    hw.lines.pending id && plic.enabled contextId id hw.registers &&
      decide (0 < plic.priority id hw.registers)

/-- A read of the claim register gives a pending interrupt of the highest priority, of these the one
with the lowest id, and zero if there is none. -/
def claim : BitVec 32 × PlicState :=
  match (hw.candidates plic contextId).argmax fun id => plic.priority id hw.registers with
  | none => (0, hw)
  | some id => (id, { hw with lines := hw.lines.claim id })

/-- A write to it completes the interrupt, if that is enabled. -/
def complete (id : BitVec 32) : PlicState :=
  if plic.enabled contextId id hw.registers then { hw with lines := hw.lines.complete id } else hw

/-- The signal of a source arrives at its gateway. -/
def signal (id : BitVec 32) : PlicState := { hw with lines := hw.lines.signal id }

end PlicState

/-- The controller is on the bus, and `view` is its state. -/
structure PlicAttached {σ : Type} (bus : PlicBus σ) (plic : Plic) (signal : σ → BitVec 32 → σ)
    (view : σ → PlicState) : Prop where
  claim : ∀ s, let answer := bus.load s (plic.claimRegister DEFAULT_CONTEXT_ID)
    (answer.1, view answer.2) = (view s).claim plic DEFAULT_CONTEXT_ID
  complete : ∀ s id, view (bus.store s (plic.completeRegister DEFAULT_CONTEXT_ID) id) =
    (view s).complete plic DEFAULT_CONTEXT_ID id
  signal : ∀ s id, view (signal s id) = (view s).signal id

section Claims

variable {plic : Plic} {devices : List Device} {hw : PlicState}

/-- All interrupts, in ascending order. -/
theorem ids_sorted : ((List.range' 1 1023).map (BitVec.ofNat 32)).Pairwise (· < ·) := by
  rw [List.pairwise_map]
  refine List.Pairwise.imp_of_mem (fun {i j} mem mem' lt => ?_) (List.pairwise_lt_range' 1)
  rw [List.mem_range'_1] at mem mem'
  rw [BitVec.lt_def, BitVec.toNat_ofNat, BitVec.toNat_ofNat, Nat.mod_eq_of_lt (by omega),
    Nat.mod_eq_of_lt (by omega)]
  exact lt

theorem mem_ids {id : BitVec 32} :
    id ∈ (List.range' 1 1023).map (BitVec.ofNat 32) ↔ id ≠ 0 ∧ IsInterrupt id := by
  rw [List.mem_map]
  constructor
  · rintro ⟨k, mem, rfl⟩
    rw [List.mem_range'_1] at mem
    rw [IsInterrupt, BitVec.toNat_ofNat, Nat.mod_eq_of_lt (by omega)]
    refine ⟨fun zero => ?_, mem.2⟩
    have value := congrArg BitVec.toNat zero
    rw [BitVec.toNat_ofNat, Nat.mod_eq_of_lt (by omega), BitVec.ofNat_eq_ofNat, BitVec.toNat_zero]
      at value
    omega
  · rintro ⟨nonzero, interrupt⟩
    have pos : id.toNat ≠ 0 := fun zero => nonzero (BitVec.eq_of_toNat_eq zero)
    have bound : id.toNat < 1024 := interrupt
    refine ⟨id.toNat, ?_, BitVec.eq_of_toNat_eq (Nat.mod_eq_of_lt id.isLt)⟩
    rw [List.mem_range'_1]
    omega

theorem mem_candidates (configured : Configured plic devices hw.registers) {id : BitVec 32} :
    id ∈ hw.candidates plic DEFAULT_CONTEXT_ID ↔
      id ≠ 0 ∧ IsInterrupt id ∧ hw.lines.pending id = true ∧ Listed devices id := by
  rw [PlicState.candidates, List.mem_filter, mem_ids, and_assoc]
  refine and_congr_right fun _ => and_congr_right fun interrupt => ?_
  rw [Bool.and_eq_true, Bool.and_eq_true, configured.enabled id interrupt, decide_eq_true_iff,
    decide_eq_true_iff, and_assoc]
  refine and_congr_right fun _ => and_iff_left_of_imp fun listed => ?_
  rw [configured.priority id interrupt listed]
  exact Nat.one_pos

theorem candidates_sorted (plic : Plic) (contextId : BitVec 32) (hw : PlicState) :
    (hw.candidates plic contextId).Pairwise (· < ·) := ids_sorted.filter _

theorem argmax_of_const {α : Type} {f : α → Nat} {c : Nat} {l : List α} (same : ∀ x ∈ l, f x = c) :
    l.argmax f = l.head? := by
  cases l with
  | nil => rfl
  | cons x l =>
    rw [List.argmax_cons]
    cases best : l.argmax f with
    | none => rfl
    | some y =>
      have mem := List.argmax_mem best
      have equal := (same x List.mem_cons_self).trans (same y (List.mem_cons_of_mem x mem)).symm
      exact if_neg (by rw [equal]; exact lt_irrefl _)

/-- Of the interrupts that the kernel configured the one with the lowest id comes first. -/
theorem claim_eq (configured : Configured plic devices hw.registers) :
    hw.claim plic DEFAULT_CONTEXT_ID =
      match hw.candidates plic DEFAULT_CONTEXT_ID with
      | [] => (0, hw)
      | id :: _ => (id, { hw with lines := hw.lines.claim id }) := by
  have same : ∀ id ∈ hw.candidates plic DEFAULT_CONTEXT_ID, plic.priority id hw.registers = 1 := by
    intro id mem
    obtain ⟨-, interrupt, -, listed⟩ := (mem_candidates configured).1 mem
    exact configured.priority id interrupt listed
  rw [PlicState.claim, argmax_of_const same]
  cases hw.candidates plic DEFAULT_CONTEXT_ID <;> rfl

/-- The interrupt that is claimed is a candidate no more. -/
theorem candidates_claim {id : BitVec 32} {ids : List (BitVec 32)}
    (first : hw.candidates plic DEFAULT_CONTEXT_ID = id :: ids) :
    ({ hw with lines := hw.lines.claim id } : PlicState).candidates plic DEFAULT_CONTEXT_ID = ids := by
  have sorted := candidates_sorted plic DEFAULT_CONTEXT_ID hw
  rw [first, List.pairwise_cons] at sorted
  have rest : ({ hw with lines := hw.lines.claim id } : PlicState).candidates plic DEFAULT_CONTEXT_ID =
      (hw.candidates plic DEFAULT_CONTEXT_ID).filter (fun i => decide (i ≠ id)) := by
    rw [PlicState.candidates, PlicState.candidates, List.filter_filter]
    refine List.filter_congr fun i _ => ?_
    by_cases same : i = id
    · subst same
      simp [Lines.claim]
    · simp [Lines.claim, same]
  rw [rest, first, List.filter_cons_of_neg (by simp), List.filter_eq_self]
  intro i mem
  exact decide_eq_true fun same => BitVec.lt_irrefl id (same ▸ sorted.1 i mem)

end Claims

/-! ## One interrupt -/

section Service

variable {σ τ : Type} {bus : PlicBus σ} {raise : σ → BitVec 32 → σ} {view : σ → PlicState}
  {plic : Plic} {devices : List Device} {handle : Nat → BitVec 64 → τ → Except String Unit × τ}

/-- Calls of handlers: the device and the interrupt. -/
abbrev HandlerCalls := List (Nat × BitVec 64)

/-- The handlers, with a list of their calls. -/
def logged (handle : Nat → BitVec 64 → τ → Except String Unit × τ) (device : Nat)
    (interruptId : BitVec 64) (t : HandlerCalls × τ) : Except String Unit × (HandlerCalls × τ) :=
  let (result, t') := handle device interruptId t.2
  (result, t.1 ++ [(device, interruptId)], t')

/-- The device whose handler is called for an interrupt: the first that lists it. -/
def responsible (devices : List Device) (id : BitVec 32) : Option Nat :=
  devices.findIdx? (·.handlesInterrupt (id.setWidth 64))

theorem responsible_isSome {id : BitVec 32} (listed : Listed devices id) :
    (responsible devices id).isSome := by
  obtain ⟨d, device, mem⟩ := listed
  rw [responsible, List.findIdx?_isSome, List.any_eq_true]
  refine ⟨d, device, ?_⟩
  rw [Device.handlesInterrupt, List.find?_isSome]
  exact ⟨_, mem, beq_self_eq_true _⟩

theorem delegate_logged {id : BitVec 32} {d : Nat} (found : responsible devices id = some d)
    (t : HandlerCalls × τ) :
    (InterruptManager.delegateDeviceInterrupt devices (logged handle) (id.setWidth 64) t).2 =
      (t.1 ++ [(d, id.setWidth 64)], (handle d (id.setWidth 64) t.2).2) := by
  unfold responsible at found
  rw [InterruptManager.delegateDeviceInterrupt, DeviceManager.delegateDeviceInterrupt, found]
  rfl

theorem nextOn_none (attached : PlicAttached bus plic raise view) {s : σ}
    (configured : Configured plic devices (view s).registers)
    (nothing : (view s).candidates plic DEFAULT_CONTEXT_ID = []) :
    ∃ s', plic.nextOn bus DEFAULT_CONTEXT_ID s = (none, s') ∧ view s' = view s := by
  have answer := attached.claim s
  rw [claim_eq configured, nothing] at answer
  obtain ⟨zero, same⟩ := Prod.mk.inj answer
  refine ⟨_, ?_, same⟩
  rw [Plic.nextOn, if_pos zero]

theorem nextOn_some (attached : PlicAttached bus plic raise view) {s : σ}
    (configured : Configured plic devices (view s).registers) {id : BitVec 32}
    {ids : List (BitVec 32)} (first : (view s).candidates plic DEFAULT_CONTEXT_ID = id :: ids) :
    ∃ s', plic.nextOn bus DEFAULT_CONTEXT_ID s = (some id, s') ∧
      view s' = { view s with lines := (view s).lines.claim id } := by
  have answer := attached.claim s
  rw [claim_eq configured, first] at answer
  obtain ⟨claim, claimed⟩ := Prod.mk.inj answer
  have mem : id ∈ (view s).candidates plic DEFAULT_CONTEXT_ID := by
    rw [first]
    exact List.mem_cons_self
  have nonzero := ((mem_candidates configured).1 mem).1
  refine ⟨_, ?_, claimed⟩
  rw [Plic.nextOn, claim, if_neg nonzero]

theorem view_of_nextOn_none (attached : PlicAttached bus plic raise view) {s c : σ}
    (configured : Configured plic devices (view s).registers)
    (answer : plic.nextOn bus DEFAULT_CONTEXT_ID s = (none, c)) : view c = view s := by
  cases candidates : (view s).candidates plic DEFAULT_CONTEXT_ID with
  | nil =>
    obtain ⟨s', answer', same⟩ := nextOn_none attached configured candidates
    rw [answer] at answer'
    cases answer'
    exact same
  | cons id ids =>
    obtain ⟨s', answer', -⟩ := nextOn_some attached configured candidates
    rw [answer] at answer'
    cases answer'

/-- What is claimed was the first candidate. -/
theorem view_of_nextOn_some (attached : PlicAttached bus plic raise view) {s c : σ}
    (configured : Configured plic devices (view s).registers) {id : BitVec 32}
    (answer : plic.nextOn bus DEFAULT_CONTEXT_ID s = (some id, c)) :
    (∃ ids, (view s).candidates plic DEFAULT_CONTEXT_ID = id :: ids) ∧
      view c = { view s with lines := (view s).lines.claim id } := by
  cases candidates : (view s).candidates plic DEFAULT_CONTEXT_ID with
  | nil =>
    obtain ⟨s', answer', -⟩ := nextOn_none attached configured candidates
    rw [answer] at answer'
    cases answer'
  | cons first ids =>
    obtain ⟨s', answer', claimed⟩ := nextOn_some attached configured candidates
    rw [answer] at answer'
    cases answer'
    exact ⟨⟨ids, rfl⟩, claimed⟩

theorem completeOn_view (attached : PlicAttached bus plic raise view) {s : σ}
    (configured : Configured plic devices (view s).registers) {id : BitVec 32}
    (interrupt : IsInterrupt id) (listed : Listed devices id) :
    view (plic.completeOn bus DEFAULT_CONTEXT_ID id s) =
      { view s with lines := (view s).lines.complete id } := by
  rw [Plic.completeOn, attached.complete, PlicState.complete, configured.enabled id interrupt,
    decide_eq_true listed, if_pos rfl]

/-! ## Signals between all steps -/

/-- What an event can do. -/
theorem next_cases {s s' : ServiceState σ τ} {e : ServiceEvent}
    (next : s.next bus raise plic devices handle e = some s') :
    (∃ id, e = .signal id ∧ s' = { s with controller := raise s.controller id }) ∨
    (∃ c, e = .claim ∧ s.phase = .idle ∧
      plic.nextOn bus DEFAULT_CONTEXT_ID s.controller = (none, c) ∧ s' = { s with controller := c }) ∨
    (∃ id c, e = .claim ∧ s.phase = .idle ∧
      plic.nextOn bus DEFAULT_CONTEXT_ID s.controller = (some id, c) ∧
      s' = { s with controller := c, phase := .claimed id }) ∨
    (∃ id, e = .delegate ∧ s.phase = .claimed id ∧ s' = { s with
      kernel := (InterruptManager.delegateDeviceInterrupt devices handle (id.setWidth 64) s.kernel).2
      phase := .delegated id }) ∨
    ∃ id, e = .complete ∧ s.phase = .delegated id ∧ s' = { s with
      controller := plic.completeOn bus DEFAULT_CONTEXT_ID id s.controller
      phase := .idle } := by
  obtain ⟨controller, kernel, phase⟩ := s
  cases e with
  | signal id => exact .inl ⟨id, rfl, (Option.some.inj next).symm⟩
  | claim =>
    cases phase with
    | idle =>
      cases answer : plic.nextOn bus DEFAULT_CONTEXT_ID controller with
      | mk nextInterrupt c =>
        simp only [ServiceState.next, answer] at next
        cases nextInterrupt with
        | none => exact .inr (.inl ⟨c, rfl, rfl, rfl, (Option.some.inj next).symm⟩)
        | some id => exact .inr (.inr (.inl ⟨id, c, rfl, rfl, rfl, (Option.some.inj next).symm⟩))
    | claimed id => cases next
    | delegated id => cases next
  | delegate =>
    cases phase with
    | claimed id => exact .inr (.inr (.inr (.inl ⟨id, rfl, rfl, (Option.some.inj next).symm⟩)))
    | idle => cases next
    | delegated id => cases next
  | complete =>
    cases phase with
    | delegated id => exact .inr (.inr (.inr (.inr ⟨id, rfl, rfl, (Option.some.inj next).symm⟩)))
    | idle => cases next
    | claimed id => cases next

/-- The state, with the handler calls and the signals that the gateways forwarded. -/
structure Observed (σ τ : Type) where
  state : ServiceState σ (HandlerCalls × τ)
  forwarded : List (BitVec 32)

namespace Observed

def controller (o : Observed σ τ) : σ := o.state.controller

def calls (o : Observed σ τ) : HandlerCalls := o.state.kernel.1

/-- How often a handler was called for the interrupt. -/
def handled (o : Observed σ τ) (id : BitVec 32) : Nat :=
  o.calls.countP fun call => decide (call.2 = id.setWidth 64)

variable (bus raise view plic devices handle)

/-- The next state, and a signal that its gateway forwards. -/
def Step (o : Observed σ τ) (e : ServiceEvent) (o' : Observed σ τ) : Prop :=
  o.state.next bus raise plic devices (logged handle) e = some o'.state ∧
    o'.forwarded = match e with
      | .signal id =>
        if (view o.controller).lines.forwards id then o.forwarded ++ [id] else o.forwarded
      | _ => o.forwarded

variable {bus raise view plic devices handle}

/-- Each signal is with the gateway, with the handler or handled. -/
structure Inv (view : σ → PlicState) (devices : List Device) (start : PlicState)
    (o : Observed σ τ) : Prop where
  registers : (view o.controller).registers = start.registers
  served : ∀ id, (view o.controller).lines.inService id =
    decide (o.state.phase = .claimed id ∨ o.state.phase = .delegated id)
  busy : ∀ id, o.state.phase = .claimed id ∨ o.state.phase = .delegated id →
    IsInterrupt id ∧ Listed devices id
  balance : ∀ id, o.forwarded.count id + (start.lines.pending id).toNat +
    (if o.state.phase = .delegated id then 1 else 0) =
      o.handled id + (view o.controller).lines.underway id
  calls : ∀ call ∈ o.calls, devices.findIdx? (·.handlesInterrupt call.2) = some call.1

theorem Inv.start {s : σ} (idle : ∀ id, (view s).lines.inService id = false) (t : τ) :
    Inv view devices (view s) ⟨⟨s, ([], t), .idle⟩, []⟩ where
  registers := rfl
  served id := (idle id).trans (decide_eq_false (by simp)).symm
  busy id phase := by simp at phase
  balance id := by
    have free : (view s).lines.inService id = false := idle id
    simp [handled, Observed.calls, controller, Lines.underway, free]
  calls call mem := absurd mem List.not_mem_nil

theorem Inv.signal {start : PlicState} {o : Observed σ τ} (inv : Inv view devices start o)
    (attached : PlicAttached bus plic raise view) (id : BitVec 32) :
    Inv view devices start ⟨{ o.state with controller := raise o.controller id },
      if (view o.controller).lines.forwards id then o.forwarded ++ [id] else o.forwarded⟩ := by
  have after : view (raise o.controller id) = (view o.controller).signal id := attached.signal _ id
  refine ⟨?_, fun j => ?_, inv.busy, fun j => ?_, inv.calls⟩
  · exact (congrArg PlicState.registers after).trans inv.registers
  · refine (congrArg (·.lines.inService j) after).trans ?_
    rw [PlicState.signal, Lines.signal_inService]
    exact inv.served j
  · have lines : (view (raise o.controller id)).lines.underway j =
        (view o.controller).lines.underway j +
          if j = id ∧ (view o.controller).lines.forwards id then 1 else 0 := by
      rw [after]
      exact Lines.underway_signal _ id j
    have balance := inv.balance j
    have count : (if (view o.controller).lines.forwards id then o.forwarded ++ [id]
        else o.forwarded).count j = o.forwarded.count j +
          if j = id ∧ (view o.controller).lines.forwards id then 1 else 0 := by
      by_cases new : (view o.controller).lines.forwards id = true
      · rw [if_pos new, List.count_append, List.count_singleton]
        simp only [new, and_true, beq_iff_eq, eq_comm (a := id)]
      · rw [if_neg new, if_neg fun both => new both.2]
        rfl
    simp only [handled, Observed.calls, controller] at balance lines count ⊢
    omega

theorem Inv.claim {start : PlicState} {o : Observed σ τ} (inv : Inv view devices start o)
    (configured : Configured plic devices start.registers)
    (idle : o.state.phase = .idle) {id : BitVec 32} {ids : List (BitVec 32)}
    (first : (view o.controller).candidates plic DEFAULT_CONTEXT_ID = id :: ids) {s' : σ}
    (after : view s' = { view o.controller with lines := (view o.controller).lines.claim id }) :
    Inv view devices start
      ⟨{ o.state with controller := s', phase := .claimed id }, o.forwarded⟩ := by
  rw [← inv.registers] at configured
  have mem : id ∈ (view o.controller).candidates plic DEFAULT_CONTEXT_ID := by
    rw [first]
    exact List.mem_cons_self
  obtain ⟨-, interrupt, pending, listed⟩ := (mem_candidates configured).1 mem
  have free : ∀ j, (view o.controller).lines.inService j = false := by
    intro j
    rw [inv.served, idle]
    simp
  refine ⟨?_, fun j => ?_, fun j phase => ?_, fun j => ?_, inv.calls⟩
  · exact (congrArg PlicState.registers after).trans inv.registers
  · refine (congrArg (·.lines.inService j) after).trans ?_
    by_cases same : j = id
    · simp [Lines.claim, same]
    · have other := free j
      simp [Lines.claim, same, Ne.symm same, other]
  · rcases phase with claimed | delegated
    · obtain rfl := ServicePhase.claimed.inj claimed
      exact ⟨interrupt, listed⟩
    · cases delegated
  · have lines : (view s').lines.underway j = (view o.controller).lines.underway j := by
      rw [after]
      exact Lines.underway_claim pending (free id) j
    have balance := inv.balance j
    rw [idle] at balance
    simp only [handled, Observed.calls, controller, reduceCtorEq, if_false] at balance lines ⊢
    omega

theorem Inv.delegate {start : PlicState} {o : Observed σ τ} (inv : Inv view devices start o)
    {id : BitVec 32} (claimed : o.state.phase = .claimed id) :
    Inv view devices start ⟨{ o.state with
      kernel := (InterruptManager.delegateDeviceInterrupt devices (logged handle) (id.setWidth 64)
        o.state.kernel).2
      phase := .delegated id }, o.forwarded⟩ := by
  obtain ⟨interrupt, listed⟩ := inv.busy id (.inl claimed)
  obtain ⟨d, found⟩ := Option.isSome_iff_exists.1 (responsible_isSome listed)
  rw [delegate_logged found]
  refine ⟨inv.registers, fun j => ?_, fun j phase => ?_, fun j => ?_, fun call mem => ?_⟩
  · refine (inv.served j).trans ?_
    rw [claimed]
    simp
  · rcases phase with claimed' | delegated
    · cases claimed'
    · obtain rfl := ServicePhase.delegated.inj delegated
      exact ⟨interrupt, listed⟩
  · have balance := inv.balance j
    rw [claimed] at balance
    have same : id.setWidth 64 = j.setWidth 64 ↔ id = j := by
      have bound : id.toNat < 1024 := interrupt
      rw [← setWidth_eq_iff (by rw [BitVec.toNat_setWidth]; omega), BitVec.setWidth_setWidth_of_le]
      · rw [BitVec.setWidth_eq]
      · decide
    simp only [handled, Observed.calls, controller, List.countP_append, List.countP_singleton, same,
      reduceCtorEq, if_false, ServicePhase.delegated.injEq, decide_eq_true_eq] at balance ⊢
    omega
  · rcases List.mem_append.1 mem with old | new
    · exact inv.calls call old
    · rw [List.mem_singleton.1 new]
      exact found

theorem Inv.complete {start : PlicState} {o : Observed σ τ} (inv : Inv view devices start o)
    (attached : PlicAttached bus plic raise view)
    (configured : Configured plic devices start.registers) {id : BitVec 32}
    (delegated : o.state.phase = .delegated id) :
    Inv view devices start ⟨{ o.state with
      controller := plic.completeOn bus DEFAULT_CONTEXT_ID id o.controller
      phase := .idle }, o.forwarded⟩ := by
  rw [← inv.registers] at configured
  obtain ⟨interrupt, listed⟩ := inv.busy id (.inr delegated)
  have after := completeOn_view attached configured interrupt listed
  have served : (view o.controller).lines.inService id = true := by
    rw [inv.served, delegated]
    simp
  refine ⟨?_, fun j => ?_, fun j phase => ?_, fun j => ?_, inv.calls⟩
  · exact (congrArg PlicState.registers after).trans inv.registers
  · refine (congrArg (·.lines.inService j) after).trans ?_
    by_cases same : j = id
    · simp [Lines.complete, same]
    · have other := inv.served j
      rw [delegated] at other
      simpa [Lines.complete, same, Ne.symm same] using other
  · rcases phase with claimed | delegated
    · cases claimed
    · cases delegated
  · have lines := Lines.underway_complete served j
    have balance := inv.balance j
    rw [delegated] at balance
    have after' : (view (plic.completeOn bus DEFAULT_CONTEXT_ID id o.controller)).lines =
      (view o.controller).lines.complete id := congrArg PlicState.lines after
    simp only [handled, Observed.calls, controller, reduceCtorEq, if_false,
      ServicePhase.delegated.injEq, eq_comm (a := id)] at balance lines after' ⊢
    rw [after']
    omega

/-- Nothing is claimed where nothing is pending. -/
theorem Inv.spurious {start : PlicState} {o : Observed σ τ} (inv : Inv view devices start o) {s' : σ}
    (same : view s' = view o.controller) :
    Inv view devices start ⟨{ o.state with controller := s' }, o.forwarded⟩ := by
  refine ⟨?_, fun j => ?_, inv.busy, fun j => ?_, inv.calls⟩
  · exact (congrArg PlicState.registers same).trans inv.registers
  · exact (congrArg (·.lines.inService j) same).trans (inv.served j)
  · exact (inv.balance j).trans (congrArg (o.handled j + ·.lines.underway j) same.symm)

/-- Each event keeps the books. -/
theorem Inv.step {start : PlicState} {o o' : Observed σ τ} (inv : Inv view devices start o)
    (attached : PlicAttached bus plic raise view)
    (configured : Configured plic devices start.registers) {e : ServiceEvent}
    (step : Step bus raise view plic devices handle o e o') : Inv view devices start o' := by
  obtain ⟨state', forwarded'⟩ := o'
  obtain ⟨next, forwarded⟩ := step
  have now : Configured plic devices (view o.controller).registers := by
    rwa [inv.registers]
  obtain ⟨id, rfl, rfl⟩ | ⟨c, rfl, idle, answer, rfl⟩ | ⟨id, c, rfl, idle, answer, rfl⟩ |
    ⟨id, rfl, claimed, rfl⟩ | ⟨id, rfl, delegated, rfl⟩ := next_cases next
  all_goals obtain rfl := forwarded
  · exact inv.signal attached id
  · exact inv.spurious (view_of_nextOn_none attached now answer)
  · obtain ⟨⟨ids, first⟩, after⟩ := view_of_nextOn_some attached now answer
    exact inv.claim configured idle first after
  · exact inv.delegate claimed
  · exact inv.complete attached configured delegated

/-- `handle_external_interrupt` is a run of its steps. -/
theorem handleExternalInterrupt_run (o : Observed σ τ) (idle : o.state.phase = .idle) :
    let after := plic.handleExternalInterrupt bus devices (logged handle) (o.controller, o.state.kernel)
    ∃ es, Run (Step bus raise view plic devices handle) o es
      ⟨⟨after.1, after.2, .idle⟩, o.forwarded⟩ := by
  intro after
  obtain ⟨⟨s, t, phase⟩, forwarded⟩ := o
  obtain rfl : phase = .idle := idle
  have run : after = plic.handleExternalInterrupt bus devices (logged handle) (s, t) := rfl
  cases answer : plic.nextOn bus DEFAULT_CONTEXT_ID s with
  | mk nextInterrupt controller =>
    cases nextInterrupt with
    | none =>
      rw [Plic.handleExternalInterrupt, answer] at run
      have claimed : Step bus raise view plic devices handle ⟨⟨s, t, .idle⟩, forwarded⟩ .claim
          ⟨⟨after.1, after.2, .idle⟩, forwarded⟩ := by
        refine ⟨?_, rfl⟩
        rw [run]
        simp only [ServiceState.next, answer]
      exact ⟨[.claim], .cons claimed (.nil _)⟩
    | some interrupt =>
      rw [Plic.handleExternalInterrupt, answer] at run
      have claimed : Step bus raise view plic devices handle ⟨⟨s, t, .idle⟩, forwarded⟩ .claim
          ⟨⟨controller, t, .claimed interrupt⟩, forwarded⟩ := by
        refine ⟨?_, rfl⟩
        simp only [ServiceState.next, answer]
      have delegated : Step bus raise view plic devices handle
          ⟨⟨controller, t, .claimed interrupt⟩, forwarded⟩ .delegate
          ⟨⟨controller, after.2, .delegated interrupt⟩, forwarded⟩ := by
        refine ⟨?_, rfl⟩
        rw [run]
        rfl
      have completed : Step bus raise view plic devices handle
          ⟨⟨controller, after.2, .delegated interrupt⟩, forwarded⟩ .complete
          ⟨⟨after.1, after.2, .idle⟩, forwarded⟩ := by
        refine ⟨?_, rfl⟩
        rw [run]
        rfl
      exact ⟨[.claim, .delegate, .complete], .cons claimed (.cons delegated (.cons completed (.nil _)))⟩

end Observed

/-! ## Runs -/

/-- The kernel has set up the controller, which had nothing enabled and has nothing in service. -/
structure ServiceStart (plic : Plic) (devices : List Device) (hw : PlicState) : Prop where
  known : KnownInterrupts devices
  setUp : ∃ registers, (∀ id, IsInterrupt id →
      plic.enabled DEFAULT_CONTEXT_ID id registers = false) ∧
    hw.registers = InterruptManager.setUp plic devices registers
  idle : ∀ id, hw.lines.inService id = false

theorem ServiceStart.configured {hw : PlicState} (start : ServiceStart plic devices hw) :
    Configured plic devices hw.registers := by
  obtain ⟨registers, off, setUp⟩ := start.setUp
  rw [setUp]
  exact configured_setUp start.known off

/-- The state of a run that starts with `s` and `t`. -/
def Reached (bus : PlicBus σ) (raise : σ → BitVec 32 → σ) (view : σ → PlicState) (plic : Plic)
    (devices : List Device) (handle : Nat → BitVec 64 → τ → Except String Unit × τ) (s : σ) (t : τ)
    (es : List ServiceEvent) (o : Observed σ τ) : Prop :=
  Run (Observed.Step bus raise view plic devices handle) ⟨⟨s, ([], t), .idle⟩, []⟩ es o

theorem Reached.inv {s : σ} {t : τ} {es : List ServiceEvent} {o : Observed σ τ}
    (run : Reached bus raise view plic devices handle s t es o)
    (attached : PlicAttached bus plic raise view) (start : ServiceStart plic devices (view s)) :
    o.Inv view devices (view s) :=
  Transition.Run.invariant (I := Observed.Inv view devices (view s))
    (fun _ _ _ inv step => inv.step attached start.configured step) run (.start start.idle t)

/-- **Every forwarded signal is handled once.** In any interleaving of signals with the steps of the
kernel, the signals that the gateways forwarded are those for which a handler was called, the one
that is claimed now, and those that are pending, one for each source; the handler is always that of
the first device that lists the interrupt; and between two interrupts nothing is in service, and a call
of `handle_external_interrupt` that no signal breaks into reaches a state between two interrupts
again. -/
theorem interrupts_handled_once (attached : PlicAttached bus plic raise view) {s : σ}
    (start : ServiceStart plic devices (view s)) {t : τ} {es : List ServiceEvent} {o : Observed σ τ}
    (run : Reached bus raise view plic devices handle s t es o) :
    (∀ id, o.forwarded.count id + ((view s).lines.pending id).toNat =
      o.handled id + (if o.state.phase = .claimed id then 1 else 0) +
        ((view o.controller).lines.pending id).toNat) ∧
    (∀ call ∈ o.calls, devices.findIdx? (·.handlesInterrupt call.2) = some call.1) ∧
    (o.state.phase = .idle → (∀ id, (view o.controller).lines.inService id = false) ∧
      let after := plic.handleExternalInterrupt bus devices (logged handle)
        (o.controller, o.state.kernel)
      ∃ es', Reached bus raise view plic devices handle s t (es ++ es')
        ⟨⟨after.1, after.2, .idle⟩, o.forwarded⟩) := by
  have inv := run.inv attached start
  refine ⟨fun id => ?_, inv.calls, fun idle => ⟨fun id => ?_, ?_⟩⟩
  · have balance := inv.balance id
    rw [Lines.underway, inv.served] at balance
    cases phase : o.state.phase with
    | idle => simpa [phase] using balance
    | claimed interrupt =>
      by_cases same : interrupt = id
      · simp [phase, same] at balance ⊢
        omega
      · simpa [phase, same] using balance
    | delegated interrupt =>
      by_cases same : interrupt = id
      · simp [phase, same] at balance ⊢
        omega
      · simpa [phase, same] using balance
  · rw [inv.served, idle]
    simp
  · obtain ⟨es', steps⟩ := o.handleExternalInterrupt_run idle
    exact ⟨es', run.append steps⟩

/-! ## Pending interrupts -/

/-- The controller interrupts the context. -/
def PlicState.Notifies (plic : Plic) (contextId : BitVec 32) (hw : PlicState) : Prop :=
  ∃ id ∈ hw.candidates plic contextId,
    plic.threshold contextId hw.registers < plic.priority id hw.registers

theorem notifies_iff {hw : PlicState} (configured : Configured plic devices hw.registers) :
    hw.Notifies plic DEFAULT_CONTEXT_ID ↔ hw.candidates plic DEFAULT_CONTEXT_ID ≠ [] := by
  constructor
  · rintro ⟨id, mem, -⟩ none
    rw [none] at mem
    cases mem
  · intro some
    obtain ⟨id, mem⟩ := List.exists_mem_of_ne_nil _ some
    obtain ⟨-, interrupt, -, listed⟩ := (mem_candidates configured).1 mem
    refine ⟨id, mem, ?_⟩
    rw [configured.threshold, configured.priority id interrupt listed]
    exact Nat.one_pos

/-- The handler call for an interrupt. -/
def handlerCall (devices : List Device) (id : BitVec 32) : Option (Nat × BitVec 64) :=
  (responsible devices id).map fun device => (device, id.setWidth 64)

/-- An interrupt without anything to claim changes nothing. -/
theorem handleExternalInterrupt_none (attached : PlicAttached bus plic raise view) {s : σ}
    (configured : Configured plic devices (view s).registers)
    (nothing : (view s).candidates plic DEFAULT_CONTEXT_ID = []) (t : HandlerCalls × τ) :
    ∃ s', plic.handleExternalInterrupt bus devices (logged handle) (s, t) = (s', t) ∧
      view s' = view s := by
  obtain ⟨s', answer, same⟩ := nextOn_none attached configured nothing
  refine ⟨s', ?_, same⟩
  rw [Plic.handleExternalInterrupt, answer]

/-- An interrupt handles the first candidate and completes it. -/
theorem handleExternalInterrupt_some (attached : PlicAttached bus plic raise view) {s : σ}
    (configured : Configured plic devices (view s).registers) {id : BitVec 32}
    {ids : List (BitVec 32)} (first : (view s).candidates plic DEFAULT_CONTEXT_ID = id :: ids)
    (calls : HandlerCalls) (t : τ) :
    ∃ s' t', plic.handleExternalInterrupt bus devices (logged handle) (s, (calls, t)) =
        (s', (calls ++ (handlerCall devices id).toList, t')) ∧
      (view s').registers = (view s).registers ∧
      (view s').candidates plic DEFAULT_CONTEXT_ID = ids := by
  obtain ⟨s₁, answer, claimed⟩ := nextOn_some attached configured first
  have mem : id ∈ (view s).candidates plic DEFAULT_CONTEXT_ID := by
    rw [first]
    exact List.mem_cons_self
  obtain ⟨-, interrupt, -, listed⟩ := (mem_candidates configured).1 mem
  obtain ⟨d, found⟩ := Option.isSome_iff_exists.1 (responsible_isSome listed)
  have registers : (view s₁).registers = (view s).registers := by rw [claimed]
  have completed := completeOn_view attached (registers ▸ configured) interrupt listed
  refine ⟨plic.completeOn bus DEFAULT_CONTEXT_ID id s₁, (handle d (id.setWidth 64) t).2, ?_, ?_, ?_⟩
  · rw [Plic.handleExternalInterrupt, answer]
    simp only [delegate_logged found, handlerCall, found, Option.map_some, Option.toList_some]
  · rw [completed, registers]
  · rw [completed, ← candidates_claim first, ← claimed]
    rfl

/-- So many interrupts handle so many candidates. -/
theorem iterate_handleExternalInterrupt (handle : Nat → BitVec 64 → τ → Except String Unit × τ)
    (attached : PlicAttached bus plic raise view) (n : Nat) {s : σ}
    (configured : Configured plic devices (view s).registers) (calls : HandlerCalls) (t : τ) :
    ∃ s' t', (plic.handleExternalInterrupt bus devices (logged handle))^[n] (s, (calls, t)) =
        (s', (calls ++ (((view s).candidates plic DEFAULT_CONTEXT_ID).take n).filterMap
          (handlerCall devices), t')) ∧
      (view s').registers = (view s).registers ∧
      (view s').candidates plic DEFAULT_CONTEXT_ID =
        ((view s).candidates plic DEFAULT_CONTEXT_ID).drop n := by
  induction n generalizing s calls t with
  | zero =>
    refine ⟨s, t, ?_, rfl, rfl⟩
    rw [List.take_zero, List.filterMap_nil, List.append_nil]
    rfl
  | succ n ih =>
    rw [Function.iterate_succ_apply]
    cases candidates : (view s).candidates plic DEFAULT_CONTEXT_ID with
    | nil =>
      obtain ⟨s₁, run, same⟩ := handleExternalInterrupt_none attached configured candidates (calls, t)
      obtain ⟨s', t', rest, registers, left⟩ := ih (s := s₁) (same ▸ configured) calls t
      rw [same, candidates] at rest left
      rw [same] at registers
      refine ⟨s', t', ?_, registers, ?_⟩
      · rw [run, rest, List.take_nil, List.take_nil]
      · rw [left, List.drop_nil, List.drop_nil]
    | cons id ids =>
      obtain ⟨s₁, t₁, run, registers₁, left₁⟩ :=
        handleExternalInterrupt_some attached configured candidates calls t
      obtain ⟨s', t', rest, registers, left⟩ := ih (s := s₁) (registers₁ ▸ configured) _ t₁
      rw [left₁] at rest left
      refine ⟨s', t', ?_, registers.trans registers₁, left⟩
      rw [run, rest, List.take_succ_cons, List.append_assoc, List.filterMap_cons]
      cases handlerCall devices id <;> rfl

/-- **Pending interrupts are served in order.** In every state of a run between two interrupts the
candidates are the pending listed interrupts, and the controller interrupts the kernel while there is
one: the next `n` interrupts without new signals call the handlers of the `n` lowest, each once, in
ascending order, and leave the others. -/
theorem pending_served_in_order (attached : PlicAttached bus plic raise view) {s : σ}
    (start : ServiceStart plic devices (view s)) {t : τ} {es : List ServiceEvent} {o : Observed σ τ}
    (run : Reached bus raise view plic devices handle s t es o) (n : Nat) :
    let ids := (view o.controller).candidates plic DEFAULT_CONTEXT_ID
    let after := (plic.handleExternalInterrupt bus devices (logged handle))^[n]
      (o.controller, o.state.kernel)
    ids.Pairwise (· < ·) ∧
    (∀ id, id ∈ ids ↔ id ≠ 0 ∧ IsInterrupt id ∧ (view o.controller).lines.pending id = true ∧
      Listed devices id) ∧
    after.2.1 = o.calls ++ (ids.take n).filterMap (handlerCall devices) ∧
    (view after.1).candidates plic DEFAULT_CONTEXT_ID = ids.drop n ∧
    ((view after.1).Notifies plic DEFAULT_CONTEXT_ID ↔ n < ids.length) := by
  intro ids after
  have registers := (run.inv attached start).registers
  have configured : Configured plic devices (view o.controller).registers := by
    rw [registers]
    exact start.configured
  obtain ⟨s', t', served, kept, left⟩ := iterate_handleExternalInterrupt handle attached n
    configured o.calls o.state.kernel.2
  have final : after = (s', (o.calls ++ (ids.take n).filterMap (handlerCall devices), t')) := served
  refine ⟨candidates_sorted _ _ _, fun id => mem_candidates configured, ?_, ?_, ?_⟩
  · rw [final]
  · rw [final]
    exact left
  · rw [final, notifies_iff (kept ▸ configured), left, ne_eq, List.drop_eq_nil_iff, not_le]

end Service

/-! ## A controller with a disk and a console -/

/-- The controller on a bus of its own. -/
def plicBus (plic : Plic) : PlicBus PlicState where
  load hw a :=
    if a = plic.claimRegister DEFAULT_CONTEXT_ID then hw.claim plic DEFAULT_CONTEXT_ID
    else (hw.registers a, hw)
  store hw a value :=
    if a = plic.completeRegister DEFAULT_CONTEXT_ID then hw.complete plic DEFAULT_CONTEXT_ID value
    else { hw with registers := Function.update hw.registers a value }

theorem plicBus_attached (plic : Plic) :
    PlicAttached (plicBus plic) plic (fun hw id => hw.signal id) fun hw => hw where
  claim hw := by simp [plicBus]
  complete hw id := by simp [plicBus]
  signal _ _ := rfl

/-- A disk and a console. -/
def interruptDevices : List Device :=
  [.blockDevice (.virtio 0x10001000 [0x80200000]) [1],
    .consoleDevice (.universal 0 0 [] [] 0x10000000) [10]]

/-- The controller as the kernel sets it up. -/
def startController : PlicState where
  registers := InterruptManager.setUp ⟨0xC000000⟩ interruptDevices fun _ => 0
  lines := ⟨fun _ => false, fun _ => false⟩

theorem startController_start : ServiceStart ⟨0xC000000⟩ interruptDevices startController where
  known d device i mem := by
    simp only [interruptDevices, List.mem_cons, List.not_mem_nil, or_false] at device
    rcases device with rfl | rfl
    · obtain rfl := List.mem_singleton.1 mem
      decide
    · obtain rfl := List.mem_singleton.1 mem
      decide
  setUp := ⟨fun _ => 0, fun id _ => by simp [Plic.enabled], rfl⟩
  idle _ := rfl

/-- The console signals, then the disk. -/
def twoSignals : Observed PlicState Unit :=
  ⟨⟨(startController.signal 10).signal 1, ([], ()), .idle⟩, [10, 1]⟩

theorem twoSignals_reached : Reached (plicBus ⟨0xC000000⟩) (fun hw id => hw.signal id) (fun hw => hw)
    ⟨0xC000000⟩ interruptDevices (fun _ _ t => (.ok (), t)) startController ()
    [.signal 10, .signal 1] twoSignals := by
  have first : Observed.Step (plicBus ⟨0xC000000⟩) (fun hw id => hw.signal id) (fun hw => hw)
      ⟨0xC000000⟩ interruptDevices (fun _ _ t => (.ok (), t))
      ⟨⟨startController, ([], ()), .idle⟩, []⟩ (.signal 10)
      ⟨⟨startController.signal 10, ([], ()), .idle⟩, [10]⟩ := ⟨rfl, rfl⟩
  exact .cons first (.cons ⟨rfl, rfl⟩ (.nil _))

theorem twoSignals_candidates :
    twoSignals.controller.candidates ⟨0xC000000⟩ DEFAULT_CONTEXT_ID = [1, 10] := by
  decide +kernel

/-- The interrupt of the disk is claimed and handled, and not yet completed. -/
def diskHandled : Observed PlicState Unit where
  state := ⟨{ twoSignals.controller with lines := twoSignals.controller.lines.claim 1 }, ([(0, 1)], ()),
    .delegated 1⟩
  forwarded := [10, 1]

theorem diskHandled_reached : Reached (plicBus ⟨0xC000000⟩) (fun hw id => hw.signal id) (fun hw => hw)
    ⟨0xC000000⟩ interruptDevices (fun _ _ t => (.ok (), t)) startController ()
    [.signal 10, .signal 1, .claim, .delegate] diskHandled := by
  have configured : Configured ⟨0xC000000⟩ interruptDevices twoSignals.controller.registers :=
    startController_start.configured
  obtain ⟨c, answer, claimed⟩ := nextOn_some (plicBus_attached ⟨0xC000000⟩) configured
    twoSignals_candidates
  obtain rfl : c = diskHandled.controller := claimed
  have claim : Observed.Step (plicBus ⟨0xC000000⟩) (fun hw id => hw.signal id) (fun hw => hw)
      ⟨0xC000000⟩ interruptDevices (fun _ _ t => (.ok (), t)) twoSignals .claim
      ⟨⟨diskHandled.controller, ([], ()), .claimed 1⟩, [10, 1]⟩ := by
    refine ⟨?_, rfl⟩
    have idle : twoSignals.state = ⟨twoSignals.controller, ([], ()), .idle⟩ := rfl
    rw [idle]
    simp only [ServiceState.next, answer]
  have delegate : Observed.Step (plicBus ⟨0xC000000⟩) (fun hw id => hw.signal id) (fun hw => hw)
      ⟨0xC000000⟩ interruptDevices (fun _ _ t => (.ok (), t))
      ⟨⟨diskHandled.controller, ([], ()), .claimed 1⟩, [10, 1]⟩ .delegate diskHandled := ⟨rfl, rfl⟩
  exact Run.append twoSignals_reached (.cons claim (.cons delegate (.nil _)))

/-- The signal of the disk is handled, and the one of the console is pending. -/
theorem interrupts_handled_once_two :
    diskHandled.forwarded.count 1 = diskHandled.handled 1 ∧
      diskHandled.forwarded.count 10 = (diskHandled.controller.lines.pending 10).toNat := by
  obtain ⟨balance, -⟩ := interrupts_handled_once (plicBus_attached ⟨0xC000000⟩) startController_start
    diskHandled_reached
  exact ⟨balance 1, (balance 10).trans (Nat.zero_add _)⟩

/-- The disk is served first, and then the console. -/
theorem pending_served_in_order_two :
    let after := (Plic.handleExternalInterrupt (plicBus ⟨0xC000000⟩) ⟨0xC000000⟩ interruptDevices
      (logged fun _ _ t => (.ok (), t)))^[2] (twoSignals.controller, twoSignals.state.kernel)
    after.2.1 = [(0, 1), (1, 10)] ∧ ¬ after.1.Notifies ⟨0xC000000⟩ DEFAULT_CONTEXT_ID := by
  intro after
  obtain ⟨-, -, calls, -, notifies⟩ := pending_served_in_order (plicBus_attached ⟨0xC000000⟩)
    startController_start twoSignals_reached 2
  rw [twoSignals_candidates] at calls notifies
  have served : twoSignals.calls ++
      ([1, 10] : List (BitVec 32)).filterMap (handlerCall interruptDevices) = [(0, 1), (1, 10)] := by
    decide
  constructor
  · simp only [after, calls]
    exact served
  · simp only [after, notifies]
    decide

end MatteOS.Traps
