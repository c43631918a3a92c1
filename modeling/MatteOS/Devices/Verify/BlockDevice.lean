import MatteOS.Devices.BlockDevice
import MatteOS.Devices.Verify.Descriptors
import MatteOS.Lib.Transition

/-!
# The pending requests of a block device

A request is added to `m_requests` before the driver has accepted it and is never taken out.
The list is exact as long as no call was rejected and no completion was delivered
(`exact_iff`). Since the numbers of the requests differ, a result still leads to the
callable of its own request (`callbacks_of_answered`).
-/

namespace MatteOS.Devices

open Transition

variable {F : Type}

/-! ## Calls -/

/-- The driver accepts whole sectors. -/
theorem blockOperation_fst (address : BitVec 64) (op : BlockOperation) (q : VirtIOQueue)
    (h : RequestHeap) :
    (blockOperation address op q h).1 =
      if op.size % 512 = 0 then .ok address
      else .error "BlockIODriver: Size must be a multiple of 512 bytes." := by
  by_cases valid : op.size % 512 = 0
  · obtain ⟨q', result, -⟩ := blockOperation_valid (q := q) (h := h) valid
    rw [result, if_pos valid]
  · rw [blockOperation_invalid valid, if_neg valid]

theorem BlockDevice.async_loaded {device : BlockDevice F} {driver : VirtIOQueue × RequestHeap}
    (loaded : device.driver = some driver) (isWrite : Bool) (object : Nat)
    (call : BlockDeviceCall F) :
    ∃ driver', device.async isWrite object call =
      (if call.size % 512 = 0 then .ok ()
        else .error "BlockIODriver: Size must be a multiple of 512 bytes.",
      { device.addRequest (device.newRequest object call) with driver := driver' }) := by
  have result := blockOperation_fst call.address
    ⟨device.nextRequestId, call.buffer, call.size, call.offset, isWrite⟩ driver.1 driver.2
  refine ⟨some (blockOperation call.address
    ⟨device.nextRequestId, call.buffer, call.size, call.offset, isWrite⟩ driver.1 driver.2).2, ?_⟩
  simp only [BlockDevice.async, loaded, BlockDevice.newRequest, result]
  split <;> rfl

namespace BlockDeviceRun

/-- What a call does: nothing without a driver, else the request is added in any case. -/
theorem async_cases (isWrite : Bool) (s : BlockDeviceRun F) (call : BlockDeviceCall F) :
    (s.device.driver = none ∧ s.async isWrite call = { s with calls := s.calls + 1 }) ∨
    (s.device.driver ≠ none ∧ ∃ driver, s.async isWrite call =
      { s with
        device := { s.device.addRequest (s.device.newRequest s.calls call) with driver }
        calls := s.calls + 1
        accepted :=
          if call.size % 512 = 0 then s.accepted ++ [s.device.newRequest s.calls call]
          else s.accepted }) := by
  have same : (if isWrite then s.device.writeAsync s.calls call else s.device.readAsync s.calls call)
      = s.device.async isWrite s.calls call := by
    cases isWrite <;> rfl
  unfold BlockDeviceRun.async
  rw [same]
  cases loaded : s.device.driver with
  | none =>
    refine .inl ⟨rfl, ?_⟩
    unfold BlockDevice.async
    rw [loaded]
  | some driver =>
    obtain ⟨driver', eq⟩ := BlockDevice.async_loaded loaded isWrite s.calls call
    refine .inr ⟨nofun, driver', ?_⟩
    by_cases valid : call.size % 512 = 0
    · simp only [eq, if_pos valid]
    · simp only [eq, if_neg valid]

/-! ## What every step keeps -/

/-- Requests and calls of callables are only ever added. -/
structure Grows (s s' : BlockDeviceRun F) : Prop where
  requests : s.device.requests ⊆ s'.device.requests
  callbacks : s.callbacks ⊆ s'.callbacks
  calls : s.calls ≤ s'.calls

/-- The requests are numbered by their places in the list. -/
structure Inv (s : BlockDeviceRun F) : Prop where
  next : s.device.nextRequestId = BitVec.ofNat 64 s.device.requests.length
  ids : ∀ (i : Nat) r, s.device.requests[i]? = some r → r.id = BitVec.ofNat 64 i
  count : s.device.requests.length ≤ s.calls
  nodup : s.device.requests.Nodup
  objects : ∀ r ∈ s.device.requests, r.object < s.calls
  accepted : s.accepted ⊆ s.device.requests
  callbacks : ∀ c ∈ s.callbacks, c.request ∈ s.device.requests

theorem Grows.refl (s : BlockDeviceRun F) : s.Grows s :=
  ⟨List.Subset.refl _, List.Subset.refl _, Nat.le_refl _⟩

theorem Grows.trans {s s' s'' : BlockDeviceRun F} (first : s.Grows s') (second : s'.Grows s'') :
    s.Grows s'' :=
  ⟨List.Subset.trans first.requests second.requests,
    List.Subset.trans first.callbacks second.callbacks, Nat.le_trans first.calls second.calls⟩

theorem init_inv : (init : BlockDeviceRun F).Inv where
  next := rfl
  ids i r at_i := by cases at_i
  count := Nat.le_refl 0
  nodup := .nil
  objects := nofun
  accepted := List.Subset.refl _
  callbacks := nofun

theorem async_grows (isWrite : Bool) (s : BlockDeviceRun F) (call : BlockDeviceCall F) :
    s.Grows (s.async isWrite call) := by
  rcases async_cases isWrite s call with ⟨-, eq⟩ | ⟨-, driver, eq⟩
  · rw [eq]
    exact ⟨List.Subset.refl _, List.Subset.refl _, Nat.le_succ _⟩
  · rw [eq]
    exact ⟨List.subset_append_left _ _, List.Subset.refl _, Nat.le_succ _⟩

theorem async_callbacks (isWrite : Bool) (s : BlockDeviceRun F) (call : BlockDeviceCall F) :
    (s.async isWrite call).callbacks = s.callbacks := by
  rcases async_cases isWrite s call with ⟨-, eq⟩ | ⟨-, driver, eq⟩ <;> rw [eq]

variable {s : BlockDeviceRun F}

theorem Inv.new_notMem (inv : s.Inv) (call : BlockDeviceCall F) :
    s.device.newRequest s.calls call ∉ s.device.requests :=
  fun mem => Nat.lt_irrefl _ (inv.objects _ mem)

theorem Inv.async (inv : s.Inv) (isWrite : Bool) (call : BlockDeviceCall F) :
    (s.async isWrite call).Inv := by
  rcases async_cases isWrite s call with ⟨-, eq⟩ | ⟨-, driver, eq⟩
  · rw [eq]
    exact { inv with
      count := Nat.le_succ_of_le inv.count
      objects := fun r mem => Nat.lt_succ_of_lt (inv.objects r mem) }
  · rw [eq]
    refine ⟨?_, fun i r at_i => ?_, ?_, ?_, fun r mem => ?_, ?_, fun c mem => ?_⟩
    · change s.device.nextRequestId + 1 = BitVec.ofNat 64 (s.device.requests ++ [_]).length
      rw [inv.next, List.length_append]
      exact (BitVec.ofNat_add _ 1).symm
    · change (s.device.requests ++ [_])[i]? = some r at at_i
      rw [List.getElem?_append] at at_i
      split at at_i
      · exact inv.ids i r at_i
      · rename_i outside
        obtain ⟨place, new⟩ := List.getElem?_eq_some_iff.1 at_i
        have last : i = s.device.requests.length := by
          simp only [List.length_cons, List.length_nil] at place
          omega
        rw [← new, List.getElem_singleton, last]
        exact inv.next
    · change (s.device.requests ++ [_]).length ≤ s.calls + 1
      rw [List.length_append]
      exact Nat.succ_le_succ inv.count
    · exact List.nodup_append.2 ⟨inv.nodup, List.pairwise_singleton _ _, fun a mem b last same =>
        inv.new_notMem call (List.mem_singleton.1 last ▸ same ▸ mem)⟩
    · rcases List.mem_append.1 mem with old | new
      · exact Nat.lt_succ_of_lt (inv.objects r old)
      · rw [List.mem_singleton.1 new]
        exact Nat.lt_succ_self _
    · change (if _ then _ else _) ⊆ s.device.requests ++ [_]
      split
      · exact List.append_subset.2 ⟨List.subset_append_of_subset_left _ inv.accepted,
          List.subset_append_right _ _⟩
      · exact List.subset_append_of_subset_left _ inv.accepted
    · exact List.mem_append_left _ (inv.callbacks c mem)

/-! ## Results -/

/-- The calls that a callable makes in turn. -/
theorem asyncs_spec (calls : List (Bool × BlockDeviceCall F)) (s : BlockDeviceRun F) :
    let s' := calls.foldl (fun s call => s.async call.1 call.2) s
    s.Grows s' ∧ s'.callbacks = s.callbacks ∧ (s.Inv → s'.Inv) := by
  induction calls generalizing s with
  | nil => exact ⟨.refl s, rfl, id⟩
  | cons call calls ih =>
    obtain ⟨grows, callbacks, inv⟩ := ih (s.async call.1 call.2)
    exact ⟨(async_grows call.1 s call.2).trans grows,
      callbacks.trans (async_callbacks call.1 s call.2), fun h => inv (h.async call.1 call.2)⟩

/-- The callable that a result leads to. -/
def callback (result : BlockDeviceAsyncResult) (request : BlockDeviceAsyncRequest F) :
    Callback F :=
  ⟨if result.type = .ok then request.onSuccess else request.onFailure, request⟩

theorem handleResult_found {result : BlockDeviceAsyncResult × List (Bool × BlockDeviceCall F)}
    {request : BlockDeviceAsyncRequest F}
    (found : s.device.findRequest result.1 = .ok request) :
    s.handleResult result = result.2.foldl (fun s call => s.async call.1 call.2)
      { s with callbacks := s.callbacks ++ [callback result.1 request] } := by
  unfold handleResult
  rw [found]
  rfl

theorem findRequest_cases (device : BlockDevice F) (result : BlockDeviceAsyncResult) :
    ((∀ r ∈ device.requests, r.id ≠ result.requestId) ∧
      ∃ e, device.findRequest result = .error e) ∨
    ∃ request ∈ device.requests, request.id = result.requestId ∧
      device.findRequest result = .ok request := by
  unfold BlockDevice.findRequest
  cases found : device.requests.find? fun request => request.id == result.requestId with
  | none =>
    refine .inl ⟨fun r mem same => ?_, _, rfl⟩
    exact List.find?_eq_none.1 found r mem (beq_iff_eq.2 same)
  | some request =>
    have matched := List.find?_some found
    exact .inr ⟨request, List.mem_of_find?_eq_some found, beq_iff_eq.1 matched, rfl⟩

/-- A result is lost without a request of its number and calls one callable otherwise. -/
theorem handleResult_cases (s : BlockDeviceRun F)
    (result : BlockDeviceAsyncResult × List (Bool × BlockDeviceCall F)) :
    ((∀ r ∈ s.device.requests, r.id ≠ result.1.requestId) ∧ s.handleResult result = s) ∨
    ∃ request, s.device.findRequest result.1 = .ok request ∧ request ∈ s.device.requests ∧
      request.id = result.1.requestId ∧ s.Grows (s.handleResult result) ∧
      (s.handleResult result).callbacks = s.callbacks ++ [callback result.1 request] ∧
      (s.Inv → (s.handleResult result).Inv) := by
  rcases findRequest_cases s.device result.1 with
    ⟨unmatched, e, missing⟩ | ⟨request, mem, same, found⟩
  · refine .inl ⟨unmatched, ?_⟩
    unfold handleResult
    rw [missing]
  · rw [handleResult_found found]
    obtain ⟨grows, callbacks, inv⟩ := asyncs_spec result.2
      { s with callbacks := s.callbacks ++ [callback result.1 request] }
    refine .inr ⟨request, found, mem, same, ?_, callbacks, fun h => inv { h with callbacks := ?_ }⟩
    · have called :
          s.Grows { s with callbacks := s.callbacks ++ [callback result.1 request] } :=
        ⟨List.Subset.refl _, List.subset_append_left _ _, Nat.le_refl _⟩
      exact called.trans grows
    · intro c called
      rcases List.mem_append.1 called with old | new
      · exact h.callbacks c old
      · rw [List.mem_singleton.1 new]
        exact mem

theorem handleResult_grows (s : BlockDeviceRun F)
    (result : BlockDeviceAsyncResult × List (Bool × BlockDeviceCall F)) :
    s.Grows (s.handleResult result) := by
  rcases handleResult_cases s result with ⟨-, eq⟩ | ⟨request, -, -, -, grows, -⟩
  · rw [eq]
    exact .refl s
  · exact grows

theorem Inv.handleResult (inv : s.Inv)
    (result : BlockDeviceAsyncResult × List (Bool × BlockDeviceCall F)) :
    (s.handleResult result).Inv := by
  rcases handleResult_cases s result with ⟨-, eq⟩ | ⟨request, -, -, -, -, -, kept⟩
  · rw [eq]
    exact inv
  · exact kept inv

theorem handleResults_spec (results : List (BlockDeviceAsyncResult × List (Bool × BlockDeviceCall F)))
    (s : BlockDeviceRun F) :
    s.Grows (results.foldl handleResult s) ∧ (s.Inv → (results.foldl handleResult s).Inv) := by
  induction results generalizing s with
  | nil => exact ⟨.refl s, id⟩
  | cons result results ih =>
    obtain ⟨grows, inv⟩ := ih (s.handleResult result)
    exact ⟨(handleResult_grows s result).trans grows, fun h => inv (h.handleResult result)⟩

theorem Inv.step (inv : s.Inv) (event : BlockDeviceEvent F) : (s.step event).Inv := by
  cases event with
  | setDriver driver => exact { inv with }
  | writeAsync call => exact inv.async true call
  | readAsync call => exact inv.async false call
  | interrupt notified =>
    simp only [BlockDeviceRun.step, handleInterrupt]
    cases s.device.driver with
    | none => exact inv
    | some driver =>
      cases notified.results with
      | error e => exact { inv with }
      | ok results => exact (handleResults_spec results _).2 { inv with }

/-! ## The pending list -/

/-- `m_requests` holds exactly the accepted requests without a delivered completion. -/
def Exact (s : BlockDeviceRun F) : Prop :=
  s.device.requests.Nodup ∧
    ∀ r, r ∈ s.device.requests ↔ r ∈ s.accepted ∧ ∀ c ∈ s.callbacks, c.request ≠ r

/-- The driver accepts the call, or gives no result that belongs to a request. -/
def Unaffected (s : BlockDeviceRun F) (event : BlockDeviceEvent F) : Prop :=
  s.device.driver = none ∨
  match event with
  | .setDriver _ => True
  | .writeAsync call | .readAsync call => call.size % 512 = 0
  | .interrupt notified => ∀ results, notified.results = .ok results →
      ∀ result ∈ results, ∀ r ∈ s.device.requests, r.id ≠ result.1.requestId

theorem Exact.async_iff (exact : s.Exact) (inv : s.Inv) (isWrite : Bool)
    (call : BlockDeviceCall F) :
    (s.async isWrite call).Exact ↔ s.device.driver = none ∨ call.size % 512 = 0 := by
  rcases async_cases isWrite s call with ⟨none, eq⟩ | ⟨loaded, driver, eq⟩
  · rw [eq]
    exact ⟨fun _ => .inl none, fun _ => exact⟩
  · have kept := inv.async isWrite call
    have new := inv.new_notMem call
    rw [eq] at kept ⊢
    constructor
    · rintro ⟨-, pending⟩
      refine .inr (by_contra fun invalid => new (inv.accepted ?_))
      have mem := ((pending (s.device.newRequest s.calls call)).1
        (List.mem_append_right _ (List.mem_singleton_self _))).1
      rwa [if_neg invalid] at mem
    · rintro (none | valid)
      · exact absurd none loaded
      · refine ⟨kept.nodup, fun r => ?_⟩
        change r ∈ s.device.requests ++ [_] ↔ r ∈ (if _ then _ else _) ∧ _
        rw [if_pos valid, List.mem_append, List.mem_append, exact.2, List.mem_singleton]
        constructor
        · rintro (⟨accepted, open'⟩ | rfl)
          · exact ⟨.inl accepted, open'⟩
          · exact ⟨.inr rfl, fun c called same => new (same ▸ inv.callbacks c called)⟩
        · rintro ⟨accepted | rfl, open'⟩
          · exact .inl ⟨accepted, open'⟩
          · exact .inr rfl

theorem handleResults_unmatched
    {results : List (BlockDeviceAsyncResult × List (Bool × BlockDeviceCall F))}
    (unmatched : ∀ result ∈ results, ∀ r ∈ s.device.requests, r.id ≠ result.1.requestId) :
    results.foldl handleResult s = s := by
  refine List.foldlRecOn (motive := fun s' => s' = s) results handleResult rfl
    fun s' kept result mem => ?_
  rw [kept]
  rcases handleResult_cases s result with ⟨-, eq⟩ | ⟨request, -, mem', same, -⟩
  · exact eq
  · exact absurd same (unmatched result mem request mem')

/-- A result of a number that was given out calls a callable with a listed request. -/
theorem handleResults_matched
    {results : List (BlockDeviceAsyncResult × List (Bool × BlockDeviceCall F))}
    {result : BlockDeviceAsyncResult × List (Bool × BlockDeviceCall F)} (mem : result ∈ results)
    {r : BlockDeviceAsyncRequest F} (listed : r ∈ s.device.requests)
    (same : r.id = result.1.requestId) :
    ∃ c ∈ (results.foldl handleResult s).callbacks,
      c.request ∈ (results.foldl handleResult s).device.requests := by
  obtain ⟨before, after, rfl⟩ := List.append_of_mem mem
  rw [List.foldl_append, List.foldl_cons]
  have later := (handleResults_spec before s).1.requests listed
  have grows := (handleResults_spec after ((before.foldl handleResult s).handleResult result)).1
  rcases handleResult_cases (before.foldl handleResult s) result with
    ⟨unmatched, -⟩ | ⟨request, -, found, -, grown, called, -⟩
  · exact absurd same (unmatched r later)
  · refine ⟨callback result.1 request, grows.callbacks ?_, grows.requests (grown.requests found)⟩
    rw [called]
    exact List.mem_append_right _ (List.mem_singleton_self _)

theorem Exact.step_iff (exact : s.Exact) (inv : s.Inv) (event : BlockDeviceEvent F) :
    (s.step event).Exact ↔ s.Unaffected event := by
  cases event with
  | setDriver driver => exact ⟨fun _ => .inr trivial, fun _ => exact⟩
  | writeAsync call => exact exact.async_iff inv true call
  | readAsync call => exact exact.async_iff inv false call
  | interrupt notified =>
    simp only [BlockDeviceRun.step, handleInterrupt, Unaffected]
    cases loaded : s.device.driver with
    | none => exact ⟨fun _ => .inl rfl, fun _ => exact⟩
    | some driver =>
      cases answer : notified.results with
      | error e =>
        refine ⟨fun _ => .inr fun results same => ?_, fun _ => exact⟩
        cases same
      | ok results =>
        constructor
        · intro pending
          refine .inr fun results' same result mem r listed id => ?_
          cases same
          obtain ⟨c, called, still⟩ := handleResults_matched (s :=
            { s with device := { s.device with driver := some notified.driver } }) mem listed id
          exact ((pending.2 _).1 still).2 c called rfl
        · rintro (none | unmatched)
          · cases none
          · have same := handleResults_unmatched (s :=
              { s with device := { s.device with driver := some notified.driver } })
              (unmatched results rfl)
            simp only [same]
            exact exact

/-- **The pending list is exact** after every step of a run exactly if the driver accepted every
call and no result belonged to a request. -/
theorem exact_iff (events : List (BlockDeviceEvent F)) :
    Along step (fun s event => (s.step event).Exact) init events ↔
      Along step Unaffected init events := by
  apply Along.iff (J := fun s => s.Exact ∧ s.Inv) (G := fun _ _ => True)
  · exact fun s event h _ => h.1.step_iff h.2 event
  · exact fun s event h _ exact => ⟨exact, h.2.step event⟩
  · exact ⟨⟨.nil, fun r => ⟨nofun, nofun⟩⟩, init_inv⟩
  · exact Along.of_forall (fun _ _ => trivial) _ events

/-- A driver whose queue is empty. -/
def idleDriver : VirtIOQueue × RequestHeap :=
  ({ descriptors := fun _ => ⟨0, 0, 0, 0⟩, used := { index := 0, ring := fun _ => ⟨0, 0⟩ }
     queueAck := 0, available := { index := 0, ring := fun _ => 0 }, queueIndex := 0 },
    { requests := fun _ => ⟨⟨0, 0⟩, ⟨0, 0, 0⟩, 0⟩, allocated := fun _ => false, dangling := false })

/-- A call that writes a single byte fails and leaves its request in the list. -/
theorem not_exact_of_rejected :
    ¬ Along step (fun s event => (s.step event).Exact) (init : BlockDeviceRun Unit)
      [.setDriver idleDriver, .writeAsync ⟨0, 1, 0, (), (), 0⟩] := by
  rintro ⟨loaded, rejected, -⟩
  rcases (loaded.step_iff (init_inv.step _) _).1 rejected with none | valid
  · cases none
  · exact absurd valid (by decide)

/-! ## Callables -/

/-- A request that the device has completed and how. -/
structure Completion (F : Type) where
  request : BlockDeviceAsyncRequest F
  type : BlockDeviceAsyncRequestType

/-- The result with the number and the status of the completed request. -/
def Completion.result (c : Completion F) : BlockDeviceAsyncResult := ⟨c.request.id, c.type⟩

/-- `on_success` or `on_failure` of the completed request, with this request. -/
def Completion.callback (c : Completion F) : Callback F :=
  ⟨match c.type with
    | .ok => c.request.onSuccess
    | .failed => c.request.onFailure, c.request⟩

/-- The results that `handle_interrupt` receives from `notify`. -/
def results (s : BlockDeviceRun F) : BlockDeviceEvent F → List BlockDeviceAsyncResult
  | .interrupt notified =>
    match s.device.driver, notified.results with
    | some _, .ok results => results.map Prod.fst
    | _, _ => []
  | _ => []

/-- `notify` has answered each of the completed requests once, after it was accepted and with its
own number and status, and has given no other results. -/
inductive Answered : List (BlockDeviceEvent F) → List (Completion F) → Prop where
  | nil : Answered [] []
  | step {events : List (BlockDeviceEvent F)} {done completions : List (Completion F)}
      {event : BlockDeviceEvent F} (answered : Answered events done)
      (own : (run events).results event = completions.map Completion.result)
      (accepted : ∀ c ∈ completions, c.request ∈ (run events).accepted)
      (once : ((done ++ completions).map Completion.request).Nodup) :
      Answered (events ++ [event]) (done ++ completions)

theorem Inv.id_injective (inv : s.Inv) (few : s.calls < 2 ^ 63)
    {r r' : BlockDeviceAsyncRequest F} (mem : r ∈ s.device.requests)
    (mem' : r' ∈ s.device.requests) (same : r.id = r'.id) : r = r' := by
  obtain ⟨i, at_i⟩ := List.mem_iff_getElem?.1 mem
  obtain ⟨j, at_j⟩ := List.mem_iff_getElem?.1 mem'
  have count := inv.count
  have less := (List.getElem?_eq_some_iff.1 at_i).1
  have less' := (List.getElem?_eq_some_iff.1 at_j).1
  rw [inv.ids i r at_i, inv.ids j r' at_j, ← BitVec.toNat_inj, BitVec.toNat_ofNat,
    BitVec.toNat_ofNat, Nat.mod_eq_of_lt (by omega), Nat.mod_eq_of_lt (by omega)] at same
  rw [same, at_j] at at_i
  exact (Option.some.inj at_i).symm

theorem Inv.findRequest (inv : s.Inv) (few : s.calls < 2 ^ 63) {c : Completion F}
    (mem : c.request ∈ s.device.requests) :
    s.device.findRequest c.result = .ok c.request := by
  rcases findRequest_cases s.device c.result with
    ⟨unmatched, -⟩ | ⟨request, mem', same, found⟩
  · exact absurd rfl (unmatched c.request mem)
  · rw [found, inv.id_injective few mem' mem same]

theorem callback_result (c : Completion F) : callback c.result c.request = c.callback := by
  rcases c with ⟨request, _ | _⟩ <;> rfl

/-- The loop of `handle_interrupt` calls the callables of the completed requests in order. -/
theorem handleResults_callbacks {completions : List (Completion F)}
    {results : List (BlockDeviceAsyncResult × List (Bool × BlockDeviceCall F))} (inv : s.Inv)
    (few : (results.foldl handleResult s).calls < 2 ^ 63)
    (own : results.map Prod.fst = completions.map Completion.result)
    (listed : ∀ c ∈ completions, c.request ∈ s.device.requests) :
    (results.foldl handleResult s).callbacks =
      s.callbacks ++ completions.map Completion.callback := by
  induction completions generalizing results s with
  | nil =>
    obtain rfl := List.map_eq_nil_iff.1 own
    exact (List.append_nil _).symm
  | cons c completions ih =>
    cases results with
    | nil => cases own
    | cons result results =>
      obtain ⟨head, tail⟩ := List.cons.inj own
      have grows := (handleResults_spec results (s.handleResult result)).1
      have few' : s.calls < 2 ^ 63 :=
        Nat.lt_of_le_of_lt (Nat.le_trans (handleResult_grows s result).calls grows.calls) few
      have found := inv.findRequest few' (listed c List.mem_cons_self)
      rw [← head] at found
      rw [List.foldl_cons, ih (inv.handleResult result) few tail fun c' mem =>
        (handleResult_grows s result).requests (listed c' (List.mem_cons_of_mem _ mem)),
        handleResult_found found, (asyncs_spec _ _).2.1, List.map_cons, List.append_assoc]
      change _ ++ ([callback result.1 c.request] ++ _) = _
      rw [head, callback_result]
      rfl

theorem step_grows (s : BlockDeviceRun F) (event : BlockDeviceEvent F) :
    s.Grows (s.step event) := by
  cases event with
  | setDriver driver => exact ⟨List.Subset.refl _, List.Subset.refl _, Nat.le_refl _⟩
  | writeAsync call => exact async_grows true s call
  | readAsync call => exact async_grows false s call
  | interrupt notified =>
    simp only [BlockDeviceRun.step, handleInterrupt]
    cases s.device.driver with
    | none => exact .refl s
    | some driver =>
      cases notified.results with
      | error e => exact ⟨List.Subset.refl _, List.Subset.refl _, Nat.le_refl _⟩
      | ok results =>
        have loaded : s.Grows
            { s with device := { s.device with driver := some notified.driver } } :=
          ⟨List.Subset.refl _, List.Subset.refl _, Nat.le_refl _⟩
        exact loaded.trans (handleResults_spec results _).1

theorem Inv.step_callbacks (inv : s.Inv) {event : BlockDeviceEvent F}
    (few : (s.step event).calls < 2 ^ 63) {completions : List (Completion F)}
    (own : s.results event = completions.map Completion.result)
    (listed : ∀ c ∈ completions, c.request ∈ s.device.requests) :
    (s.step event).callbacks = s.callbacks ++ completions.map Completion.callback := by
  have idle (none : [] = completions.map Completion.result) :
      s.callbacks = s.callbacks ++ completions.map Completion.callback := by
    obtain rfl := List.map_eq_nil_iff.1 none.symm
    exact (List.append_nil _).symm
  cases event with
  | setDriver driver => exact idle own
  | writeAsync call => exact (async_callbacks true s call).trans (idle own)
  | readAsync call => exact (async_callbacks false s call).trans (idle own)
  | interrupt notified =>
    simp only [BlockDeviceRun.step, handleInterrupt, results] at few own ⊢
    cases loaded : s.device.driver with
    | none =>
      rw [loaded] at own
      exact idle own
    | some driver =>
      cases answer : notified.results with
      | error e =>
        rw [loaded, answer] at own
        exact idle own
      | ok results =>
        rw [loaded, answer] at own
        simp only [loaded, answer] at few
        exact handleResults_callbacks (s :=
          { s with device := { s.device with driver := some notified.driver } })
          { inv with } few own listed

theorem run_inv (events : List (BlockDeviceEvent F)) : (run events).Inv :=
  List.foldlRecOn (motive := Inv) events step init_inv fun _ inv event _ => inv.step event

/-- **Completions reach the right callable**: the callables that were called are those of the
completed requests, one for each. -/
theorem callbacks_of_answered {events : List (BlockDeviceEvent F)} {done : List (Completion F)}
    (answered : Answered events done) (few : (run events).calls < 2 ^ 63) :
    (run events).callbacks = done.map Completion.callback ∧
      ((run events).callbacks.map Callback.request).Nodup := by
  have each : (run events).callbacks = done.map Completion.callback ∧
      (done.map Completion.request).Nodup := by
    induction answered with
    | nil => exact ⟨rfl, .nil⟩
    | step answered own accepted once ih =>
      rename_i events done completions event
      have next : run (events ++ [event]) = (run events).step event := List.foldl_append
      rw [next] at few ⊢
      have inv := run_inv events
      obtain ⟨before, -⟩ := ih (Nat.lt_of_le_of_lt (step_grows _ event).calls few)
      refine ⟨?_, once⟩
      rw [inv.step_callbacks few own fun c mem => inv.accepted (accepted c mem), before,
        List.map_append]
  refine ⟨each.1, ?_⟩
  rw [each.1, List.map_map]
  exact each.2

/-- Two requests, completed in one interrupt in the other order. -/
def outOfOrder : List (BlockDeviceEvent Nat) :=
  [.setDriver idleDriver, .readAsync ⟨0, 512, 0, 1, 2, 8⟩, .writeAsync ⟨0, 512, 512, 3, 4, 64⟩] ++
    [.interrupt ⟨idleDriver, .ok [(⟨1, .failed⟩, []), (⟨0, .ok⟩, [])]⟩]

def outOfOrderDone : List (Completion Nat) :=
  [⟨⟨1, 1, 0, 512, 512, false, 3, 4⟩, .failed⟩, ⟨⟨0, 0, 0, 512, 0, false, 1, 2⟩, .ok⟩]

theorem outOfOrder_answered : Answered outOfOrder ([] ++ outOfOrderDone) := by
  have submitted : Answered (F := Nat) ([] ++ [.setDriver idleDriver] ++
      [.readAsync ⟨0, 512, 0, 1, 2, 8⟩] ++ [.writeAsync ⟨0, 512, 512, 3, 4, 64⟩])
      ([] ++ [] ++ [] ++ []) :=
    .step (.step (.step .nil rfl nofun .nil) rfl nofun .nil) rfl nofun .nil
  exact .step submitted rfl (by decide) (by decide)

theorem callbacks_of_answered_two :
    (run outOfOrder).callbacks = outOfOrderDone.map Completion.callback ∧
      ((run outOfOrder).callbacks.map Callback.request).Nodup :=
  callbacks_of_answered outOfOrder_answered (by decide)

end BlockDeviceRun

end MatteOS.Devices
