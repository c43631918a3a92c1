import MatteOS.Devices.Discovery
import MatteOS.Devices.Verify.VirtIOInit
import MatteOS.Firmware.Verify.FindNode
import MatteOS.Memory.Verify.TableRuns

/-!
# Rounds over the VirtIO nodes

A round of `VirtIODriver::init` maps the registers at the address of a node, and adds a device and
initialises it where there is one. What the rounds before it left stays: their devices, the queues
of these, and the blocks of all others (`Boot.Inv.rounds`).
-/

namespace MatteOS.Devices

open Utils Firmware Memory ByteMemory

/-! ## Nodes -/

section Nodes

variable {node : FDTNode}

/-- A node with a name has a unit address. -/
theorem address_isSome (named : node.getName.isSome) : node.address.isSome := by
  unfold FDTNode.getName at named
  rw [FDTNode.address, Option.isSome_map, FDTNode.getAddress]
  generalize Strings.split node.name unitSign = splitted at named ⊢
  rcases splitted with _ | ⟨base, _ | ⟨unit, parts⟩⟩
  · cases named
  · rfl
  · rfl

theorem isSome_mapM {α β : Type} {f : α → Option β} {l : List α} (some : ∀ x ∈ l, (f x).isSome) :
    (l.mapM f).isSome := by
  induction l with
  | nil => rfl
  | cons x l ih =>
    obtain ⟨y, here⟩ := Option.isSome_iff_exists.1 (some x List.mem_cons_self)
    obtain ⟨ys, there⟩ := Option.isSome_iff_exists.1
      (ih fun z mem => some z (List.mem_cons_of_mem x mem))
    rw [List.mapM_cons, here, there]
    rfl

theorem getValueAsU32_isSome {property : FDTProperty} {i : Nat}
    (inside : 4 * i + 3 < property.value.length) : (property.getValueAsU32 i).isSome := by
  simp only [FDTProperty.getValueAsU32, List.getElem?_eq_getElem inside,
    List.getElem?_eq_getElem (show 4 * i < property.value.length by omega),
    List.getElem?_eq_getElem (show 4 * i + 1 < property.value.length by omega),
    List.getElem?_eq_getElem (show 4 * i + 2 < property.value.length by omega)]
  rfl

/-- The value has as many words as it says. -/
theorem interrupts_isSome (node : FDTNode) : node.interrupts.isSome := by
  unfold FDTNode.interrupts
  cases node.findProperty (literal "interrupts") with
  | error e => rfl
  | ok property =>
    refine isSome_mapM fun i mem => ?_
    rw [Option.isSome_map]
    apply getValueAsU32_isSome
    rw [List.mem_range, FDTProperty.numberOfU32Values, BitVec.toNat_ofNat] at mem
    have fewer := Nat.mod_le (property.value.length / 4) (2 ^ 32)
    omega

end Nodes

/-! ## Devices of VirtIO -/

/-- The addresses of the queues. -/
def Device.queues (d : Device) : List Nat :=
  match d.underlyingDevice with
  | .virtio _ virtQueues => virtQueues
  | .universal _ _ _ _ _ => []

/-- The device without its queues. -/
def Device.unset (d : Device) : Device :=
  match d.underlyingDevice with
  | .virtio mmioDevice _ => { d with underlyingDevice := .virtio mmioDevice [] }
  | .universal _ _ _ _ _ => d

/-- `init` of the device is that of a VirtIO device with one queue. -/
def Device.Driven (d : Device) : Prop := d.deviceType = .entropy ∨ d.deviceType = .block

instance (d : Device) : Decidable d.Driven := inferInstanceAs (Decidable (_ ∨ _))

/-- The driver and the VirtIO device at `mmioDevice` agree: the device is live with the one queue of
the driver, two cleared pages, or has none and is not live. -/
structure Agrees (hw : VirtIOHardware) (heap : PageHeap) (d : Device) (virtQueues : List Nat) :
    Prop where
  queue : d.Driven → hw.Suits 0 → ∃ page, virtQueues = [page] ∧ hw = hw.setUp 0 page ∧
    (page, 2) ∈ heap.live ∧ ∀ x, bytesAt page (PAGE_SIZE * 2) x → heap.memory x = 0
  refused : d.Driven → ¬ hw.Suits 0 → virtQueues = [] ∧ ¬ hw.Live
  idle : ¬ d.Driven → virtQueues = []

/-- A node of the tree, by what the drivers read of it. -/
structure Site where
  address : BitVec 64
  interrupts : List (BitVec 64)
deriving DecidableEq

def site (node : FDTNode) : Site := ⟨node.address.getD 0, node.interrupts.getD []⟩

theorem address_eq {node : FDTNode} (named : node.getName.isSome) :
    node.address = some (site node).address := by
  obtain ⟨a, address⟩ := Option.isSome_iff_exists.1 (address_isSome named)
  rw [site, address]
  rfl

theorem interrupts_eq (node : FDTNode) : node.interrupts = some (site node).interrupts := by
  obtain ⟨l, interrupts⟩ := Option.isSome_iff_exists.1 (interrupts_isSome node)
  rw [site, interrupts]
  rfl

/-- The device for what is at a site, if that is a VirtIO device. -/
def Site.device (s : Site) (hw : VirtIOHardware) : Option Device :=
  if hw.magicValue = virtIOMagic then some (makeVirtIODevice s.address s.interrupts hw.deviceId)
  else none

section Init

variable {σ : Type} {bus : Bus σ} {self : Nat} {b : Boot σ} {i : Nat} {d : Device}

theorem initDevice_driven {a : BitVec 64} {q : List Nat} (here : b.devices[i]? = some d)
    (underlying : d.underlyingDevice = .virtio a q) (driven : d.Driven) :
    initDevice bus self i b = (virtIOInit bus self a 0 1 b.registers b.heap).map fun s =>
      match s.1 with
      | .error e => (.error e, { b with registers := s.2.1, heap := s.2.2 })
      | .ok virtQueues => (.ok (), {
          registers := s.2.1
          heap := s.2.2
          devices := b.devices.set i { d with underlyingDevice := .virtio a virtQueues } }) := by
  unfold initDevice
  rw [here]
  simp only [Option.bind_eq_bind, Option.bind_some]
  rcases driven with entropy | block
  · simp only [entropy, underlying]
    cases virtIOInit bus self a 0 1 b.registers b.heap with
    | none => rfl
    | some s =>
      obtain ⟨result, r, heap⟩ := s
      cases result <;> rfl
  · simp only [block, underlying]
    cases virtIOInit bus self a 0 1 b.registers b.heap with
    | none => rfl
    | some s =>
      obtain ⟨result, r, heap⟩ := s
      cases result <;> rfl

theorem initDevice_idle (here : b.devices[i]? = some d) (idle : ¬ d.Driven) :
    initDevice bus self i b = some (.error "Device slot is empty.", b) := by
  unfold initDevice
  rw [here]
  simp only [Option.bind_eq_bind, Option.bind_some]
  split
  · rename_i type _
    exact absurd (.inl type) idle
  · rename_i type _
    exact absurd (.inr type) idle
  · rfl

end Init

/-! ## What a round keeps -/

/-- The call that maps the registers of a device. -/
def windowCall (address : BitVec 64) : Call :=
  .identityMapRange address (address + 0x1000) EntryBits.READ_WRITE

/-- The part of the address space that the page table reaches has room for the registers. -/
def InReach (address : BitVec 64) : Prop := address.toNat + 0x1000 ≤ 2 ^ 39

theorem windowEnd_toNat {address : BitVec 64} (reach : InReach address) :
    (address + 0x1000).toNat = address.toNat + 0x1000 := by
  unfold InReach at reach
  rw [BitVec.toNat_add, Nat.mod_eq_of_lt (by simp; omega)]
  rfl

theorem windowCall_within {address : BitVec 64} (reach : InReach address) :
    (windowCall address).WithinBounds := by
  have stop := windowEnd_toNat reach
  unfold InReach at reach
  refine ⟨?_, ?_, by decide⟩
  · rw [stop]
    omega
  · rw [stop]
    exact reach

theorem windowCall_pages {address : BitVec 64} (reach : InReach address) :
    (windowCall address).pages ≤ 2 := by
  simp only [windowCall, Call.pages, windowEnd_toNat reach]
  omega

section Rounds

variable {σ : Type} {bus : Bus σ} {view : BitVec 64 → σ → VirtIOHardware} {mm : MemoryManager}
  {t : MappedTable} {done : List (BitVec 64)} {b : Boot σ}

/-- The state of the boot after the nodes at the addresses `done`, with the page table `t`. -/
structure Boot.Inv (view : BitVec 64 → σ → VirtIOHardware) (mm : MemoryManager) (t : MappedTable)
    (done : List (BitVec 64)) (b : Boot σ) : Prop where
  heap : MappedHeap.Inv mm ⟨b.heap, [t]⟩
  agrees : ∀ d ∈ b.devices, ∀ a q, d.underlyingDevice = .virtio a q →
    a ∈ done ∧ Agrees (view a b.registers) b.heap d q
  apart : (b.devices.flatMap Device.queues).Nodup

/-- The agreement lasts while the device and the block of its queue stay what they are. -/
theorem Agrees.keep {hw : VirtIOHardware} {h h' : PageHeap} {d : Device} {q : List Nat}
    (agrees : Agrees hw h d q) (kept : ∀ page, (page, 2) ∈ h.live →
      (page, 2) ∈ h'.live ∧ AgreeOn (bytesAt page (PAGE_SIZE * 2)) h.memory h'.memory) :
    Agrees hw h' d q where
  queue driven suits := by
    obtain ⟨page, queue, setUp, live, clear⟩ := agrees.queue driven suits
    obtain ⟨live', same⟩ := kept page live
    exact ⟨page, queue, setUp, live', fun x inside => (same x inside).trans (clear x inside)⟩
  refused := agrees.refused
  idle := agrees.idle

/-- No block of two pages is a page of the table. -/
theorem not_table {h : PageHeap} (inv : MappedHeap.Inv mm ⟨h, [t]⟩) {page : Nat}
    (live : (page, 2) ∈ h.live) : page ∉ t.all := by
  intro table
  have one := (inv.held 0 t rfl).on.live page table
  have same := List.inj_on_of_nodup_map inv.heap.ptrs_nodup live one rfl
  cases same

/-- The blocks beside the table stay what they are, and beside it. -/
def Beside (t t' : MappedTable) (h h' : PageHeap) : Prop :=
  ∀ b ∈ h.live, b.1 ∉ t.all →
    b ∈ h'.live ∧ b.1 ∉ t'.all ∧ AgreeOn (bytesAt b.1 (PAGE_SIZE * b.2)) h.memory h'.memory

theorem Beside.refl (t : MappedTable) (h : PageHeap) : Beside t t h h :=
  fun _ live other => ⟨live, other, .refl _ _⟩

theorem Beside.trans {t₁ t₂ t₃ : MappedTable} {h₁ h₂ h₃ : PageHeap} (first : Beside t₁ t₂ h₁ h₂)
    (second : Beside t₂ t₃ h₂ h₃) : Beside t₁ t₃ h₁ h₃ := by
  intro b live other
  obtain ⟨live₂, other₂, same⟩ := first b live other
  obtain ⟨live₃, other₃, same'⟩ := second b live₂ other₂
  exact ⟨live₃, other₃, fun x inside => (same' x inside).trans (same x inside)⟩

/-- The queues are blocks beside the table. -/
theorem Beside.queue {t' : MappedTable} {h h' : PageHeap} (beside : Beside t t' h h')
    (inv : MappedHeap.Inv mm ⟨h, [t]⟩) {page : Nat} (live : (page, 2) ∈ h.live) :
    (page, 2) ∈ h'.live ∧ AgreeOn (bytesAt page (PAGE_SIZE * 2)) h.memory h'.memory := by
  obtain ⟨live', -, same⟩ := beside _ live (not_table inv live)
  exact ⟨live', same⟩

/-- The registers of a device are mapped. -/
theorem Boot.Inv.map (inv : b.Inv view mm t done) (layout : mm.Layout)
    (low : mm.allocStart + 4096 * mm.numberOfPages ≤ 2 ^ 56) {address : BitVec 64}
    (reach : InReach address) {n : Nat} (room : HasRoom b.heap mm.allocStart (n + 4)) :
    ∃ h pages, b.heap.identityMapRange mm.allocStart t.root address (address + 0x1000)
        EntryBits.READ_WRITE = some h ∧ HasRoom h mm.allocStart n ∧
      Boot.Inv view mm ⟨t.root, t.calls ++ [windowCall address], pages⟩ done { b with heap := h } ∧
      Beside t ⟨t.root, t.calls ++ [windowCall address], pages⟩ b.heap h := by
  have held := inv.heap.held 0 t rfl
  have pages := windowCall_pages reach
  obtain ⟨h, run, room'⟩ := held.on.runCall_room layout low held.holds (windowCall_within reach)
    (n := n + 4 - 2 * (windowCall address).pages) (by
      rwa [Nat.sub_add_cancel (by omega)])
  obtain ⟨new, live, inv', same⟩ := inv.heap.call layout low (i := 0) rfl (windowCall_within reach) run
  have beside : Beside t ⟨t.root, t.calls ++ [windowCall address], t.pages ++ new⟩ b.heap h := by
    intro block mem other
    refine ⟨?_, fun table => ?_, same block mem other⟩
    · rw [live]
      exact List.mem_append_right _ mem
    · rw [MappedTable.all, ← List.cons_append, List.mem_append] at table
      refine table.elim other fun fresh => ?_
      exact fresh_of_live inv'.heap live (List.mem_map_of_mem (List.mem_reverse.2 fresh)) mem rfl
  refine ⟨h, t.pages ++ new, run, ?_, ⟨inv', fun d mem a q underlying => ?_, inv.apart⟩, beside⟩
  · obtain ⟨k, enough⟩ : ∃ k, n + 4 - 2 * (windowCall address).pages = n + k :=
      ⟨4 - 2 * (windowCall address).pages, by omega⟩
    rw [enough] at room'
    exact room'.mono
  · obtain ⟨old, agrees⟩ := inv.agrees d mem a q underlying
    exact ⟨old, agrees.keep fun page live => beside.queue inv.heap live⟩

/-- A queue of the driver is a block of two pages. -/
theorem Agrees.live {hw : VirtIOHardware} {h : PageHeap} {d : Device} {q : List Nat}
    (agrees : Agrees hw h d q) {page : Nat} (mem : page ∈ q) : (page, 2) ∈ h.live := by
  by_cases driven : d.Driven
  · by_cases suits : hw.Suits 0
    · obtain ⟨own, queue, -, live, -⟩ := agrees.queue driven suits
      rw [queue, List.mem_singleton] at mem
      rwa [mem]
    · rw [(agrees.refused driven suits).1] at mem
      cases mem
  · rw [agrees.idle driven] at mem
    cases mem

theorem Boot.Inv.queue_live (inv : b.Inv view mm t done) {d : Device} (mem : d ∈ b.devices)
    {page : Nat} (queue : page ∈ d.queues) : (page, 2) ∈ b.heap.live := by
  have agrees := inv.agrees d mem
  unfold Device.queues at queue
  cases underlying : d.underlyingDevice with
  | virtio a q =>
    rw [underlying] at queue
    exact (agrees a q underlying).2.live queue
  | universal deviceId vendorId path type address =>
    rw [underlying] at queue
    cases queue

/-- What the kernel has of a device stays, and it gets another one. -/
theorem Boot.Inv.add (inv : b.Inv view mm t done) {address : BitVec 64} {r : σ} {h : PageHeap}
    {d : Device} (heap : MappedHeap.Inv mm ⟨h, [t]⟩)
    (beside : Beside t t b.heap h) (views : ∀ a ∈ done, view a r = view a b.registers)
    (agrees : ∀ a q, d.underlyingDevice = .virtio a q → a = address ∧ Agrees (view a r) h d q)
    (fresh : ∀ page ∈ d.queues, (page, 2) ∉ b.heap.live) (nodup : d.queues.Nodup) :
    Boot.Inv view mm t (done ++ [address]) ⟨r, h, b.devices ++ [d]⟩ := by
  refine ⟨heap, fun e mem a q underlying => ?_, ?_⟩
  · rcases List.mem_append.1 mem with old | new
    · obtain ⟨before, agrees'⟩ := inv.agrees e old a q underlying
      rw [views a before]
      exact ⟨List.mem_append_left _ before, agrees'.keep fun page live => beside.queue inv.heap live⟩
    · obtain rfl := List.mem_singleton.1 new
      obtain ⟨rfl, agrees'⟩ := agrees a q underlying
      exact ⟨List.mem_append_right _ (List.mem_singleton_self _), agrees'⟩
  · rw [List.flatMap_append, List.flatMap_singleton, List.nodup_append]
    refine ⟨inv.apart, nodup, fun page old page' new same => ?_⟩
    obtain ⟨e, mem, queue⟩ := List.mem_flatMap.1 old
    subst same
    exact fresh page new (inv.queue_live mem queue)

/-- Two pages are taken for a queue. -/
theorem Boot.Inv.take (inv : b.Inv view mm t done) (layout : mm.Layout) {n : Nat}
    (room : HasRoom b.heap mm.allocStart (n + 2)) :
    ∃ page h, b.heap.zalloc mm.allocStart 2 = some (page, h) ∧ HasRoom h mm.allocStart n ∧
      MappedHeap.Inv mm ⟨h, [t]⟩ ∧ (page, 2) ∉ b.heap.live ∧ (page, 2) ∈ h.live ∧
      (∀ x, bytesAt page (PAGE_SIZE * 2) x → h.memory x = 0) ∧ Beside t t b.heap h := by
  rw [Nat.add_comm] at room
  have pos : 1 ≤ 2 := by decide
  obtain ⟨page, h, run, room'⟩ := inv.heap.heap.zalloc_room layout pos room
  obtain ⟨inv', live, same⟩ := inv.heap.heap.zalloc layout pos run
  have took := Took.of_zalloc inv.heap.heap layout pos run
  have mem : (page, 2) ∈ h.live := by
    rw [live]
    exact List.mem_cons_self
  refine ⟨page, h, run, room', ?_, fun old => ?_, mem, fun x inside => ?_, fun block old other => ?_⟩
  · refine ⟨inv', fun i u at_i => ?_, inv.heap.apart⟩
    exact inv.heap.took layout inv' took at_i
  · have ptrs := inv'.ptrs_nodup
    rw [live, List.map_cons, List.nodup_cons] at ptrs
    exact ptrs.1 (List.mem_map_of_mem old)
  · rw [same x (inv'.not_descriptors layout mem inside)]
    exact clear_apply_inside _ inside.1 inside.2
  · refine ⟨?_, other, took.older inv' layout old⟩
    rw [live]
    exact List.mem_cons_of_mem _ old

theorem makeVirtIODevice_underlying (address : BitVec 64) (interrupts : List (BitVec 64))
    (deviceId : BitVec 32) :
    (makeVirtIODevice address interrupts deviceId).underlyingDevice = .virtio address [] := by
  unfold makeVirtIODevice
  simp only
  split_ifs <;> rfl

theorem unset_with {d : Device} {a : BitVec 64} (underlying : d.underlyingDevice = .virtio a [])
    (q : List Nat) : Device.unset { d with underlyingDevice := .virtio a q } = d := by
  obtain ⟨u, interrupts, type, needs, driver⟩ := d
  obtain rfl : u = .virtio a [] := underlying
  rfl

theorem unset_self {d : Device} {a : BitVec 64} (underlying : d.underlyingDevice = .virtio a []) :
    d.unset = d := by
  obtain ⟨u, interrupts, type, needs, driver⟩ := d
  obtain rfl : u = .virtio a [] := underlying
  rfl

/-- What the initialisation of the new device `d` at `a` leaves. -/
structure InitLeaves (view : BitVec 64 → σ → VirtIOHardware) (mm : MemoryManager) (t : MappedTable)
    (done : List (BitVec 64)) (a : BitVec 64) (d : Device) (bus : Bus σ) (n : Nat) (b b' : Boot σ) :
    Prop where
  inv : Boot.Inv view mm t (done ++ [a]) b'
  room : HasRoom b'.heap mm.allocStart n
  devices : b'.devices.map Device.unset = b.devices.map Device.unset ++ [d]
  others : OthersKept bus a b.registers b'.registers
  same : (view a b.registers).SameDevice (view a b'.registers)
  beside : Beside t t b.heap b'.heap

section NewDevice

variable {a : BitVec 64} {d : Device} {n : Nat}

/-- A device that gets no queue. -/
theorem Boot.Inv.addIdle (inv : b.Inv view mm t done)
    (others : ∀ a' ∈ done, Attached bus a' (view a') ∧ WindowsApart a' a)
    (underlying : d.underlyingDevice = .virtio a []) (room : HasRoom b.heap mm.allocStart n) {r : σ}
    (kept : OthersKept bus a b.registers r)
    (same : (view a b.registers).SameDevice (view a r)) (agrees : Agrees (view a r) b.heap d []) :
    InitLeaves view mm t done a d bus n b ⟨r, b.heap, b.devices ++ [d]⟩ := by
  have none : d.queues = [] := by
    rw [Device.queues, underlying]
  refine ⟨inv.add inv.heap (.refl t b.heap) (fun a' mem => ?_) (fun a' q under => ?_) ?_ ?_, room, ?_,
    kept, same, .refl t b.heap⟩
  · exact kept a' (view a') (others a' mem).1 (others a' mem).2
  · rw [underlying, UnderlyingDevice.virtio.injEq] at under
    obtain ⟨rfl, rfl⟩ := under
    exact ⟨rfl, agrees⟩
  · rw [none]
    exact fun page mem => absurd mem List.not_mem_nil
  · rw [none]
    exact List.nodup_nil
  · rw [List.map_append, List.map_singleton, unset_self underlying]

/-- A device that suits gets a queue. -/
theorem Boot.Inv.addLive (inv : b.Inv view mm t done) (layout : mm.Layout)
    (attached : Attached bus a (view a))
    (others : ∀ a' ∈ done, Attached bus a' (view a') ∧ WindowsApart a' a)
    (underlying : d.underlyingDevice = .virtio a []) (driven : d.Driven)
    (room : HasRoom b.heap mm.allocStart (n + 2)) (suits : (view a b.registers).Suits 0) :
    ∃ page r h, virtIOInit bus mm.allocStart a 0 1 b.registers b.heap = some (.ok [page], r, h) ∧
      InitLeaves view mm t done a d bus n b
        ⟨r, h, b.devices ++ [{ d with underlyingDevice := .virtio a [page] }]⟩ := by
  obtain ⟨page, h, taken, room', heap, fresh, live, clear, blocks⟩ := inv.take layout room
  obtain ⟨r, run, setUp, kept⟩ := virtIOInit_suits attached suits taken
  refine ⟨page, r, h, run, inv.add heap blocks (fun a' mem => ?_) (fun a' q under => ?_) ?_ ?_,
    room', ?_, kept, ?_, blocks⟩
  · exact kept a' (view a') (others a' mem).1 (others a' mem).2
  · obtain ⟨rfl, rfl⟩ := UnderlyingDevice.virtio.inj under
    refine ⟨rfl, fun _ _ => ⟨page, rfl, ?_, live, clear⟩, fun _ unsuited => ?_, fun idle => ?_⟩
    · rw [setUp]
      rfl
    · rw [setUp] at unsuited
      exact absurd suits unsuited
    · exact absurd driven idle
  · intro page' mem
    obtain rfl := List.mem_singleton.1 mem
    exact fresh
  · exact List.nodup_singleton page
  · rw [List.map_append, List.map_singleton, unset_with underlying]
  · rw [setUp]
    exact ⟨rfl, rfl, rfl, rfl, rfl⟩

/-- A new device is initialised. -/
theorem Boot.Inv.initDevice (inv : b.Inv view mm t done) (layout : mm.Layout)
    (attached : Attached bus a (view a))
    (others : ∀ a' ∈ done, Attached bus a' (view a') ∧ WindowsApart a' a)
    (underlying : d.underlyingDevice = .virtio a []) (room : HasRoom b.heap mm.allocStart (n + 2)) :
    ∃ result b', Devices.initDevice bus mm.allocStart b.devices.length
        { b with devices := b.devices ++ [d] } = some (result, b') ∧
      InitLeaves view mm t done a d bus n b b' := by
  have last : (b.devices ++ [d])[b.devices.length]? = some d := by
    rw [List.getElem?_append_right (Nat.le_refl _), Nat.sub_self]
    rfl
  by_cases driven : d.Driven
  case neg =>
    refine ⟨_, _, initDevice_idle last driven, inv.addIdle others underlying room.mono (.refl _)
      ⟨rfl, rfl, rfl, rfl, rfl⟩ ⟨?_, ?_, fun _ => rfl⟩⟩
    · exact fun is => absurd is driven
    · exact fun is => absurd is driven
  rw [initDevice_driven last underlying driven]
  dsimp only
  by_cases suits : (view a b.registers).Suits 0
  case neg =>
    obtain ⟨e, r, run, device, dead, -, kept⟩ := virtIOInit_unsuited attached mm.allocStart suits b.heap
    have refused : ¬ (view a r).Suits 0 := by
      obtain ⟨-, -, features, number, accepts⟩ := device
      unfold VirtIOHardware.Suits at suits ⊢
      rwa [features, number, accepts]
    rw [run]
    refine ⟨_, _, rfl, inv.addIdle others underlying room.mono kept device ⟨?_, ?_, ?_⟩⟩
    · exact fun _ suits' => absurd suits' refused
    · exact fun _ _ => ⟨rfl, dead⟩
    · exact fun is => absurd driven is
  obtain ⟨page, r, h, run, leaves⟩ := inv.addLive layout attached others underlying driven room suits
  rw [run]
  refine ⟨_, _, rfl, ?_⟩
  rw [List.set_append_right _ _ (Nat.le_refl _), Nat.sub_self]
  exact leaves

end NewDevice

/-- The devices after a round: those before it, and the one of the node. -/
structure RoundLeaves (view : BitVec 64 → σ → VirtIOHardware) (mm : MemoryManager) (t : MappedTable)
    (done : List (BitVec 64)) (s : Site) (bus : Bus σ) (n : Nat) (b b' : Boot σ) : Prop where
  inv : ∃ pages, b'.Inv view mm ⟨t.root, t.calls ++ [windowCall s.address], pages⟩
      (done ++ [s.address]) ∧
    Beside t ⟨t.root, t.calls ++ [windowCall s.address], pages⟩ b.heap b'.heap
  room : HasRoom b'.heap mm.allocStart n
  devices : b'.devices.map Device.unset =
    b.devices.map Device.unset ++ (s.device (view s.address b.registers)).toList
  others : OthersKept bus s.address b.registers b'.registers
  same : (view s.address b.registers).SameDevice (view s.address b'.registers)

theorem Boot.Inv.more (inv : b.Inv view mm t done) (a : BitVec 64) : b.Inv view mm t (done ++ [a]) where
  heap := inv.heap
  agrees d mem a' q underlying := by
    obtain ⟨before, agrees⟩ := inv.agrees d mem a' q underlying
    exact ⟨List.mem_append_left _ before, agrees⟩
  apart := inv.apart

theorem Boot.Inv.round (inv : b.Inv view mm t done) (layout : mm.Layout)
    (low : mm.allocStart + 4096 * mm.numberOfPages ≤ 2 ^ 56) {node : NodePointer} {s : Site}
    (address : node.node.address = some s.address)
    (interrupts : node.node.interrupts = some s.interrupts)
    (attached : Attached bus s.address (view s.address))
    (others : ∀ a' ∈ done, Attached bus a' (view a') ∧ WindowsApart a' s.address)
    (reach : InReach s.address) {n : Nat} (room : HasRoom b.heap mm.allocStart (n + 2 + 4)) :
    ∃ b', VirtIODriver.round bus mm.allocStart t.root b node = some b' ∧
      RoundLeaves view mm t done s bus n b b' := by
  obtain ⟨h, pages, run, room', inv', beside⟩ := inv.map layout low reach room
  unfold VirtIODriver.round tryToLoadMmioDevice
  rw [address, interrupts]
  simp only [Option.bind_eq_bind, Option.bind_some, run, attached.read, VirtIOHardware.read]
  by_cases magic : (view s.address b.registers).magicValue = virtIOMagic
  case neg =>
    rw [if_neg magic]
    refine ⟨_, rfl, ⟨pages, inv'.more s.address, beside⟩, room'.mono, ?_, .refl _, rfl, rfl, rfl, rfl,
      rfl⟩
    rw [Site.device, if_neg magic]
    exact (List.append_nil _).symm
  rw [if_pos magic]
  obtain ⟨result, b', initialised, leaves⟩ := inv'.initDevice layout attached others
    (makeVirtIODevice_underlying s.address s.interrupts (view s.address b.registers).deviceId) room'
  dsimp only at initialised ⊢
  simp only [Option.pure_def, Option.bind_some]
  rw [initialised]
  refine ⟨b', rfl, ⟨pages, leaves.inv, beside.trans leaves.beside⟩, leaves.room, ?_, leaves.others,
    leaves.same⟩
  rw [leaves.devices, Site.device, if_pos magic]
  rfl

/-- The devices after the rounds for the nodes at `sites`. -/
structure RoundsLeave (view : BitVec 64 → σ → VirtIOHardware) (mm : MemoryManager) (t : MappedTable)
    (done : List (BitVec 64)) (sites : List Site) (bus : Bus σ) (n : Nat) (b b' : Boot σ) :
    Prop where
  inv : ∃ pages, b'.Inv view mm ⟨t.root, t.calls ++ sites.map fun s => windowCall s.address, pages⟩
      (done ++ sites.map Site.address) ∧
    Beside t ⟨t.root, t.calls ++ sites.map fun s => windowCall s.address, pages⟩ b.heap b'.heap
  room : HasRoom b'.heap mm.allocStart n
  devices : b'.devices.map Device.unset = b.devices.map Device.unset ++
    sites.filterMap fun s => s.device (view s.address b.registers)
  others : ∀ a, Attached bus a (view a) → (∀ s ∈ sites, WindowsApart a s.address) →
    view a b'.registers = view a b.registers
  same : ∀ s ∈ sites, (view s.address b.registers).SameDevice (view s.address b'.registers)

theorem Boot.Inv.rounds {nodes : List NodePointer} {sites : List Site}
    (read : List.Forall₂ (fun node s => node.node.address = some s.address ∧
      node.node.interrupts = some s.interrupts) nodes sites)
    (inv : b.Inv view mm t done) (layout : mm.Layout)
    (low : mm.allocStart + 4096 * mm.numberOfPages ≤ 2 ^ 56)
    (attached : ∀ a ∈ done ++ sites.map Site.address, Attached bus a (view a))
    (apart : (done ++ sites.map Site.address).Pairwise WindowsApart)
    (reach : ∀ s ∈ sites, InReach s.address) {n : Nat}
    (room : HasRoom b.heap mm.allocStart (n + 6 * sites.length)) :
    ∃ b', nodes.foldlM (VirtIODriver.round bus mm.allocStart t.root) b = some b' ∧
      RoundsLeave view mm t done sites bus n b b' := by
  induction read generalizing b t done with
  | nil =>
    refine ⟨b, rfl, ⟨t.pages, ?_⟩, room, ?_, fun _ _ _ => rfl, fun s mem => ?_⟩
    · rw [List.map_nil, List.map_nil, List.append_nil, List.append_nil]
      exact ⟨inv, .refl t b.heap⟩
    · rw [List.filterMap_nil, List.append_nil]
    · cases mem
  | @cons node s nodes sites here _ ih =>
    rw [List.map_cons, List.append_cons] at attached apart
    rw [List.length_cons, Nat.mul_succ, ← Nat.add_assoc] at room
    have apart' := (List.pairwise_append.1 apart)
    have before : ∀ a ∈ done, WindowsApart a s.address := fun a mem =>
      (List.pairwise_append.1 apart'.1).2.2 a mem _ (List.mem_singleton_self _)
    have attached_s : Attached bus s.address (view s.address) :=
      attached _ (List.mem_append_left _ (List.mem_append_right _ (List.mem_singleton_self _)))
    obtain ⟨b₁, run, leaves⟩ := inv.round layout low here.1 here.2 attached_s
      (fun a mem => ⟨attached a (List.mem_append_left _ (List.mem_append_left _ mem)), before a mem⟩)
      (reach s List.mem_cons_self) room
    obtain ⟨pages, inv₁, beside₁⟩ := leaves.inv
    obtain ⟨b', rest, leaves'⟩ := ih inv₁ attached apart
      (fun s' mem => reach s' (List.mem_cons_of_mem s mem)) leaves.room
    -- the first device is beside the later ones
    have later : ∀ s' ∈ sites, WindowsApart s.address s'.address := fun s' mem =>
      apart'.2.2 s.address (List.mem_append_right _ (List.mem_singleton_self _)) _
        (List.mem_map_of_mem mem)
    have unchanged : ∀ s' ∈ sites,
        view s'.address b₁.registers = view s'.address b.registers := fun s' mem =>
      leaves.others _ _ (attached _ (List.mem_append_right _ (List.mem_map_of_mem mem)))
        (later s' mem).symm
    refine ⟨b', ?_, ?_, leaves'.room, ?_, fun a mine others => ?_, fun s' mem => ?_⟩
    · rw [List.foldlM_cons, run]
      exact rest
    · obtain ⟨pages', inv', beside'⟩ := leaves'.inv
      refine ⟨pages', ?_⟩
      rw [List.map_cons, List.map_cons, List.append_cons done, List.append_cons t.calls]
      exact ⟨inv', beside₁.trans beside'⟩
    · rw [leaves'.devices, leaves.devices, List.append_assoc]
      have rest : (sites.filterMap fun s' => s'.device (view s'.address b₁.registers)) =
          sites.filterMap fun s' => s'.device (view s'.address b.registers) :=
        List.filterMap_congr fun s' mem => by rw [unchanged s' mem]
      rw [rest, List.filterMap_cons]
      cases s.device (view s.address b.registers) <;> rfl
    · rw [leaves'.others a mine fun s' mem => others s' (List.mem_cons_of_mem s mem)]
      exact leaves.others a (view a) mine (others s List.mem_cons_self)
    · rcases List.mem_cons.1 mem with rfl | mem
      · rw [leaves'.others _ attached_s later]
        exact leaves.same
      · have same := leaves'.same s' mem
        rwa [unchanged s' mem] at same

end Rounds

end MatteOS.Devices
