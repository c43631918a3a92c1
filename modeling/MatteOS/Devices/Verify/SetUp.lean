import MatteOS.Devices.Verify.Discovery
import MatteOS.Utils.Verify.StringView

/-!
# The devices of a tree

On a board that is as its tree says the boot ends with the devices of the tree, their drivers and
their queues (`devices_set_up`), and changes nothing else in memory and no other page of the page
table (`devices_mapped`).
-/

namespace MatteOS.Devices

open Utils Firmware Memory ByteMemory

/-! ## The console -/

theorem console_isSome {serial : FDTNode} (named : serial.getName.isSome) :
    (MMIODriver.console serial).isSome := by
  rw [MMIODriver.console, address_eq named, interrupts_eq]
  rfl

/-- The console is no VirtIO device, and waits for its driver. -/
theorem console_spec {serial : FDTNode} {console : Device}
    (made : MMIODriver.console serial = some console) :
    console.deviceType = .console ∧ console.needsDriver = true ∧ console.driver = none ∧
      ∃ type address, serial.address = some address ∧
        console.underlyingDevice = .universal 0 0 (literal "/soc/serial") type address := by
  simp only [MMIODriver.console, Option.bind_eq_bind, Option.bind_eq_some_iff, Option.pure_def,
    Option.some.injEq] at made
  obtain ⟨interrupts, -, address, at_address, rfl⟩ := made
  exact ⟨rfl, rfl, rfl, _, address, at_address, rfl⟩

section Console

variable {σ : Type} {bus : Bus σ} {view : BitVec 64 → σ → VirtIOHardware} {mm : MemoryManager}
  {t : MappedTable} {done : List (BitVec 64)} {b : Boot σ}

theorem queues_console {d : Device} {deviceId vendorId : BitVec 32} {path type : Bytes}
    {address : BitVec 64}
    (under : d.underlyingDevice = .universal deviceId vendorId path type address) :
    d.queues = [] ∧ d.unset = d := by
  rw [Device.queues, Device.unset, under]
  exact ⟨rfl, rfl⟩

theorem Boot.Inv.console (inv : b.Inv view mm t done) {console : Device}
    {deviceId vendorId : BitVec 32} {path type : Bytes} {address : BitVec 64}
    (under : console.underlyingDevice = .universal deviceId vendorId path type address) :
    Boot.Inv view mm t done { b with devices := b.devices ++ [console] } where
  heap := inv.heap
  agrees d mem a q virtio := by
    rcases List.mem_append.1 mem with old | new
    · exact inv.agrees d old a q virtio
    · obtain rfl := List.mem_singleton.1 new
      rw [under] at virtio
      cases virtio
  apart := by
    rw [List.flatMap_append, List.flatMap_singleton, (queues_console under).1, List.append_nil]
    exact inv.apart

theorem MMIODriver.init_found {parser : FDTParser} {fuel self : Nat} {serial : NodePointer}
    {console : Device} (found : parser.findNode fuel (literal "/soc/serial") = some (.ok (some serial)))
    (made : MMIODriver.console serial.node = some console) :
    MMIODriver.init bus self parser fuel b =
      some { b with devices := b.devices ++ [console] } := by
  have last : (b.devices ++ [console])[b.devices.length]? = some console := by
    rw [List.getElem?_append_right (Nat.le_refl _), Nat.sub_self]
    rfl
  have idle : ¬ console.Driven := by
    rw [Device.Driven, (console_spec made).1]
    decide
  unfold MMIODriver.init
  rw [found]
  simp only [Option.bind_eq_bind, Option.bind_some, made, List.length_append, List.length_singleton,
    Nat.add_sub_cancel]
  rw [initDevice_idle last idle]
  rfl

theorem MMIODriver.init_lost {parser : FDTParser} {fuel self : Nat} {e : String}
    (lost : parser.findNode fuel (literal "/soc/serial") = some (.error e)) :
    MMIODriver.init bus self parser fuel b = some b := by
  unfold MMIODriver.init
  rw [lost]
  rfl

end Console

/-! ## Drivers -/

instance (a b : Bytes) : Decidable (SameLetters a b) := inferInstanceAs (Decidable (_ = _))

/-- The driver of a device: block devices of VirtIO have one, and the console where the tree calls
it an NS16550A. -/
def Device.expectedDriver (d : Device) : Option DeviceDriver :=
  match d.deviceType, d.underlyingDevice with
  | .block, .virtio _ _ => some .blockIODriver
  | .console, .universal _ _ _ type _ =>
    if SameLetters type (literal "ns16550a") then some .ns16550A else none
  | _, _ => none

/-- The device as a constructor of its class leaves it. -/
structure Device.Fresh (d : Device) : Prop where
  driver : d.driver = none
  needsDriver : d.needsDriver = decide (d.deviceType = .block ∨ d.deviceType = .console)

theorem ns16550A_compatible {d : Device} {deviceId vendorId : BitVec 32} {path type : Bytes}
    {address : BitVec 64} (under : d.underlyingDevice = .universal deviceId vendorId path type address)
    (console : d.deviceType = .console) :
    DeviceDriverDescriptor.ns16550A.isCompatibleWith d =
      decide (SameLetters type (literal "ns16550a")) := by
  simp only [DeviceDriverDescriptor.isCompatibleWith, console, under, ne_eq, not_true_eq_false,
    if_false]
  by_cases length : type.length = (literal "ns16550a").length
  · rw [if_neg (not_not_intro length), sameLetters_eq, Bool.eq_iff_iff, decide_eq_true_iff,
      StringValue.sameChars_iff (Nat.le_of_eq (List.length_map toLower).symm)
        (by rw [List.length_map, length]),
      List.take_of_length_le (by rw [List.length_map]),
      List.take_of_length_le (by rw [List.length_map, length])]
    rfl
  · rw [if_pos length, eq_comm, decide_eq_false_iff_not]
    intro same
    have lengths := congrArg List.length same
    rw [List.length_map, List.length_map] at lengths
    exact length lengths

/-- A device gets the driver that is made for it. -/
theorem newDriver_eq {d : Device} (fresh : d.Fresh) :
    DeviceManager.newDriver d = d.expectedDriver := by
  obtain ⟨none, needs⟩ := fresh
  rw [DeviceManager.newDriver, none, needs]
  cases type : d.deviceType with
  | block =>
    cases under : d.underlyingDevice with
    | virtio a q => simp [Device.expectedDriver, findCompatibleDrivers, deviceDriverDescriptors,
        DeviceDriverDescriptor.isCompatibleWith, DeviceDriverDescriptor.instantiateDriver, type, under,
        UnderlyingDevice.getDeviceType, Except.toOption]
    | universal i v p t a => simp [Device.expectedDriver, findCompatibleDrivers,
        deviceDriverDescriptors, DeviceDriverDescriptor.isCompatibleWith, type, under,
        UnderlyingDevice.getDeviceType]
  | console =>
    cases under : d.underlyingDevice with
    | virtio a q => simp [Device.expectedDriver, findCompatibleDrivers, deviceDriverDescriptors,
        DeviceDriverDescriptor.isCompatibleWith, type, under, UnderlyingDevice.getDeviceType]
    | universal i v p t a =>
      have other : DeviceDriverDescriptor.virtIODevice.isCompatibleWith d = false := by
        rw [DeviceDriverDescriptor.isCompatibleWith, under]
        rfl
      rw [findCompatibleDrivers, deviceDriverDescriptors,
        List.filter_cons_of_neg (by rw [other]; exact Bool.false_ne_true), List.filter_cons,
        ns16550A_compatible under type]
      simp only [Device.expectedDriver, type, under]
      by_cases same : SameLetters t (literal "ns16550a")
      · rw [if_pos same, if_pos (decide_eq_true same)]
        rfl
      · rw [if_neg same, decide_eq_false same]
        rfl
  | _ => simp [Device.expectedDriver, type]

/-- The device with its driver. -/
def Device.driven (d : Device) : Device := { d with driver := d.expectedDriver }

theorem unset_driven (d : Device) : d.driven.unset = d.unset.driven := by
  obtain ⟨_ | _, interrupts, type, needs, driver⟩ := d
  · cases type <;> rfl
  · rfl

theorem fresh_of_unset {d : Device} (fresh : d.unset.Fresh) : d.Fresh := by
  obtain ⟨_ | _, interrupts, type, needs, driver⟩ := d
  · exact ⟨fresh.driver, fresh.needsDriver⟩
  · exact fresh

section Load

variable {σ : Type} (bus : Bus σ)

/-- `init` of the driver that the device gets. -/
def initDriver (r : σ) (d : Device) : σ :=
  match d.expectedDriver with
  | none => r
  | some driver => driver.init bus d.driven r

theorem loadDriversRound_eq (s : List Device × σ) {d : Device} (fresh : d.Fresh) :
    loadDriversRound bus s d = (s.1 ++ [d.driven], initDriver bus s.2 d) := by
  rw [loadDriversRound, newDriver_eq fresh, initDriver, Device.driven]
  cases expected : d.expectedDriver with
  | none =>
    have same : { d with driver := none } = d := by rw [← fresh.driver]
    simp only [same]
  | some driver => rfl

theorem loadDrivers_fold {l : List Device} (fresh : ∀ d ∈ l, d.Fresh) (s : List Device × σ) :
    l.foldl (loadDriversRound bus) s = (s.1 ++ l.map Device.driven, l.foldl (initDriver bus) s.2) := by
  induction l generalizing s with
  | nil => rw [List.foldl_nil, List.map_nil, List.append_nil, List.foldl_nil]
  | cons d l ih =>
    rw [List.foldl_cons, loadDriversRound_eq bus s (fresh d List.mem_cons_self),
      ih fun e mem => fresh e (List.mem_cons_of_mem d mem), List.map_cons, List.append_assoc]
    rfl

theorem loadDrivers_eq {b : Boot σ} (fresh : ∀ d ∈ b.devices, d.Fresh) :
    loadDrivers bus b =
      ⟨b.devices.foldl (initDriver bus) b.registers, b.heap, b.devices.map Device.driven⟩ := by
  rw [loadDrivers, loadDrivers_fold bus fresh]
  rfl

variable {bus}

/-- The UART of the console has no register in the window of a device. -/
def UartApart (uart base : BitVec 64) : Prop :=
  ∀ k : BitVec 64, k.toNat ≤ 4 → ¬ InWindow base (uart + k)

theorem uartSetup_small : ∀ write ∈ uartSetup, write.1.toNat ≤ 4 := by
  have small : (uartSetup.all fun write => write.1.toNat ≤ 4) = true := by decide
  intro write mem
  exact of_decide_eq_true (List.all_eq_true.1 small write mem)

theorem uart_view {base uart : BitVec 64} {view : σ → VirtIOHardware}
    (attached : Attached bus base view) (apart : UartApart uart base)
    {writes : List (BitVec 64 × BitVec 8)} (small : ∀ write ∈ writes, write.1.toNat ≤ 4) (r : σ) :
    view (writes.foldl (fun r write => bus.writeByte r (uart + write.1) write.2) r) = view r := by
  induction writes generalizing r with
  | nil => rfl
  | cons write writes ih =>
    rw [List.foldl_cons, ih fun w mem => small w (List.mem_cons_of_mem write mem)]
    exact attached.byteElsewhere _ _ _ (apart _ (small write List.mem_cons_self))

/-- The drivers set up the UART and no VirtIO device. -/
theorem initDriver_view {base : BitVec 64} {view : σ → VirtIOHardware}
    (attached : Attached bus base view) {d : Device}
    (apart : ∀ deviceId vendorId path type uart,
      d.underlyingDevice = .universal deviceId vendorId path type uart → UartApart uart base) (r : σ) :
    view (initDriver bus r d) = view r := by
  unfold initDriver
  cases d.expectedDriver with
  | none => rfl
  | some driver =>
    cases driver with
    | blockIODriver => rfl
    | ns16550A =>
      cases under : d.underlyingDevice with
      | virtio a q =>
        simp only [DeviceDriver.init, Device.driven, under]
      | universal i v p t uart =>
        simp only [DeviceDriver.init, Device.driven, under]
        exact uart_view attached (apart i v p t uart under) uartSetup_small r

theorem initDrivers_view {base : BitVec 64} {view : σ → VirtIOHardware}
    (attached : Attached bus base view) {l : List Device}
    (apart : ∀ d ∈ l, ∀ deviceId vendorId path type uart,
      d.underlyingDevice = .universal deviceId vendorId path type uart → UartApart uart base) (r : σ) :
    view (l.foldl (initDriver bus) r) = view r := by
  induction l generalizing r with
  | nil => rfl
  | cons d l ih =>
    rw [List.foldl_cons, ih fun e mem => apart e (List.mem_cons_of_mem d mem)]
    exact initDriver_view attached (apart d List.mem_cons_self) r

end Load

/-! ## The tree -/

section Tree

/-- The node of the devices on the chip. -/
def socNode (tree : FDTNode) : Option NodePointer :=
  ((NodePointer.root tree).childrenNamed (literal "soc")).head?

/-- The nodes that `VirtIODriver` asks for. -/
def virtioNodes (tree : FDTNode) : List NodePointer :=
  match socNode tree with
  | some soc => soc.childrenNamed (literal "virtio_mmio")
  | none => []

/-- The node that `MMIODriver` asks for. -/
def serialNode (tree : FDTNode) : Option NodePointer :=
  (socNode tree).bind fun soc => (soc.childrenNamed (literal "serial")).head?

def sites (tree : FDTNode) : List Site := (virtioNodes tree).map fun p => site p.node

theorem noNul_virtioPath : ∀ component ∈ [literal "soc"] ++ [literal "virtio_mmio"],
    0 ∉ component := by
  decide

theorem noNul_serialPath : ∀ component ∈ [literal "soc", literal "serial"], 0 ∉ component := by
  decide

theorem split_virtioPath : Strings.split (literal "/soc/virtio_mmio") pathSeparator =
    [literal "soc"] ++ [literal "virtio_mmio"] := by
  decide

theorem split_serialPath : Strings.split (literal "/soc/serial") pathSeparator =
    [literal "soc", literal "serial"] := by
  decide

variable {parser : FDTParser} {tree : FDTNode}

theorem collects_virtioNodes (isRoot : parser.rootNode = some tree) (named : tree.BaseNamed) :
    parser.Collects (literal "/soc/virtio_mmio") (virtioNodes tree) := by
  cases head : socNode tree with
  | some soc =>
    have first : NodePointer.FirstChain [literal "soc"] (.root tree) soc := ⟨soc, head, rfl⟩
    rw [virtioNodes, head]
    exact collects_of_firstChain isRoot named split_virtioPath noNul_virtioPath first
  | none =>
    rw [virtioNodes, head]
    refine collects_of_not_firstChain isRoot named split_virtioPath noNul_virtioPath fun q first => ?_
    obtain ⟨child, other, -⟩ := first
    rw [socNode, other] at head
    cases head

theorem finds_serialNode (isRoot : parser.rootNode = some tree) (named : tree.BaseNamed) :
    parser.Finds (literal "/soc/serial")
      (match serialNode tree with
        | some serial => .ok (some serial)
        | none => .error "Node not found") := by
  cases found : serialNode tree with
  | some serial =>
    obtain ⟨soc, head, head'⟩ := Option.bind_eq_some_iff.1 found
    exact finds_of_firstChain isRoot named split_serialPath noNul_serialPath ⟨soc, head, serial, head', rfl⟩
  | none =>
    refine finds_of_not_firstChain isRoot named split_serialPath noNul_serialPath fun q first => ?_
    obtain ⟨soc, head, serial, head', -⟩ := first
    rw [serialNode, socNode, head, Option.bind_some, head'] at found
    cases found

/-- The nodes that are asked for have a name, and so an address. -/
theorem getName_virtioNodes {p : NodePointer} (mem : p ∈ virtioNodes tree) :
    p.node.getName.isSome := by
  unfold virtioNodes at mem
  cases head : socNode tree with
  | some soc =>
    rw [head] at mem
    rw [(NodePointer.mem_childrenNamed.1 mem).2]
    rfl
  | none =>
    rw [head] at mem
    cases mem

theorem getName_serialNode {p : NodePointer} (found : serialNode tree = some p) :
    p.node.getName.isSome := by
  obtain ⟨soc, -, head⟩ := Option.bind_eq_some_iff.1 found
  rw [(NodePointer.mem_childrenNamed.1 (List.mem_of_mem_head? head)).2]
  rfl

theorem read_sites (tree : FDTNode) :
    List.Forall₂ (fun (p : NodePointer) s => p.node.address = some s.address ∧
      p.node.interrupts = some s.interrupts) (virtioNodes tree) (sites tree) := by
  rw [sites, List.forall₂_map_right_iff, List.forall₂_same]
  exact fun p mem => ⟨address_eq (getName_virtioNodes mem), interrupts_eq p.node⟩

/-- The devices that the boot finds, where `hardware` says what is at an address. -/
def devicesOf (tree : FDTNode) (hardware : BitVec 64 → VirtIOHardware) : List Device :=
  (sites tree).filterMap (fun s => s.device (hardware s.address)) ++
    ((serialNode tree).bind fun serial => MMIODriver.console serial.node).toList

theorem fresh_makeVirtIODevice (address : BitVec 64) (interrupts : List (BitVec 64))
    (deviceId : BitVec 32) : (makeVirtIODevice address interrupts deviceId).Fresh := by
  unfold makeVirtIODevice
  simp only
  split_ifs
  · exact ⟨rfl, rfl⟩
  · exact ⟨rfl, rfl⟩
  · exact ⟨rfl, rfl⟩

theorem fresh_devicesOf {hardware : BitVec 64 → VirtIOHardware} {d : Device}
    (mem : d ∈ devicesOf tree hardware) : d.Fresh := by
  rcases List.mem_append.1 mem with virtio | console
  · obtain ⟨s, -, device⟩ := List.mem_filterMap.1 virtio
    unfold Site.device at device
    split_ifs at device
    obtain rfl := Option.some.inj device
    exact fresh_makeVirtIODevice _ _ _
  · obtain ⟨serial, -, made⟩ := Option.bind_eq_some_iff.1 (Option.mem_toList.1 console)
    obtain ⟨type, needs, none, -⟩ := console_spec made
    refine ⟨none, ?_⟩
    rw [needs, type]
    rfl

/-- The devices that are not VirtIO devices have the address of the UART. -/
theorem universal_devicesOf {hardware : BitVec 64 → VirtIOHardware} {d : Device}
    (mem : d ∈ devicesOf tree hardware) {deviceId vendorId : BitVec 32} {path type : Bytes}
    {uart : BitVec 64} (under : d.underlyingDevice = .universal deviceId vendorId path type uart) :
    ∃ serial, serialNode tree = some serial ∧ (site serial.node).address = uart := by
  rcases List.mem_append.1 mem with virtio | console
  · obtain ⟨s, -, device⟩ := List.mem_filterMap.1 virtio
    unfold Site.device at device
    split_ifs at device
    obtain rfl := Option.some.inj device
    rw [makeVirtIODevice_underlying] at under
    cases under
  · obtain ⟨serial, found, made⟩ := Option.bind_eq_some_iff.1 (Option.mem_toList.1 console)
    obtain ⟨-, -, -, type', address, at_address, under'⟩ := console_spec made
    obtain rfl := (UnderlyingDevice.universal.inj (under'.symm.trans under)).2.2.2.2
    refine ⟨serial, found, ?_⟩
    rw [site, at_address]
    rfl

end Tree

/-! ## The boot -/

section Board

variable {σ : Type} {bus : Bus σ} {view : BitVec 64 → σ → VirtIOHardware} {mm : MemoryManager}
  {t : MappedTable} {parser : FDTParser} {tree : FDTNode}

/-- The board is as the tree says: a VirtIO device or something else with a magic value is at each
VirtIO node, and no two of them, nor the UART, share registers. -/
structure Board (bus : Bus σ) (view : BitVec 64 → σ → VirtIOHardware) (tree : FDTNode) : Prop where
  named : tree.BaseNamed
  attached : ∀ s ∈ sites tree, Attached bus s.address (view s.address)
  apart : ((sites tree).map Site.address).Pairwise WindowsApart
  reach : ∀ s ∈ sites tree, InReach s.address
  uart : ∀ serial, serialNode tree = some serial → ∀ s ∈ sites tree,
    UartApart (site serial.node).address s.address

/-- The page table of the kernel with the registers of the devices. -/
def deviceTable (t : MappedTable) (tree : FDTNode) (pages : List Nat) : MappedTable :=
  ⟨t.root, t.calls ++ (sites tree).map fun s => windowCall s.address, pages⟩

/-- What the boot leaves of a state without devices. -/
structure BootLeaves (view : BitVec 64 → σ → VirtIOHardware) (mm : MemoryManager) (t : MappedTable)
    (tree : FDTNode) (r : σ) (h : PageHeap) (b : Boot σ) : Prop where
  table : ∃ pages, MappedHeap.Inv mm ⟨b.heap, [deviceTable t tree pages]⟩ ∧
    Beside t (deviceTable t tree pages) h b.heap
  devices : b.devices.map Device.unset = (devicesOf tree fun a => view a r).map Device.driven
  agrees : ∀ d ∈ b.devices, ∀ a q, d.underlyingDevice = .virtio a q →
    Agrees (view a b.registers) b.heap d q
  apart : (b.devices.flatMap Device.queues).Nodup

/-- The drivers find the devices. -/
theorem initDrivers_leaves (board : Board bus view tree) (isRoot : parser.rootNode = some tree)
    (layout : mm.Layout) (low : mm.allocStart + 4096 * mm.numberOfPages ≤ 2 ^ 56) (r : σ)
    {h : PageHeap} (heap : MappedHeap.Inv mm ⟨h, [t]⟩)
    (room : HasRoom h mm.allocStart (6 * (sites tree).length)) :
    ∃ n b pages, (∀ fuel, initDrivers bus mm.allocStart t.root parser (fuel + n) ⟨r, h, []⟩ = some b) ∧
      Boot.Inv view mm (deviceTable t tree pages) ((sites tree).map Site.address) b ∧
      Beside t (deviceTable t tree pages) h b.heap ∧
      b.devices.map Device.unset = devicesOf tree fun a => view a r := by
  have start : Boot.Inv view mm t [] (⟨r, h, []⟩ : Boot σ) :=
    ⟨heap, fun d mem => absurd mem List.not_mem_nil, List.nodup_nil⟩
  obtain ⟨n, collected⟩ := collects_virtioNodes isRoot board.named
  obtain ⟨n', found⟩ := finds_serialNode isRoot board.named
  have attached : ∀ a ∈ (sites tree).map Site.address, Attached bus a (view a) := by
    intro a mem
    obtain ⟨s, site, rfl⟩ := List.mem_map.1 mem
    exact board.attached s site
  rw [← Nat.zero_add (6 * _)] at room
  obtain ⟨b, run, leaves⟩ := start.rounds (read_sites tree) layout low attached board.apart
    board.reach room
  obtain ⟨pages, inv, beside⟩ := leaves.inv
  have virtio : ∀ fuel, VirtIODriver.init bus mm.allocStart t.root parser (fuel + n' + n) ⟨r, h, []⟩ =
      some b := by
    intro fuel
    rw [VirtIODriver.init, collected]
    exact run
  cases serial : serialNode tree with
  | none =>
    rw [serial] at found
    refine ⟨n' + n, b, pages, fun fuel => ?_, inv, beside, ?_⟩
    · rw [← Nat.add_assoc, initDrivers, virtio]
      have lost := found (fuel + n)
      rw [Nat.add_right_comm] at lost
      exact MMIODriver.init_lost lost
    · rw [leaves.devices, devicesOf, serial]
      exact (List.append_nil _).symm
  | some p =>
    rw [serial] at found
    obtain ⟨console, made⟩ := Option.isSome_iff_exists.1 (console_isSome (getName_serialNode serial))
    obtain ⟨-, -, -, type, address, -, under⟩ := console_spec made
    refine ⟨n' + n, { b with devices := b.devices ++ [console] }, pages, fun fuel => ?_,
      inv.console under, beside, ?_⟩
    · rw [← Nat.add_assoc, initDrivers, virtio]
      have reached := found (fuel + n)
      rw [Nat.add_right_comm] at reached
      exact MMIODriver.init_found reached made
    · rw [List.map_append, leaves.devices, devicesOf, serial, Option.bind_some, made]
      exact congrArg _ (congrArg (fun d => [d]) (queues_console under).2)

/-- The devices are found, and then they get their drivers. -/
theorem setUpDevices_leaves (board : Board bus view tree) (isRoot : parser.rootNode = some tree)
    (layout : mm.Layout) (low : mm.allocStart + 4096 * mm.numberOfPages ≤ 2 ^ 56) (r : σ)
    {h : PageHeap} (heap : MappedHeap.Inv mm ⟨h, [t]⟩)
    (room : HasRoom h mm.allocStart (6 * (sites tree).length)) :
    ∃ n b, (∀ fuel, setUpDevices bus mm.allocStart t.root parser (fuel + n) ⟨r, h, []⟩ = some b) ∧
      BootLeaves view mm t tree r h b := by
  obtain ⟨n, b, pages, run, inv, beside, devices⟩ :=
    initDrivers_leaves board isRoot layout low r heap room
  have known : ∀ d ∈ b.devices, d.unset ∈ devicesOf tree fun a => view a r := by
    intro d mem
    rw [← devices]
    exact List.mem_map_of_mem mem
  have fresh : ∀ d ∈ b.devices, d.Fresh := fun d mem => fresh_of_unset (fresh_devicesOf (known d mem))
  -- the drivers leave the VirtIO devices alone
  have views : ∀ s ∈ sites tree,
      view s.address (b.devices.foldl (initDriver bus) b.registers) = view s.address b.registers := by
    intro s mem
    refine initDrivers_view (board.attached s mem) (fun d device i v p t uart under => ?_) _
    have under' : d.unset.underlyingDevice = .universal i v p t uart := by
      rwa [(queues_console under).2]
    obtain ⟨serial, found, rfl⟩ := universal_devicesOf (known d device) under'
    exact board.uart serial found s mem
  refine ⟨n, loadDrivers bus b, fun fuel => ?_, ?_⟩
  · rw [setUpDevices, run]
    rfl
  rw [loadDrivers_eq bus fresh]
  refine ⟨⟨pages, inv.heap, beside⟩, ?_, fun d mem a q under => ?_, ?_⟩
  · rw [List.map_map, ← devices, List.map_map]
    exact List.map_congr_left fun d _ => unset_driven d
  · obtain ⟨e, old, rfl⟩ := List.mem_map.1 mem
    obtain ⟨at_site, agrees⟩ := inv.agrees e old a q under
    obtain ⟨s, site, rfl⟩ := List.mem_map.1 at_site
    rw [views s site]
    exact ⟨agrees.queue, agrees.refused, agrees.idle⟩
  · rw [List.flatMap_map]
    exact inv.apart

/-- **The devices of a tree.** The boot ends, with a device for each VirtIO node where the magic value
is, in the order of the nodes, and one for the serial node, each with the driver for its class and
type. A device with a queue to serve is live with a cleared queue of its own if the hardware suits,
and otherwise it has no queue and is not live; no two queues are the same. -/
theorem devices_set_up (board : Board bus view tree) (isRoot : parser.rootNode = some tree)
    (layout : mm.Layout) (low : mm.allocStart + 4096 * mm.numberOfPages ≤ 2 ^ 56) (r : σ)
    {h : PageHeap} (heap : MappedHeap.Inv mm ⟨h, [t]⟩)
    (room : HasRoom h mm.allocStart (6 * (sites tree).length)) :
    ∃ n b, (∀ fuel, setUpDevices bus mm.allocStart t.root parser (fuel + n) ⟨r, h, []⟩ = some b) ∧
      b.devices.map Device.unset = (devicesOf tree fun a => view a r).map Device.driven ∧
      (∀ d ∈ b.devices, ∀ a q, d.underlyingDevice = .virtio a q →
        Agrees (view a b.registers) b.heap d q) ∧
      (b.devices.flatMap Device.queues).Nodup := by
  obtain ⟨n, b, run, leaves⟩ := setUpDevices_leaves board isRoot layout low r heap room
  exact ⟨n, b, run, leaves.devices, leaves.agrees, leaves.apart⟩

/-! ## Memory -/

/-- The page has a byte of the registers. -/
def HasWindow (base : BitVec 64) (page : Nat) : Prop :=
  base.toNat / 4096 ≤ page ∧ page < (base.toNat + 0x1000 + 4095) / 4096

instance (base : BitVec 64) (page : Nat) : Decidable (HasWindow base page) :=
  inferInstanceAs (Decidable (_ ∧ _))

theorem windowCall_target {base : BitVec 64} (reach : InReach base) (page : Nat) :
    (windowCall base).target page = if HasWindow base page then some page else none := by
  rw [windowCall, Call.target, windowEnd_toNat reach]
  rfl

/-- The pages of the registers are sent to themselves, and the others where they were. -/
theorem lastTarget_windows {calls : List Call} {l : List Site} (reach : ∀ s ∈ l, InReach s.address)
    (page : Nat) :
    lastTarget (calls ++ l.map fun s => windowCall s.address) page =
      if ∃ s ∈ l, HasWindow s.address page then some page else lastTarget calls page := by
  induction l using List.reverseRecOn with
  | nil =>
    rw [List.map_nil, List.append_nil, if_neg]
    rintro ⟨s, mem, -⟩
    cases mem
  | append_singleton l s ih =>
    have before := ih fun s' mem => reach s' (List.mem_append_left _ mem)
    have here := windowCall_target (reach s (List.mem_append_right _ (List.mem_singleton_self _))) page
    rw [lastTarget] at before
    rw [List.map_append, List.map_singleton, ← List.append_assoc, lastTarget, List.reverse_append,
      List.reverse_singleton, List.singleton_append, List.findSome?_cons, here]
    by_cases covered : HasWindow s.address page
    · rw [if_pos covered, if_pos ⟨s, List.mem_append_right _ (List.mem_singleton_self _), covered⟩]
    · rw [if_neg covered]
      refine before.trans (if_congr ?_ rfl rfl)
      constructor
      · rintro ⟨s', mem, has⟩
        exact ⟨s', List.mem_append_left _ mem, has⟩
      · rintro ⟨s', mem, has⟩
        rcases List.mem_append.1 mem with old | new
        · exact ⟨s', old, has⟩
        · obtain rfl := List.mem_singleton.1 new
          exact absurd has covered

/-- What the table at `root` makes of an address. -/
def translated (h : PageHeap) (root : Nat) (a : BitVec 64) : Option Nat :=
  (translate h.memory root (.ofU64 a)).toOption.map (·.getValue.toNat)

/-- **The memory of the boot.** In the table of the kernel the registers of the devices are at their
own addresses and all other pages are where they were, and the blocks that were live beside the
table are live with the bytes they had. All this holds whatever the kernel heap does meanwhile to
its arena, where the devices and the entries of `m_devices` are. -/
theorem devices_mapped (board : Board bus view tree) (isRoot : parser.rootNode = some tree)
    (layout : mm.Layout) (low : mm.allocStart + 4096 * mm.numberOfPages ≤ 2 ^ 56) (r : σ)
    {h : PageHeap} (heap : MappedHeap.Inv mm ⟨h, [t]⟩)
    (room : HasRoom h mm.allocStart (6 * (sites tree).length))
    {arena : Nat × Nat} (live : arena ∈ h.live) (other : arena.1 ∉ t.all) :
    ∃ n b, (∀ fuel, setUpDevices bus mm.allocStart t.root parser (fuel + n) ⟨r, h, []⟩ = some b) ∧
      ∀ m, AgreeOn (fun x => ¬ bytesAt arena.1 (PAGE_SIZE * arena.2) x) b.heap.memory m →
        (∀ a : BitVec 64, a.toNat < 2 ^ 39 → translated { b.heap with memory := m } t.root a =
          if ∃ s ∈ sites tree, HasWindow s.address (a.toNat / 4096) then some a.toNat
          else translated h t.root a) ∧
        ∀ block ∈ h.live, block ≠ arena → block.1 ∉ t.all → block ∈ b.heap.live ∧
          AgreeOn (bytesAt block.1 (PAGE_SIZE * block.2)) h.memory m := by
  obtain ⟨n, b, run, leaves⟩ := setUpDevices_leaves board isRoot layout low r heap room
  obtain ⟨pages, inv, beside⟩ := leaves.table
  obtain ⟨liveArena, otherArena, -⟩ := beside arena live other
  refine ⟨n, b, run, fun m outside => ⟨fun a ha => ?_, fun block mem ne besides => ?_⟩⟩
  · have before := (heap.held 0 t rfl).translate ha
    have after := ((inv.held 0 (deviceTable t tree pages) rfl).write layout liveArena otherArena
      outside).translate ha
    rw [deviceTable, lastTarget_windows board.reach] at after
    rw [translated, translated, before]
    refine after.trans ?_
    by_cases covered : ∃ s ∈ sites tree, HasWindow s.address (a.toNat / 4096)
    · rw [if_pos covered, if_pos covered]
      exact congrArg some (Nat.div_add_mod _ _)
    · rw [if_neg covered, if_neg covered]
  · obtain ⟨mem', -, same⟩ := beside block mem besides
    refine ⟨mem', fun x inside => (outside x fun inside' => ?_).trans (same x inside)⟩
    have apart := inv.heap.blocks_apart mem' liveArena ne
    unfold ObjectStore.RegionsApart at apart
    unfold bytesAt at inside inside'
    omega

end Board

/-! ## A board with a disk and a console -/

/-- The registers of the device at `0x10001000`. -/
def diskRegister (a : BitVec 64) : Option MMIODeviceRegisterLayout :=
  [.magicValue, .deviceId, .hostFeatures, .guestFeatures, .guestPageSize, .queueSel, .queueNumMax,
    .queueNum, .queuePfn, .status].find? fun register => 0x10001000 + register.offset = a

/-- A bus with nothing but a device at `0x10001000` on it that answers. -/
def diskBus : Bus VirtIOHardware where
  read hw a := (diskRegister a).elim 0 hw.read
  write hw a value := (diskRegister a).elim hw (hw.write · value)
  writeByte hw _ _ := hw

theorem diskRegister_register (register : MMIODeviceRegisterLayout) :
    diskRegister (0x10001000 + register.offset) = some register := by
  cases register <;> rfl

theorem diskBus_attached : Attached diskBus 0x10001000 fun hw => hw where
  read hw register := by
    simp only [Bus.getRegisterValue, diskBus, diskRegister_register, Option.elim_some]
  write hw register value := by
    simp only [Bus.setRegisterValue, diskBus, diskRegister_register, Option.elim_some]
  elsewhere hw a value outside := by
    have none : diskRegister a = none := by
      rw [diskRegister, List.find?_eq_none]
      intro register _ same
      exact outside (of_decide_eq_true same ▸ inWindow_register 0x10001000 register)
    simp only [diskBus, none, Option.elim_none]
  byteElsewhere _ _ _ _ := rfl

/-- A disk whose ring can be as long as that of the kernel, before it is reset. -/
def disk : VirtIOHardware where
  magicValue := virtIOMagic
  deviceId := 2
  hostFeatures := 0x30006ed4
  queueNumMax := 1024
  accepts features := features = 0
  status := 0xFF
  guestFeatures := 0
  guestPageSize := 0
  queueSel := 1
  queueNum := 0
  queuePfn := 0x80200

/-- The tree of the board. -/
def boardTree : FDTNode :=
  ⟨[], [], [⟨literal "soc", [],
    [⟨literal "serial@10000000", [⟨literal "compatible", literal "ns16550a" ++ [0]⟩,
      ⟨literal "interrupts", [0, 0, 0, 10]⟩], []⟩,
    ⟨literal "virtio_mmio@10001000", [⟨literal "interrupts", [0, 0, 0, 1]⟩], []⟩]⟩]⟩

theorem boardTree_baseNamed : boardTree.BaseNamed := by
  have soc : Strings.IsPart unitSign (literal "soc") := ⟨by decide, by decide⟩
  have serial : Strings.IsPart unitSign (literal "serial") := ⟨by decide, by decide⟩
  have virtio : Strings.IsPart unitSign (literal "virtio_mmio") := ⟨by decide, by decide⟩
  refine ⟨⟨_, FDTNode.getName_of_base soc (.inl rfl), soc.ne_nil⟩,
    ⟨⟨_, FDTNode.getName_of_base serial (.inr ⟨literal "10000000", ⟨by decide, by decide⟩, rfl⟩),
      serial.ne_nil⟩, trivial,
    ⟨_, FDTNode.getName_of_base virtio (.inr ⟨literal "10001000", ⟨by decide, by decide⟩, rfl⟩),
      virtio.ne_nil⟩, trivial, trivial⟩, trivial⟩

theorem boardTree_sites : sites boardTree = [⟨0x10001000, [1]⟩] := by
  decide

theorem boardTree_uart :
    (serialNode boardTree).map (fun serial => (site serial.node).address) = some 0x10000000 := by
  decide

theorem boardTree_isRoot : (⟨[], some boardTree⟩ : FDTParser).rootNode = some boardTree := rfl

theorem diskBoard : Board diskBus (fun _ hw => hw) boardTree where
  named := boardTree_baseNamed
  attached s mem := by
    rw [boardTree_sites, List.mem_singleton] at mem
    rw [mem]
    exact diskBus_attached
  apart := by
    rw [boardTree_sites]
    exact List.pairwise_singleton _ _
  reach s mem := by
    rw [boardTree_sites, List.mem_singleton] at mem
    rw [mem, InReach]
    decide
  uart serial found s mem := by
    have address := boardTree_uart
    rw [found, Option.map_some] at address
    rw [boardTree_sites, List.mem_singleton] at mem
    rw [mem, Option.some.inj address]
    rintro k low ⟨j, inside, same⟩
    have distance : (k - j).toNat = 0x1000 := by bv_omega
    bv_omega

/-- The devices of the board, without what the boot makes for them. -/
theorem boardTree_devices : (devicesOf boardTree fun _ => disk).map Device.driven =
    [⟨.virtio 0x10001000 [], [1], .block, true, some .blockIODriver⟩,
      ⟨.universal 0 0 (literal "/soc/serial") (literal "ns16550a") 0x10000000, [10], .console, true,
        some .ns16550A⟩] := by
  decide

/-- The arena of the kernel heap and the page table of the kernel, in a memory of 128 pages. -/
theorem boardTable : ∃ t h arena, MappedHeap.Inv (initialManager 0x80001000 0x80000) ⟨h, [t]⟩ ∧
    HasRoom h (initialManager 0x80001000 0x80000).allocStart (6 * (sites boardTree).length) ∧
    (arena, KernelMemoryAllocator.ALLOCATION_SIZE) ∈ h.live ∧ arena ∉ t.all := by
  have bounds : HeapBounds 0x80001000 0x80000 := ⟨by decide, by decide⟩
  have layout := initialManager_layout bounds
  have room := init_hasRoom bounds (fun _ => 0) (show 1 + (64 + (1 + 6)) ≤ _ by decide)
  obtain ⟨arena, h₀, took, room₀⟩ := (init_inv bounds fun _ => 0).zalloc_room layout (by decide) room
  obtain ⟨inv₀, live₀, -⟩ := (init_inv bounds fun _ => 0).zalloc layout (by decide) took
  have start : MappedHeap.Inv (initialManager 0x80001000 0x80000) ⟨h₀, []⟩ := ⟨inv₀, nofun, nofun⟩
  obtain ⟨root, h, made, room₁⟩ := inv₀.zalloc_room layout (Nat.le_refl 1) room₀
  have grown := Took.of_zalloc inv₀ layout (Nat.le_refl 1) made
  have inv := start.create layout (by decide) made
  have mem : (arena, 64) ∈ h₀.live := live₀ ▸ List.mem_cons_self
  refine ⟨⟨root, [], []⟩, h, arena, inv, ?_, ?_, ?_⟩
  · rw [boardTree_sites]
    exact room₁
  · rw [grown.live]
    exact List.mem_append_right _ mem
  · intro same
    obtain rfl := List.mem_singleton.1 same
    exact fresh_of_live inv.heap grown.live (List.mem_singleton_self _) mem rfl

/-- The disk of the board is live with a queue, and has its driver. -/
theorem devices_set_up_board : ∃ (t : MappedTable) (h : PageHeap) (n : Nat) (b : Boot VirtIOHardware),
    (∀ fuel, setUpDevices diskBus (initialManager 0x80001000 0x80000).allocStart t.root
      ⟨[], some boardTree⟩ (fuel + n) ⟨disk, h, []⟩ = some b) ∧
    b.devices.map Device.unset =
      [⟨.virtio 0x10001000 [], [1], .block, true, some .blockIODriver⟩,
        ⟨.universal 0 0 (literal "/soc/serial") (literal "ns16550a") 0x10000000, [10], .console, true,
          some .ns16550A⟩] ∧
    (∀ d ∈ b.devices, ∀ a q, d.underlyingDevice = .virtio a q → Agrees b.registers b.heap d q) ∧
    (b.devices.flatMap Device.queues).Nodup := by
  obtain ⟨t, h, -, heap, room, -⟩ := boardTable
  have layout := initialManager_layout (⟨by decide, by decide⟩ : HeapBounds 0x80001000 0x80000)
  obtain ⟨n, b, run, devices, agrees⟩ :=
    devices_set_up diskBoard boardTree_isRoot layout (by decide) disk heap room
  rw [boardTree_devices] at devices
  exact ⟨t, h, n, b, run, devices, agrees⟩

/-- The registers of the disk are mapped, whatever is stored in the arena. -/
theorem devices_mapped_board : ∃ (t : MappedTable) (h : PageHeap) (arena n : Nat)
    (b : Boot VirtIOHardware),
    (∀ fuel, setUpDevices diskBus (initialManager 0x80001000 0x80000).allocStart t.root
      ⟨[], some boardTree⟩ (fuel + n) ⟨disk, h, []⟩ = some b) ∧
    translated { b.heap with memory := store64 b.heap.memory arena 0x40000 } t.root 0x10001070 =
      some 0x10001070 := by
  obtain ⟨t, h, arena, heap, room, live, other⟩ := boardTable
  have layout := initialManager_layout (⟨by decide, by decide⟩ : HeapBounds 0x80001000 0x80000)
  obtain ⟨n, b, run, mapped⟩ :=
    devices_mapped diskBoard boardTree_isRoot layout (by decide) disk heap room live other
  refine ⟨t, h, arena, n, b, run, ?_⟩
  obtain ⟨at_itself, -⟩ := mapped (store64 b.heap.memory arena 0x40000) fun x outside =>
    store64_apply_of_outside _ _ (by
      unfold bytesAt PAGE_SIZE KernelMemoryAllocator.ALLOCATION_SIZE at outside
      omega)
  rw [at_itself 0x10001070 (by decide), boardTree_sites]
  rfl

end MatteOS.Devices
