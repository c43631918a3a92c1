import MatteOS.Devices.VirtIOInit
import MatteOS.Memory.Verify.HeapMapping

/-!
# Devices come alive as the driver set them up

The specification of a VirtIO device on a bus, and what `VirtIODevice::init` makes of a device that
keeps to it: one that takes the features and has room for the ring is live, with the registers set
for the queue the driver allocated, and any other one is not live and has no queue.
-/

namespace MatteOS.Devices

open Memory ByteMemory

/-! ## VirtIO devices -/

/-- A VirtIO device: what it is and can do, and its registers. -/
structure VirtIOHardware where
  magicValue : BitVec 32
  deviceId : BitVec 32
  hostFeatures : BitVec 32
  queueNumMax : BitVec 32
  /-- whether the device can work with these features -/
  accepts : BitVec 32 → Bool
  status : BitVec 32
  guestFeatures : BitVec 32
  guestPageSize : BitVec 32
  queueSel : BitVec 32
  queueNum : BitVec 32
  queuePfn : BitVec 32

namespace VirtIOHardware

/-- What a read gives. The registers that are only written read as zero. -/
def read (hw : VirtIOHardware) : MMIODeviceRegisterLayout → BitVec 32
  | .magicValue => hw.magicValue
  | .deviceId => hw.deviceId
  | .hostFeatures => hw.hostFeatures
  | .queueNumMax => hw.queueNumMax
  | .queuePfn => hw.queuePfn
  | .status => hw.status
  | .guestFeatures | .guestPageSize | .queueSel | .queueNum => 0

/-- "Writing zero (0x0) to this register triggers a device reset." -/
def reset (hw : VirtIOHardware) : VirtIOHardware :=
  { hw with
    status := 0
    guestFeatures := 0
    guestPageSize := 0
    queueSel := 0
    queueNum := 0
    queuePfn := 0 }

/-- What a write leaves. A device that cannot work with the features clears `FEATURES_OK`. -/
def write (hw : VirtIOHardware) : MMIODeviceRegisterLayout → BitVec 32 → VirtIOHardware
  | .status, value =>
    if value = 0 then hw.reset
    else if value &&& StatusField.FeaturesOK ≠ 0 ∧ ¬ hw.accepts hw.guestFeatures then
      { hw with status := value &&& ~~~StatusField.FeaturesOK }
    else { hw with status := value }
  | .guestFeatures, value => { hw with guestFeatures := value }
  | .guestPageSize, value => { hw with guestPageSize := value }
  | .queueSel, value => { hw with queueSel := value }
  | .queueNum, value => { hw with queueNum := value }
  | .queuePfn, value => { hw with queuePfn := value }
  | .magicValue, _ | .deviceId, _ | .hostFeatures, _ | .queueNumMax, _ => hw

/-- The device has been told that the driver is ready. -/
def Live (hw : VirtIOHardware) : Prop := hw.status &&& StatusField.DriverOK ≠ 0

/-- A driver can use the device with these features and the ring of the kernel. -/
def Suits (hw : VirtIOHardware) (features : BitVec 32) : Prop :=
  hw.hostFeatures &&& features = features ∧ hw.accepts features = true ∧
    VIRTIO_RING_SIZE ≤ hw.queueNumMax.toNat

instance (hw : VirtIOHardware) (features : BitVec 32) : Decidable (hw.Suits features) :=
  inferInstanceAs (Decidable (_ ∧ _ ∧ _))

/-- The device is set up for a queue at `page`. -/
def setUp (hw : VirtIOHardware) (features : BitVec 32) (page : Nat) : VirtIOHardware :=
  { hw with
    status := 15
    guestFeatures := features
    guestPageSize := .ofNat 32 PAGE_SIZE
    queueSel := 0
    queueNum := .ofNat 32 VIRTIO_RING_SIZE
    queuePfn := .ofNat 32 page / .ofNat 32 PAGE_SIZE }

/-- The devices differ in their registers only. -/
def SameDevice (hw hw' : VirtIOHardware) : Prop :=
  hw'.magicValue = hw.magicValue ∧ hw'.deviceId = hw.deviceId ∧
    hw'.hostFeatures = hw.hostFeatures ∧ hw'.queueNumMax = hw.queueNumMax ∧
    hw'.accepts = hw.accepts

end VirtIOHardware

/-! ## On the bus -/

/-- The bytes from `base` on where a device has its registers. -/
def InWindow (base a : BitVec 64) : Prop := ∃ k : BitVec 64, k.toNat < 0x1000 ∧ a = base + k

/-- The windows of two devices share no address. -/
def WindowsApart (base base' : BitVec 64) : Prop := ∀ a, ¬ (InWindow base a ∧ InWindow base' a)

/-- A VirtIO device has its registers from `base` on, and `view` is its state. -/
structure Attached {σ : Type} (bus : Bus σ) (base : BitVec 64) (view : σ → VirtIOHardware) :
    Prop where
  read : ∀ r register, bus.getRegisterValue base register r = (view r).read register
  write : ∀ r register value,
    view (bus.setRegisterValue base register r value) = (view r).write register value
  elsewhere : ∀ r a value, ¬ InWindow base a → view (bus.write r a value) = view r
  byteElsewhere : ∀ r a value, ¬ InWindow base a → view (bus.writeByte r a value) = view r

section

variable {σ : Type} {bus : Bus σ} {base base' : BitVec 64} {view view' : σ → VirtIOHardware}

theorem inWindow_register (base : BitVec 64) (register : MMIODeviceRegisterLayout) :
    InWindow base (base + register.offset) := by
  refine ⟨register.offset, ?_, rfl⟩
  cases register <;> decide

theorem WindowsApart.symm (apart : WindowsApart base base') : WindowsApart base' base :=
  fun a both => apart a both.symm

/-- A write to a register of another device changes nothing. -/
theorem Attached.other (attached : Attached bus base view) (apart : WindowsApart base base') (r : σ)
    (register : MMIODeviceRegisterLayout) (value : BitVec 32) :
    view (bus.setRegisterValue base' register r value) = view r :=
  attached.elsewhere _ _ _ fun inside => apart _ ⟨inside, inWindow_register base' register⟩

/-! ## Queues -/

theorem queuePages : (sizeofVirtQueue + PAGE_SIZE - 1) / PAGE_SIZE = 2 := by decide

theorem allocateQueues_one (self : Nat) (heap : PageHeap) :
    allocateQueues self 2 1 heap = (heap.zalloc self 2).map fun q => ([q.1], q.2) := by
  simp only [allocateQueues]
  cases heap.zalloc self 2 <;> rfl

/-! ## Writes to one device -/

/-- Devices beside the one at `base` are as they were. -/
def OthersKept (bus : Bus σ) (base : BitVec 64) (r r' : σ) : Prop :=
  ∀ (base' : BitVec 64) (view' : σ → VirtIOHardware), Attached bus base' view' →
    WindowsApart base' base → view' r' = view' r

theorem OthersKept.refl (r : σ) : OthersKept bus base r r := fun _ _ _ _ => rfl

theorem OthersKept.set {r r' : σ} (kept : OthersKept bus base r r')
    (register : MMIODeviceRegisterLayout) (value : BitVec 32) :
    OthersKept bus base r (bus.setRegisterValue base register r' value) := by
  intro base' view' attached apart
  rw [attached.other apart]
  exact kept base' view' attached apart

/-! ## Initialisation -/

/-- The driver has reset the device and told it that it is there. -/
def VirtIOHardware.greeted (hw : VirtIOHardware) : VirtIOHardware :=
  { hw.reset with status := StatusField.Acknowledge ||| StatusField.Driver }

/-- The driver has asked for the features. -/
def VirtIOHardware.asked (hw : VirtIOHardware) (features : BitVec 32) : VirtIOHardware :=
  { hw.reset with
    status := if hw.accepts features then 11 else 3
    guestFeatures := features }

theorem VirtIOHardware.write_status_greeted (hw : VirtIOHardware) :
    ((hw.write .status 0).write .status 1).write .status 3 = hw.greeted := by
  simp [write, greeted, reset, StatusField.FeaturesOK, StatusField.Acknowledge, StatusField.Driver]

theorem VirtIOHardware.write_asked (hw : VirtIOHardware) (features : BitVec 32) :
    (hw.greeted.write .guestFeatures features).write .status 11 = hw.asked features := by
  by_cases accepted : hw.accepts features = true
  all_goals simp [write, greeted, asked, reset, accepted, StatusField.FeaturesOK]

/-- The code up to the first check. -/
theorem greet (attached : Attached bus base view) (r : σ) :
    let r₀ := bus.setRegisterValue base .status r 0
    let r₁ := bus.setRegisterValue base .status r₀ 1
    let r₂ := bus.setRegisterValue base .status r₁ 3
    bus.getRegisterValue base .status r₀ ||| StatusField.Acknowledge = 1 ∧
      view r₂ = (view r).greeted ∧ OthersKept bus base r r₂ := by
  intro r₀ r₁ r₂
  refine ⟨?_, ?_, ((OthersKept.refl r).set _ _).set _ _ |>.set _ _⟩
  · simp [attached.read, r₀, attached.write, VirtIOHardware.write, VirtIOHardware.read,
      VirtIOHardware.reset, StatusField.Acknowledge]
  · simp only [r₂, r₁, r₀, attached.write]
    exact (view r).write_status_greeted

theorem acknowledge_or_driver : (1 ||| StatusField.Driver : BitVec 32) = 3 := by decide

/-- The code from there to the answer of the device. -/
theorem ask (attached : Attached bus base view) {r r₂ : σ} (greeted : view r₂ = (view r).greeted)
    (kept : OthersKept bus base r r₂) (features : BitVec 32) :
    let r₃ := bus.setRegisterValue base .guestFeatures r₂ features
    let r₄ := bus.setRegisterValue base .status r₃ (3 ||| StatusField.FeaturesOK)
    bus.getRegisterValue base .status r₄ = (if (view r).accepts features then 11 else 3) ∧
      view r₄ = (view r).asked features ∧ OthersKept bus base r r₄ := by
  intro r₃ r₄
  have asked : view r₄ = (view r).asked features := by
    simp only [r₄, r₃, attached.write, greeted]
    exact (view r).write_asked features
  refine ⟨?_, asked, (kept.set _ _).set _ _⟩
  rw [attached.read, asked]
  rfl

theorem not_live_greeted (hw : VirtIOHardware) : ¬ hw.greeted.Live := fun live => live (by
  simp [VirtIOHardware.greeted, StatusField.Acknowledge, StatusField.Driver, StatusField.DriverOK])

theorem not_live_asked (hw : VirtIOHardware) (features : BitVec 32) : ¬ (hw.asked features).Live := by
  simp only [VirtIOHardware.Live, VirtIOHardware.asked]
  split <;> decide

/-- A device that does not suit is left without a queue, and not live. -/
theorem virtIOInit_unsuited (attached : Attached bus base view) (self : Nat)
    {features : BitVec 32} {r : σ} (unsuited : ¬ (view r).Suits features) (heap : PageHeap) :
    ∃ e r', virtIOInit bus self base features 1 r heap = some (.error e, r', heap) ∧
      (view r).SameDevice (view r') ∧ ¬ (view r').Live ∧ (view r').queuePfn = 0 ∧
      OthersKept bus base r r' := by
  obtain ⟨one, greeted, kept⟩ := greet attached r
  obtain ⟨answer, asked, kept'⟩ := ask attached greeted kept features
  simp only [virtIOInit, one, acknowledge_or_driver]
  by_cases offered : (view r).hostFeatures &&& features = features
  case neg =>
    rw [if_pos (by rw [attached.read, greeted]; exact offered)]
    refine ⟨_, _, rfl, ?_, ?_, ?_, kept⟩
    all_goals rw [greeted]
    · exact ⟨rfl, rfl, rfl, rfl, rfl⟩
    · exact not_live_greeted _
    · rfl
  rw [if_neg (by rw [not_not, attached.read, greeted]; exact offered), answer]
  by_cases accepted : (view r).accepts features = true
  case neg =>
    rw [if_neg accepted, if_pos (by decide)]
    refine ⟨_, _, rfl, ?_, ?_, ?_, kept'⟩
    all_goals rw [asked]
    · exact ⟨rfl, rfl, rfl, rfl, rfl⟩
    · exact not_live_asked _ features
    · rfl
  have short : (view r).queueNumMax.toNat < VIRTIO_RING_SIZE :=
    Nat.lt_of_not_le fun long => unsuited ⟨offered, accepted, long⟩
  rw [if_pos accepted, if_neg (by decide), if_pos (by rw [attached.read, asked]; exact short)]
  refine ⟨_, _, rfl, ?_, ?_, ?_, kept'.set _ _⟩
  all_goals rw [attached.write, asked]
  · exact ⟨rfl, rfl, rfl, rfl, rfl⟩
  · exact not_live_asked _ features
  · rfl

/-- A device that suits is live with a new queue, where there are two pages for it. -/
theorem virtIOInit_suits (attached : Attached bus base view) {self page : Nat}
    {features : BitVec 32} {r : σ} (suits : (view r).Suits features) {heap heap' : PageHeap}
    (taken : heap.zalloc self 2 = some (page, heap')) :
    ∃ r', virtIOInit bus self base features 1 r heap = some (.ok [page], r', heap') ∧
      view r' = (view r).setUp features page ∧ OthersKept bus base r r' := by
  obtain ⟨offered, accepts, long⟩ := suits
  obtain ⟨one, greeted, kept⟩ := greet attached r
  obtain ⟨answer, asked, kept'⟩ := ask attached greeted kept features
  rw [if_pos accepts] at answer
  simp only [virtIOInit, one, acknowledge_or_driver, answer]
  rw [if_neg (by rw [not_not, attached.read, greeted]; exact offered), if_neg (by decide),
    if_neg (by rw [attached.read, asked]; exact Nat.not_lt_of_le long), queuePages,
    allocateQueues_one, taken]
  refine ⟨_, rfl, ?_, ((((kept'.set _ _).set _ _).set _ _).set _ _).set _ _⟩
  rw [attached.write, attached.write, attached.write, attached.write, attached.write, asked]
  simp [VirtIOHardware.write, VirtIOHardware.asked, VirtIOHardware.setUp, VirtIOHardware.reset,
    StatusField.DriverOK, StatusField.FeaturesOK, accepts]

end

end MatteOS.Devices
