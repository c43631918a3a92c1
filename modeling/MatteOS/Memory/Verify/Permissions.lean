import MatteOS.Memory.Verify.Translation

/-!
# Permissions of pages

The leaf entries of the tables are the entries that the calls of `map` have made, with the
permission bits they have added. Stores beside the tables change none of them.
-/

namespace MatteOS.Memory

open ByteMemory RadixTree

/-! ## Fields of the entries -/

namespace PageTableEntry

/-- User code may read the page. -/
def UserReadable (e : PageTableEntry) : Prop := e.isValid ∧ e.user = 1 ∧ e.read = 1

/-- User code may write the page. -/
def UserWritable (e : PageTableEntry) : Prop := e.isValid ∧ e.user = 1 ∧ e.write = 1

/-- A one-bit field of an entry to which bits are added. -/
theorem setBits_bit (e : PageTableEntry) (bits : BitVec 64) (k : Nat) :
    (e.getValue ||| bits).extractLsb' k 1 =
      e.getValue.extractLsb' k 1 ||| bits.extractLsb' k 1 := by
  apply BitVec.eq_of_getLsbD_eq
  intro i hi
  simp [hi]

theorem setBits_user (e : PageTableEntry) (bits : BitVec 64) :
    (e.setBits bits).user = e.user ||| bits.extractLsb' 4 1 := by
  have field : (setValue e.getValue).user = e.user := by rw [setValue_getValue]
  exact (setBits_bit e bits 4).trans (by rw [← field]; rfl)

theorem setBits_read (e : PageTableEntry) (bits : BitVec 64) :
    (e.setBits bits).read = e.read ||| bits.extractLsb' 1 1 := by
  have field : (setValue e.getValue).read = e.read := by rw [setValue_getValue]
  exact (setBits_bit e bits 1).trans (by rw [← field]; rfl)

theorem setBits_write (e : PageTableEntry) (bits : BitVec 64) :
    (e.setBits bits).write = e.write ||| bits.extractLsb' 2 1 := by
  have field : (setValue e.getValue).write = e.write := by rw [setValue_getValue]
  exact (setBits_bit e bits 2).trans (by rw [← field]; rfl)

end PageTableEntry

section MapEntry

variable (e : PageTableEntry) (ppn : BitVec 44) (bits : BitVec 64)

theorem mapEntry_user : (mapEntry e ppn bits).user = e.user ||| bits.extractLsb' 4 1 :=
  PageTableEntry.setBits_user _ _

theorem mapEntry_read : (mapEntry e ppn bits).read = e.read ||| bits.extractLsb' 1 1 :=
  PageTableEntry.setBits_read _ _

theorem mapEntry_write : (mapEntry e ppn bits).write = e.write ||| bits.extractLsb' 2 1 :=
  PageTableEntry.setBits_write _ _

end MapEntry

/-! ## Tables in a changing memory -/

variable {root : Nat} {src : PageSource root} {s : Vm} {g : Nat → Option PageTableEntry}

/-- The bytes of the tables: the root and the pages handed out so far. -/
def tableMemory (src : PageSource root) (zallocs : Nat) (x : Nat) : Prop :=
  bytesAt root PAGE_SIZE x ∨ ∃ k < zallocs, bytesAt (src.page k) PAGE_SIZE x

/-- The tables are what their bytes are. -/
theorem Represents.congr {t : PageTree} (rep : Represents src s t) {m : Memory}
    (same : AgreeOn (tableMemory src s.zallocs) s.memory m) :
    Represents src { s with memory := m } t := by
  refine { rep with held := rep.held.congr fun l i own => ?_ }
  have inside : ∀ x, entryAddress l i ≤ x → x < entryAddress l i + 8 →
      tableMemory src s.zallocs x := by
    intro x low high
    have hi := i.isLt
    have page : bytesAt l PAGE_SIZE x := by
      unfold bytesAt PAGE_SIZE
      unfold entryAddress at low high
      omega
    rcases rep.source l own with rfl | ⟨k, hk, rfl⟩
    · exact .inl page
    · exact .inr ⟨k, hk, page⟩
  exact load64_congr fun x low high => same x (inside x low high)

theorem Implements.congr (impl : Implements src s g) {m : Memory}
    (same : AgreeOn (tableMemory src s.zallocs) s.memory m) :
    Implements src { s with memory := m } g := by
  obtain ⟨t, rep, holds⟩ := impl
  exact ⟨t, rep.congr same, holds⟩

/-- The page of an Sv39 address, whose bits above the 39 low ones play no role. -/
def vpn (a : BitVec 64) : Nat := a.toNat / 4096 % 2 ^ 27

theorem vpn_lt (a : BitVec 64) : vpn a < 2 ^ 27 := Nat.mod_lt _ (by omega)

/-- The leaf entry of an address is the entry of its page. -/
theorem Implements.leafEntry (impl : Implements src s g) (a : BitVec 64) :
    Memory.leafEntry s.memory root (.ofU64 a) = g (vpn a) ∧
      ∀ e, g (vpn a) = some e → e.rsw = 0 ∧ e.reserved = 0 := by
  obtain ⟨t, rep, holds⟩ := impl
  have low : (BitVec.ofNat 64 (a.toNat % 2 ^ 39)).toNat = a.toNat % 2 ^ 39 := by
    rw [BitVec.toNat_ofNat]
    omega
  have path : (VirtualAddress.ofU64 a).path =
      (VirtualAddress.ofU64 (.ofNat 64 (a.toNat % 2 ^ 39))).path := by
    simp only [VirtualAddress.path, VirtualAddress.ofU64, List.cons.injEq, and_true,
      ← BitVec.toNat_inj, BitVec.extractLsb'_toNat, Nat.shiftRight_eq_div_pow, low]
    omega
  have page : (BitVec.ofNat 64 (a.toNat % 2 ^ 39)).toNat / 4096 = vpn a := by
    rw [low]
    unfold vpn
    omega
  have lookup : t.lookup (VirtualAddress.ofU64 a).path = g (vpn a) := by
    rw [path, holds _ (by rw [low]; omega), page]
  have entry := rep.leafEntry (.ofU64 a)
  rwa [lookup] at entry

/-- Where `translate` sends an address. -/
theorem Implements.translate_eq (impl : Implements src s g) (a : BitVec 64) :
    (Memory.translate s.memory root (.ofU64 a)).toOption.map (·.getValue.toNat) =
      (g (vpn a)).map fun e => 4096 * e.ppn.toNat + a.toNat % 4096 := by
  obtain ⟨entry, spare⟩ := impl.leafEntry a
  rw [translate_eq_leafEntry, entry]
  cases found : g (vpn a) with
  | none => rfl
  | some e =>
    obtain ⟨rsw, reserved⟩ := spare e found
    simp only [Option.map_some, PhysicalAddress.getValue_ofU64,
      PageTableEntry.getPpn_or_toNat rsw reserved, offset_toNat]

/-! ## Physical memory a table grants -/

/-- The byte lies in the page of a leaf entry that permits the access. -/
def Grants (m : Memory) (root : Nat) (permits : PageTableEntry → Prop) (x : Nat) : Prop :=
  ∃ (a : BitVec 64) (e : PageTableEntry), Memory.leafEntry m root (.ofU64 a) = some e ∧ permits e ∧
    x / 4096 = e.getPpn.toNat / 4096

/-- The leaf entry of the address permits the access. -/
def Permits (m : Memory) (root : Nat) (permits : PageTableEntry → Prop) (a : BitVec 64) : Prop :=
  ∃ e, Memory.leafEntry m root (.ofU64 a) = some e ∧ permits e

theorem Implements.grants_iff (impl : Implements src s g) {permits : PageTableEntry → Prop}
    {x : Nat} : Grants s.memory root permits x ↔
      ∃ page < 2 ^ 27, ∃ e, g page = some e ∧ permits e ∧ x / 4096 = e.ppn.toNat := by
  constructor
  · rintro ⟨a, e, entry, permitted, inside⟩
    obtain ⟨leaf, spare⟩ := impl.leafEntry a
    rw [leaf] at entry
    obtain ⟨rsw, reserved⟩ := spare e entry
    rw [PageTableEntry.getPpn_toNat rsw reserved] at inside
    exact ⟨vpn a, vpn_lt a, e, entry, permitted, by omega⟩
  · rintro ⟨page, low, e, entry, permitted, inside⟩
    have toNat : (BitVec.ofNat 64 (4096 * page)).toNat = 4096 * page := by
      rw [BitVec.toNat_ofNat]
      omega
    have same : vpn (.ofNat 64 (4096 * page)) = page := by
      unfold vpn
      rw [toNat]
      omega
    obtain ⟨leaf, spare⟩ := impl.leafEntry (.ofNat 64 (4096 * page))
    rw [same] at leaf spare
    obtain ⟨rsw, reserved⟩ := spare e entry
    refine ⟨.ofNat 64 (4096 * page), e, leaf.trans entry, permitted, ?_⟩
    rw [PageTableEntry.getPpn_toNat rsw reserved]
    omega

theorem Implements.permits_iff (impl : Implements src s g) {permits : PageTableEntry → Prop}
    {a : BitVec 64} : Permits s.memory root permits a ↔ ∃ e, g (vpn a) = some e ∧ permits e := by
  unfold Permits
  rw [(impl.leafEntry a).1]

end MatteOS.Memory
