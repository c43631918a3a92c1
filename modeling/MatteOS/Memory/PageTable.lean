import MatteOS.Memory.PageTableEntry
import MatteOS.Utils.NumberBuffer

/-!
# Page tables in memory

A table is a page of 512 entries; `translate` is `PageTable::translate` over the
bytes of physical memory.
-/

namespace MatteOS.Memory

open ByteMemory

def PAGE_SIZE : Nat := 4096

/-- The address of entry `i` of the table at `table`. -/
def entryAddress (table : Nat) (i : BitVec 9) : Nat := table + 8 * i.toNat

def loadEntry (m : Memory) (a : Nat) : PageTableEntry := .setValue (load64 m a)

def storeEntry (m : Memory) (a : Nat) (e : PageTableEntry) : Memory := store64 m a e.getValue

/-- `PageTable::translate` on the table at `root`. -/
def translate (m : Memory) (root : Nat) (address : VirtualAddress) :
    Except String PhysicalAddress :=
  let entry := loadEntry m (entryAddress root address.vpn2)
  if !entry.isValid then .error "First entry is not valid"
  else if entry.isLeaf then .ok (.ofU64 (entry.getPpn ||| address.offset.setWidth 64))
  else
    let entry := loadEntry m (entryAddress entry.getPpn.toNat address.vpn1)
    if !entry.isValid then .error "Second entry is not valid"
    else if entry.isLeaf then .ok (.ofU64 (entry.getPpn ||| address.offset.setWidth 64))
    else
      let entry := loadEntry m (entryAddress entry.getPpn.toNat address.vpn0)
      if !entry.isValid then .error "Third entry is not valid"
      else .ok (.ofU64 (entry.getPpn ||| address.offset.setWidth 64))

/-- A round of `PageTable::debug_output`: what it prints, and the buffer, which is used again. -/
def debugEntry (m : Memory) (table : Nat) (printed : List (BitVec 8) × Utils.Buffer 64) (i : Nat) :
    Except Utils.Fault (List (BitVec 8) × Utils.Buffer 64) :=
  let entry := loadEntry m (entryAddress table (BitVec.ofNat 9 i))
  let value := entry.getValue
  if entry.isValid then do
    let index ← printed.2.itoa (BitVec.ofNat 64 i) 10
    let buffer ← index.itoa value 2
    return (printed.1 ++ Utils.literal "The value of " ++ index.cstring ++
      Utils.literal ". PTE is: " ++ buffer.cstring ++ [0x0A], buffer)
  else .ok printed

/-- `PageTable::debug_output` of the table at `table`, with what it prints. -/
def debugOutput (m : Memory) (table : Nat) (buffer : Utils.Buffer 64) :
    Except Utils.Fault (List (BitVec 8)) := do
  let printed ← (List.range 512).foldlM (debugEntry m table) ([], buffer)
  return printed.1

/-- The entry that decides about an address. -/
def leafEntry (m : Memory) (root : Nat) (address : VirtualAddress) : Option PageTableEntry :=
  let entry := loadEntry m (entryAddress root address.vpn2)
  if !entry.isValid then none
  else if entry.isLeaf then some entry
  else
    let entry := loadEntry m (entryAddress entry.getPpn.toNat address.vpn1)
    if !entry.isValid then none
    else if entry.isLeaf then some entry
    else
      let entry := loadEntry m (entryAddress entry.getPpn.toNat address.vpn0)
      if !entry.isValid then none else some entry

/-- `translate` answers from the leaf entry, whatever it permits. -/
theorem translate_eq_leafEntry (m : Memory) (root : Nat) (address : VirtualAddress) :
    (translate m root address).toOption = (leafEntry m root address).map fun e =>
      .ofU64 (e.getPpn ||| address.offset.setWidth 64) := by
  unfold translate leafEntry
  dsimp only
  split
  · rfl
  split
  · rfl
  split
  · rfl
  split
  · rfl
  split <;> rfl

theorem loadEntry_storeEntry (m : Memory) (a : Nat) (e : PageTableEntry) :
    loadEntry (storeEntry m a e) a = e := by
  simp [loadEntry, storeEntry]

/-! ## Slots -/

/-- Distinct slots of page-aligned tables do not overlap. -/
theorem entryAddress_disjoint {t u : Nat} {i j : BitVec 9} (ht : 4096 ∣ t) (hu : 4096 ∣ u)
    (h : (t, i) ≠ (u, j)) :
    entryAddress t i + 8 ≤ entryAddress u j ∨ entryAddress u j + 8 ≤ entryAddress t i := by
  have hi := i.isLt
  have hj := j.isLt
  unfold entryAddress
  obtain ⟨a, rfl⟩ := ht
  obtain ⟨b, rfl⟩ := hu
  by_cases hab : a = b
  · subst hab
    have : i.toNat ≠ j.toNat := fun e => h (by rw [BitVec.eq_of_toNat_eq e])
    omega
  · omega

/-- A slot of one page-aligned table lies outside every other page. -/
theorem entryAddress_outside {t u : Nat} (i : BitVec 9) (ht : 4096 ∣ t) (hu : 4096 ∣ u)
    (h : t ≠ u) : entryAddress t i + 8 ≤ u ∨ u + 4096 ≤ entryAddress t i := by
  have hi := i.isLt
  unfold entryAddress
  obtain ⟨a, rfl⟩ := ht
  obtain ⟨b, rfl⟩ := hu
  omega

/-! ## The path of an address -/

/-- The indices `translate` follows. -/
def VirtualAddress.path (v : VirtualAddress) : List (BitVec 9) := [v.vpn2, v.vpn1, v.vpn0]

/-- Two Sv39 addresses have the same path exactly when they lie on one page. -/
theorem path_eq_iff {a b : BitVec 64} (ha : a.toNat < 2 ^ 39) (hb : b.toNat < 2 ^ 39) :
    (VirtualAddress.ofU64 a).path = (VirtualAddress.ofU64 b).path ↔
      a.toNat / 4096 = b.toNat / 4096 := by
  simp only [VirtualAddress.path, VirtualAddress.ofU64, List.cons.injEq, and_true,
    ← BitVec.toNat_inj, BitVec.extractLsb'_toNat, Nat.shiftRight_eq_div_pow]
  omega

theorem offset_toNat (a : BitVec 64) : (VirtualAddress.ofU64 a).offset.toNat = a.toNat % 4096 := by
  simp [VirtualAddress.ofU64, BitVec.extractLsb'_toNat]

end MatteOS.Memory
