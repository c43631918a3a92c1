import MatteOS.Lib.ByteMemory

/-!
# Addresses and page table entries

The bit-field structures of `VirtualAddress.h`, `PhysicalAddress.h` and
`PageTableEntry.h`. Fields are listed from the least significant bit, and
`getValue` lays them out in that order. An entry is written field by field and
read back through `getPpn`, which masks and shifts the whole value; the two views
agree when the upper software bit and the reserved bits are clear (`getPpn_eq`).
-/

namespace MatteOS.Memory

/-- A Sv39 virtual address. -/
structure VirtualAddress where
  offset : BitVec 12
  vpn0 : BitVec 9
  vpn1 : BitVec 9
  vpn2 : BitVec 9
  reserved : BitVec 25
deriving DecidableEq

def VirtualAddress.ofU64 (value : BitVec 64) : VirtualAddress where
  offset := value.extractLsb' 0 12
  vpn0 := value.extractLsb' 12 9
  vpn1 := value.extractLsb' 21 9
  vpn2 := value.extractLsb' 30 9
  reserved := value.extractLsb' 39 25

/-- A physical address. -/
structure PhysicalAddress where
  offset : BitVec 12
  ppn0 : BitVec 9
  ppn1 : BitVec 9
  ppn2 : BitVec 26
  reserved : BitVec 8
deriving DecidableEq

namespace PhysicalAddress

def ofU64 (value : BitVec 64) : PhysicalAddress where
  offset := value.extractLsb' 0 12
  ppn0 := value.extractLsb' 12 9
  ppn1 := value.extractLsb' 21 9
  ppn2 := value.extractLsb' 30 26
  reserved := value.extractLsb' 56 8

def getValue (p : PhysicalAddress) : BitVec 64 :=
  p.reserved ++ p.ppn2 ++ p.ppn1 ++ p.ppn0 ++ p.offset

/-- The physical page number as one number. -/
def ppn (p : PhysicalAddress) : BitVec 44 := p.ppn2 ++ p.ppn1 ++ p.ppn0

end PhysicalAddress

/-- A page table entry. -/
structure PageTableEntry where
  valid : BitVec 1
  read : BitVec 1
  write : BitVec 1
  execute : BitVec 1
  user : BitVec 1
  global : BitVec 1
  accessed : BitVec 1
  dirty : BitVec 1
  rsw : BitVec 2
  ppn0 : BitVec 9
  ppn1 : BitVec 9
  ppn2 : BitVec 26
  reserved : BitVec 10
deriving DecidableEq

namespace PageTableEntry

/-- The eight flag bits, from `dirty` down to `valid`. -/
def flags (e : PageTableEntry) : BitVec 8 :=
  e.dirty ++ e.accessed ++ e.global ++ e.user ++ e.execute ++ e.write ++ e.read ++ e.valid

def getValue (e : PageTableEntry) : BitVec 64 :=
  e.reserved ++ e.ppn2 ++ e.ppn1 ++ e.ppn0 ++ e.rsw ++ e.flags

/-- The entry whose value is `value` (`set_value` writes the whole word). -/
def setValue (value : BitVec 64) : PageTableEntry where
  valid := value.extractLsb' 0 1
  read := value.extractLsb' 1 1
  write := value.extractLsb' 2 1
  execute := value.extractLsb' 3 1
  user := value.extractLsb' 4 1
  global := value.extractLsb' 5 1
  accessed := value.extractLsb' 6 1
  dirty := value.extractLsb' 7 1
  rsw := value.extractLsb' 8 2
  ppn0 := value.extractLsb' 10 9
  ppn1 := value.extractLsb' 19 9
  ppn2 := value.extractLsb' 28 26
  reserved := value.extractLsb' 54 10

def setBits (e : PageTableEntry) (bits : BitVec 64) : PageTableEntry :=
  setValue (e.getValue ||| bits)

def isValid (e : PageTableEntry) : Bool := e.valid == 1

def isLeaf (e : PageTableEntry) : Bool := e.read == 1 || e.write == 1 || e.execute == 1

def getPpn (e : PageTableEntry) : BitVec 64 := (e.getValue &&& ~~~0x1ff#64) <<< 2

/-- The physical page number as one number. -/
def ppn (e : PageTableEntry) : BitVec 44 := e.ppn2 ++ e.ppn1 ++ e.ppn0

/-! ## The two views of an entry -/

@[simp] theorem setValue_getValue (e : PageTableEntry) : setValue e.getValue = e := by
  cases e
  simp only [setValue, getValue, flags, mk.injEq]
  refine ⟨?_, ?_, ?_, ?_, ?_, ?_, ?_, ?_, ?_, ?_, ?_, ?_, ?_⟩ <;>
    (apply BitVec.eq_of_getLsbD_eq
     intro i hi
     simp only [BitVec.getLsbD_extractLsb', BitVec.getLsbD_append]
     grind)

/-- The value of an entry, masked and shifted, is the address of its page. The mask takes away the
lower of the two software bits only. -/
theorem getPpn_eq {e : PageTableEntry} (software : e.rsw.getLsbD 1 = false)
    (reserved : e.reserved = 0) : e.getPpn = 0#8 ++ e.ppn ++ 0#12 := by
  apply BitVec.eq_of_getLsbD_eq
  intro i hi
  have mask : ∀ k, (0x1ff#64).getLsbD k = decide (k < 9) := by
    intro k
    rw [BitVec.getLsbD_ofNat, show (0x1ff : Nat) = 2 ^ 9 - 1 from rfl, Nat.testBit_two_pow_sub_one]
    grind
  simp only [getPpn, getValue, ppn, reserved, BitVec.getLsbD_shiftLeft, BitVec.getLsbD_and,
    BitVec.getLsbD_not, mask, BitVec.getLsbD_append, BitVec.getLsbD_zero, BitVec.ofNat_eq_ofNat]
  grind

/-- The lower software bit and the flags do not get into the address. -/
theorem getPpn_congr {e e' : PageTableEntry} (software : e.rsw.getLsbD 1 = false)
    (reserved : e.reserved = 0) (software' : e'.rsw.getLsbD 1 = false) (reserved' : e'.reserved = 0)
    (ppn : e.ppn = e'.ppn) : e.getPpn = e'.getPpn := by
  rw [getPpn_eq software reserved, getPpn_eq software' reserved', ppn]

theorem getPpn_toNat {e : PageTableEntry} (rsw : e.rsw = 0) (reserved : e.reserved = 0) :
    e.getPpn.toNat = 4096 * e.ppn.toNat := by
  have software : e.rsw.getLsbD 1 = false := by rw [rsw]; rfl
  rw [getPpn_eq software reserved, BitVec.toNat_append, BitVec.toNat_append]
  simp only [BitVec.toNat_ofNat, Nat.zero_mod, Nat.zero_shiftLeft, Nat.zero_or, Nat.or_zero]
  rw [Nat.shiftLeft_eq]
  omega

/-- The page of an entry with clear software and reserved bits, with an offset or'ed in. -/
theorem getPpn_or_toNat {e : PageTableEntry} (rsw : e.rsw = 0) (reserved : e.reserved = 0)
    (offset : BitVec 12) :
    (e.getPpn ||| offset.setWidth 64).toNat = 4096 * e.ppn.toNat + offset.toNat := by
  have h : e.getPpn ||| offset.setWidth 64 = 0#8 ++ e.ppn ++ offset := by
    have software : e.rsw.getLsbD 1 = false := by rw [rsw]; rfl
    rw [getPpn_eq software reserved]
    apply BitVec.eq_of_getLsbD_eq
    intro i hi
    simp only [BitVec.getLsbD_or, BitVec.getLsbD_append, BitVec.getLsbD_zero,
      BitVec.getLsbD_setWidth]
    grind
  rw [h, BitVec.toNat_append, BitVec.toNat_append]
  simp only [BitVec.toNat_ofNat, Nat.zero_mod, Nat.zero_shiftLeft, Nat.zero_or]
  rw [← Nat.shiftLeft_add_eq_or_of_lt offset.isLt, Nat.shiftLeft_eq]
  omega

/-! ## Setting flag bits -/

section SetBits

variable {e : PageTableEntry} {bits : BitVec 64} (low : bits.toNat < 256)

include low in
/-- Or'ing in bits of the low byte leaves every field above the flags. -/
theorem setBits_above_flags {start width : Nat} (h : 8 ≤ start) :
    (e.getValue ||| bits).extractLsb' start width = e.getValue.extractLsb' start width := by
  apply BitVec.eq_of_getLsbD_eq
  intro i hi
  have clear : bits.getLsbD (start + i) = false := by
    have pow : 2 ^ 8 ≤ 2 ^ (start + i) := Nat.pow_le_pow_right (by omega) (by omega)
    exact Nat.testBit_lt_two_pow (by omega)
  simp [BitVec.getLsbD_extractLsb', clear]

include low in
theorem setBits_rsw : (e.setBits bits).rsw = e.rsw := by
  have field : (setValue e.getValue).rsw = e.rsw := by rw [setValue_getValue]
  exact (setBits_above_flags low (by omega)).trans field

include low in
theorem setBits_reserved : (e.setBits bits).reserved = e.reserved := by
  have field : (setValue e.getValue).reserved = e.reserved := by rw [setValue_getValue]
  exact (setBits_above_flags low (by omega)).trans field

include low in
theorem setBits_ppn : (e.setBits bits).ppn = e.ppn := by
  have p0 : (setValue e.getValue).ppn0 = e.ppn0 := by rw [setValue_getValue]
  have p1 : (setValue e.getValue).ppn1 = e.ppn1 := by rw [setValue_getValue]
  have p2 : (setValue e.getValue).ppn2 = e.ppn2 := by rw [setValue_getValue]
  have q0 : (e.setBits bits).ppn0 = e.ppn0 := (setBits_above_flags low (by omega)).trans p0
  have q1 : (e.setBits bits).ppn1 = e.ppn1 := (setBits_above_flags low (by omega)).trans p1
  have q2 : (e.setBits bits).ppn2 = e.ppn2 := (setBits_above_flags low (by omega)).trans p2
  simp only [ppn, q0, q1, q2]

end SetBits

theorem setBits_isValid {e : PageTableEntry} (bits : BitVec 64) (h : e.isValid) :
    (e.setBits bits).isValid := by
  have field : (setValue e.getValue).valid = e.valid := by rw [setValue_getValue]
  simp only [isValid, beq_iff_eq] at h ⊢
  rw [← field] at h
  apply BitVec.eq_of_getLsbD_eq
  intro i hi
  have bit : e.getValue.getLsbD i = true := by
    have := congrArg (·.getLsbD i) h
    simp only [setValue, BitVec.getLsbD_extractLsb'] at this
    simpa [show i = 0 by omega] using this
  simp only [setBits, setValue, BitVec.getLsbD_extractLsb', BitVec.getLsbD_or, Nat.zero_add, bit]
  simp [show i = 0 by omega]

end PageTableEntry

/-! ## Physical addresses as numbers -/

namespace PhysicalAddress

theorem ofU64_ppn_toNat (value : BitVec 64) (h : value.toNat < 2 ^ 56) :
    (ofU64 value).ppn.toNat = value.toNat / 4096 := by
  have field : (ofU64 value).ppn = value.extractLsb' 12 44 := by
    apply BitVec.eq_of_getLsbD_eq
    intro i hi
    simp only [ofU64, ppn, BitVec.getLsbD_append, BitVec.getLsbD_extractLsb']
    grind
  rw [field, BitVec.extractLsb'_toNat, Nat.shiftRight_eq_div_pow]
  omega

@[simp] theorem getValue_ofU64 (value : BitVec 64) : (ofU64 value).getValue = value := by
  apply BitVec.eq_of_getLsbD_eq
  intro i hi
  simp only [ofU64, getValue, BitVec.getLsbD_append, BitVec.getLsbD_extractLsb']
  grind

end PhysicalAddress

end MatteOS.Memory
