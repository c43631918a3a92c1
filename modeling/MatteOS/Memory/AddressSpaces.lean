import MatteOS.Memory.Mapping

/-!
# Address spaces

What `map_system_defaults` maps for the kernel, and the sections of the kernel image that
`linker.ld` lays out.
-/

namespace MatteOS.Memory

/-! ## Permissions -/

namespace EntryBits

def READ_WRITE : BitVec 64 := 1 <<< 0 ||| 1 <<< 1 ||| 1 <<< 2

def READ_EXECUTE : BitVec 64 := 1 <<< 0 ||| 1 <<< 1 ||| 1 <<< 3

def USER_READ : BitVec 64 := 1 <<< 0 ||| 1 <<< 1 ||| 1 <<< 4

def USER_READ_WRITE : BitVec 64 := 1 <<< 0 ||| 1 <<< 1 ||| 1 <<< 2 ||| 1 <<< 4

def USER_READ_EXECUTE : BitVec 64 := 1 <<< 0 ||| 1 <<< 1 ||| 1 <<< 3 ||| 1 <<< 4

def ACCESS : BitVec 64 := 1 <<< 6

def DIRTY : BitVec 64 := 1 <<< 7

end EntryBits

open EntryBits

/-! ## Sections -/

/-- `ORIGIN(ram)` -/
def MEMORY_START : BitVec 64 := 0x86000000

/-- `ORIGIN(ram) + LENGTH(ram)` -/
def MEMORY_END : BitVec 64 := 0x8e000000

/-- The symbols of `linker.ld`, in their order. -/
structure LinkerSymbols where
  textStart : BitVec 64
  textEnd : BitVec 64
  contextSwitchingStart : BitVec 64
  contextSwitchingEnd : BitVec 64
  textSpecialStart : BitVec 64
  textSpecialEnd : BitVec 64
  rodataStart : BitVec 64
  rodataEnd : BitVec 64
  dataStart : BitVec 64
  dataEnd : BitVec 64
  bssStart : BitVec 64
  bssEnd : BitVec 64
  text : MEMORY_START ≤ textStart ∧ textStart ≤ textEnd
  contextSwitching : textEnd ≤ contextSwitchingStart ∧ contextSwitchingStart ≤ contextSwitchingEnd
  textSpecial : contextSwitchingEnd ≤ textSpecialStart ∧ textSpecialStart ≤ textSpecialEnd
  rodata : textSpecialEnd ≤ rodataStart ∧ rodataStart ≤ rodataEnd
  data : rodataEnd ≤ dataStart ∧ dataStart ≤ dataEnd
  bss : dataEnd ≤ bssStart ∧ bssStart ≤ bssEnd
  fits : bssEnd.toNat + 0x200000 ≤ MEMORY_END.toNat

namespace LinkerSymbols

variable (symbols : LinkerSymbols)

def stackStart : BitVec 64 := symbols.bssEnd

def stackEnd : BitVec 64 := symbols.stackStart + 0x200000

def heapStart : BitVec 64 := symbols.stackEnd

def heapSize : BitVec 64 := MEMORY_END - symbols.heapStart

theorem order : MEMORY_START.toNat ≤ symbols.textStart.toNat ∧
    symbols.textStart.toNat ≤ symbols.textEnd.toNat ∧
    symbols.textEnd.toNat ≤ symbols.contextSwitchingStart.toNat ∧
    symbols.contextSwitchingStart.toNat ≤ symbols.contextSwitchingEnd.toNat ∧
    symbols.contextSwitchingEnd.toNat ≤ symbols.textSpecialStart.toNat ∧
    symbols.textSpecialStart.toNat ≤ symbols.textSpecialEnd.toNat ∧
    symbols.textSpecialEnd.toNat ≤ symbols.rodataStart.toNat ∧
    symbols.rodataStart.toNat ≤ symbols.rodataEnd.toNat ∧
    symbols.rodataEnd.toNat ≤ symbols.dataStart.toNat ∧
    symbols.dataStart.toNat ≤ symbols.dataEnd.toNat ∧
    symbols.dataEnd.toNat ≤ symbols.bssStart.toNat ∧
    symbols.bssStart.toNat ≤ symbols.bssEnd.toNat ∧
    symbols.bssEnd.toNat + 0x200000 ≤ MEMORY_END.toNat :=
  ⟨symbols.text.1, symbols.text.2, symbols.contextSwitching.1, symbols.contextSwitching.2,
    symbols.textSpecial.1, symbols.textSpecial.2, symbols.rodata.1, symbols.rodata.2,
    symbols.data.1, symbols.data.2, symbols.bss.1, symbols.bss.2, symbols.fits⟩

theorem heapStart_toNat : symbols.heapStart.toNat = symbols.bssEnd.toNat + 0x200000 := by
  have order := symbols.order
  have step : (0x200000 : BitVec 64).toNat = 0x200000 := rfl
  have last : MEMORY_END.toNat = 0x8e000000 := rfl
  unfold heapStart stackEnd stackStart
  rw [BitVec.toNat_add, step]
  omega

end LinkerSymbols

theorem MEMORY_START_toNat : MEMORY_START.toNat = 0x86000000 := rfl

theorem MEMORY_END_toNat : MEMORY_END.toNat = 0x8e000000 := rfl

/-- The calls of `MemoryManager::map_system_defaults`. -/
def systemDefaults (symbols : LinkerSymbols) : List Call :=
  [.identityMapRange symbols.heapStart (symbols.heapStart + symbols.heapSize) READ_WRITE,
    .identityMapRange symbols.textStart symbols.textEnd READ_EXECUTE,
    .identityMapRange symbols.rodataStart symbols.rodataEnd READ_EXECUTE,
    .identityMapRange symbols.dataStart symbols.dataEnd READ_WRITE,
    .identityMapRange symbols.bssStart symbols.bssEnd READ_WRITE,
    .identityMapRange symbols.stackStart symbols.stackEnd READ_WRITE,
    .map 0x10000000 0x10000000 READ_WRITE,
    .identityMapRange 0x02000000 0x0200ffff READ_WRITE,
    .identityMapRange 0x0c000000 0x0c002001 READ_WRITE,
    .identityMapRange 0x0c200000 0x0c208001 READ_WRITE,
    .identityMapRange symbols.contextSwitchingStart symbols.contextSwitchingEnd READ_EXECUTE,
    .identityMapRange symbols.textSpecialStart symbols.textSpecialEnd READ_EXECUTE]

end MatteOS.Memory
