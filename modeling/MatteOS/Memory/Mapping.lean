import MatteOS.Lib.Align
import MatteOS.Memory.PageTable

/-!
# Mapping pages

`MemoryManager::map`, `map_range` and `identity_map_range`. New tables come from
`zalloc(1)`, which is a parameter (`PageSupply`). Here successive calls return the pages of the
stream `pages`, cleared, and the null pointer when the stream says 0.
-/

namespace MatteOS.Memory

open ByteMemory

/-- `MemoryManager::align_value`. -/
def alignValue (value : BitVec 64) (order : Nat) : BitVec 64 :=
  (value + Align.lowMask order) &&& ~~~Align.lowMask order

/-- A call on the page table at the root. -/
inductive Call where
  | map (vaddr paddr bits : BitVec 64)
  | mapRange (virtualStart virtualEnd physicalStart bits : BitVec 64)
  | identityMapRange (start stop bits : BitVec 64)

/-- The entry with a table hung in. -/
def hang (e : PageTableEntry) (page : Nat) : PageTableEntry :=
  let pageAddress := PhysicalAddress.ofU64 (.ofNat 64 page)
  { e with valid := 1, ppn0 := pageAddress.ppn0, ppn1 := pageAddress.ppn1, ppn2 := pageAddress.ppn2 }

/-- The entry that `map` leaves, by the one before. -/
def leafOf (e : PageTableEntry) (paddr : PhysicalAddress) (bits : BitVec 64) : PageTableEntry :=
  PageTableEntry.setBits { e with
    accessed := 1, dirty := 1, valid := 1
    ppn0 := paddr.ppn0, ppn1 := paddr.ppn1, ppn2 := paddr.ppn2 } bits

/-- What `map` works on: states with a physical memory, and `zalloc(1)`. -/
structure PageSupply (M : Type → Type) (σ : Type) where
  memory : σ → Memory
  withMemory : σ → Memory → σ
  zalloc : σ → M (Nat × σ)

namespace PageSupply

variable {M : Type → Type} [Monad M] {σ : Type} (supply : PageSupply M σ)

/-- One iteration of the loop of `map`: make sure that the entry at `v` leads to a table, and
move to the entry of index `i` in it. -/
def mapStep (vaddr : VirtualAddress) (vs : Nat × σ) (i : Nat) : M (Nat × σ) := do
  let v := vs.1
  let s ←
    if (loadEntry (supply.memory vs.2) v).isValid then pure vs.2
    else do
      let (page, s) ← supply.zalloc vs.2
      pure (supply.withMemory s
        (storeEntry (supply.memory s) v (hang (loadEntry (supply.memory s) v) page)))
  let table := ((loadEntry (supply.memory s) v).getValue &&& ~~~0x1ff#64) <<< 2
  pure (entryAddress table.toNat (if i = 0 then vaddr.vpn0 else vaddr.vpn1), s)

/-- `MemoryManager::map`. -/
def map (root : Nat) (vaddr : VirtualAddress) (paddr : PhysicalAddress) (bits : BitVec 64)
    (level : Nat) (s : σ) : M σ := do
  -- `for(int i = 1; i >= level; i--)`
  let (v, s) ← ([1, 0].filter (level ≤ ·)).foldlM (supply.mapStep vaddr)
    (entryAddress root vaddr.vpn2, s)
  pure (supply.withMemory s
    (storeEntry (supply.memory s) v (leafOf (loadEntry (supply.memory s) v) paddr bits)))

def identityMapLoop (root : Nat) (bits : BitVec 64) : Nat → BitVec 64 → σ → M σ
  | 0, _, s => pure s
  | n + 1, memAddr, s => do
    let s ← supply.map root (.ofU64 memAddr) (.ofU64 memAddr) bits 0 s
    identityMapLoop root bits n (memAddr + .ofNat 64 PAGE_SIZE) s

/-- `MemoryManager::identity_map_range`. -/
def identityMapRange (root : Nat) (start stop bits : BitVec 64) (s : σ) : M σ :=
  let memAddr := start &&& ~~~Align.lowMask 12
  let numKbPages := (alignValue stop 12 - memAddr).toNat / PAGE_SIZE
  supply.identityMapLoop root bits numKbPages memAddr s

def mapRangeLoop (root : Nat) (bits : BitVec 64) : Nat → BitVec 64 → BitVec 64 → σ → M σ
  | 0, _, _, s => pure s
  | n + 1, virtualMemoryAddress, physicalMemoryAddress, s => do
    let s ← supply.map root (.ofU64 virtualMemoryAddress) (.ofU64 physicalMemoryAddress) bits 0 s
    mapRangeLoop root bits n (virtualMemoryAddress + .ofNat 64 PAGE_SIZE)
      (physicalMemoryAddress + .ofNat 64 PAGE_SIZE) s

/-- `MemoryManager::map_range`. -/
def mapRange (root : Nat) (virtualStart virtualEnd physicalStart bits : BitVec 64) (s : σ) : M σ :=
  let virtualMemoryAddress := virtualStart &&& ~~~Align.lowMask 12
  let physicalMemoryAddress := physicalStart &&& ~~~Align.lowMask 12
  let numberOfPages := (alignValue virtualEnd 12 - virtualMemoryAddress).toNat / PAGE_SIZE
  supply.mapRangeLoop root bits numberOfPages virtualMemoryAddress physicalMemoryAddress s

def run (root : Nat) (s : σ) : Call → M σ
  | .map v p bits => supply.map root (.ofU64 v) (.ofU64 p) bits 0 s
  | .mapRange vs ve ps bits => supply.mapRange root vs ve ps bits s
  | .identityMapRange start stop bits => supply.identityMapRange root start stop bits s

/-- A range loop with equal virtual and physical start is the identity loop. -/
theorem identityMapLoop_eq (root : Nat) (bits : BitVec 64) (n : Nat) (a : BitVec 64) (s : σ) :
    supply.identityMapLoop root bits n a s = supply.mapRangeLoop root bits n a a s := by
  induction n generalizing a s with
  | zero => rfl
  | succ n ih =>
    rw [identityMapLoop, mapRangeLoop]
    simp only [ih]

theorem identityMapRange_eq (root : Nat) (start stop bits : BitVec 64) (s : σ) :
    supply.identityMapRange root start stop bits s = supply.mapRange root start stop start bits s := by
  unfold identityMapRange mapRange
  exact supply.identityMapLoop_eq root bits _ _ _

section

variable [LawfulMonad M] {vaddr : VirtualAddress} {a i : Nat} {s : σ}

theorem mapStep_of_valid (valid : (loadEntry (supply.memory s) a).isValid) :
    supply.mapStep vaddr (a, s) i =
      pure (entryAddress (((loadEntry (supply.memory s) a).getValue &&& ~~~0x1ff#64) <<< 2).toNat
        (if i = 0 then vaddr.vpn0 else vaddr.vpn1), s) := by
  simp only [mapStep, valid, if_true, pure_bind]

theorem mapStep_of_invalid (invalid : (loadEntry (supply.memory s) a).isValid = false) :
    supply.mapStep vaddr (a, s) i = supply.zalloc s >>= fun taken =>
      let s := supply.withMemory taken.2 (storeEntry (supply.memory taken.2) a
        (hang (loadEntry (supply.memory taken.2) a) taken.1))
      pure (entryAddress (((loadEntry (supply.memory s) a).getValue &&& ~~~0x1ff#64) <<< 2).toNat
        (if i = 0 then vaddr.vpn0 else vaddr.vpn1), s) := by
  simp only [mapStep, invalid, Bool.false_eq_true, if_false, pure_bind]

end

end PageSupply

/-! ## A stream of pages -/

/-- Physical memory, and how many calls of `zalloc(1)` have been made. -/
structure Vm where
  memory : Memory
  zallocs : Nat

def zalloc (pages : Nat → Nat) (s : Vm) : Nat × Vm :=
  let page := pages s.zallocs
  if page = 0 then (0, { s with zallocs := s.zallocs + 1 })
  else (page, { memory := clear s.memory page PAGE_SIZE, zallocs := s.zallocs + 1 })

def pageStream (pages : Nat → Nat) : PageSupply Id Vm where
  memory := Vm.memory
  withMemory s m := { s with memory := m }
  zalloc := zalloc pages

def mapStep (pages : Nat → Nat) (vaddr : VirtualAddress) (vs : Nat × Vm) (i : Nat) : Nat × Vm :=
  ((pageStream pages).mapStep vaddr vs i).run

def map (pages : Nat → Nat) (root : Nat) (vaddr : VirtualAddress) (paddr : PhysicalAddress)
    (bits : BitVec 64) (level : Nat) (s : Vm) : Vm :=
  ((pageStream pages).map root vaddr paddr bits level s).run

def mapRangeLoop (pages : Nat → Nat) (root : Nat) (bits : BitVec 64) (n : Nat)
    (virtualMemoryAddress physicalMemoryAddress : BitVec 64) (s : Vm) : Vm :=
  ((pageStream pages).mapRangeLoop root bits n virtualMemoryAddress physicalMemoryAddress s).run

def mapRange (pages : Nat → Nat) (root : Nat) (virtualStart virtualEnd physicalStart bits : BitVec 64)
    (s : Vm) : Vm :=
  ((pageStream pages).mapRange root virtualStart virtualEnd physicalStart bits s).run

def identityMapRange (pages : Nat → Nat) (root : Nat) (start stop bits : BitVec 64) (s : Vm) : Vm :=
  ((pageStream pages).identityMapRange root start stop bits s).run

def Call.run (pages : Nat → Nat) (root : Nat) (s : Vm) (c : Call) : Vm :=
  ((pageStream pages).run root s c).run

def runCalls (pages : Nat → Nat) (root : Nat) (calls : List Call) (s : Vm) : Vm :=
  calls.foldl (Call.run pages root) s

theorem map_eq (pages : Nat → Nat) (root : Nat) (v : VirtualAddress) (p : PhysicalAddress)
    (bits : BitVec 64) (level : Nat) (s : Vm) : map pages root v p bits level s =
      let vs := ([1, 0].filter (level ≤ ·)).foldl (mapStep pages v) (entryAddress root v.vpn2, s)
      ⟨storeEntry vs.2.memory vs.1 (leafOf (loadEntry vs.2.memory vs.1) p bits), vs.2.zallocs⟩ := by
  have rounds : ([1, 0].filter (level ≤ ·)).foldl (mapStep pages v) (entryAddress root v.vpn2, s) =
      (([1, 0].filter (level ≤ ·)).foldlM ((pageStream pages).mapStep v)
        (entryAddress root v.vpn2, s)).run := List.idRun_foldlM.symm
  rw [rounds]
  rfl

theorem mapRangeLoop_succ (pages : Nat → Nat) (root : Nat) (bits : BitVec 64) (n : Nat)
    (v p : BitVec 64) (s : Vm) : mapRangeLoop pages root bits (n + 1) v p s =
      mapRangeLoop pages root bits n (v + .ofNat 64 PAGE_SIZE) (p + .ofNat 64 PAGE_SIZE)
        (map pages root (.ofU64 v) (.ofU64 p) bits 0 s) :=
  rfl

theorem mapRange_eq (pages : Nat → Nat) (root : Nat) (vs ve ps bits : BitVec 64) (s : Vm) :
    mapRange pages root vs ve ps bits s =
      mapRangeLoop pages root bits
        ((alignValue ve 12 - (vs &&& ~~~Align.lowMask 12)).toNat / PAGE_SIZE)
        (vs &&& ~~~Align.lowMask 12) (ps &&& ~~~Align.lowMask 12) s :=
  rfl

theorem identityMapRange_eq (pages : Nat → Nat) (root : Nat) (start stop bits : BitVec 64) (s : Vm) :
    identityMapRange pages root start stop bits s = mapRange pages root start stop start bits s :=
  (pageStream pages).identityMapRange_eq root start stop bits s

theorem Call.run_identityMapRange (pages : Nat → Nat) (root : Nat) (start stop bits : BitVec 64)
    (s : Vm) : (Call.identityMapRange start stop bits).run pages root s =
      Memory.mapRange pages root start stop start bits s :=
  Memory.identityMapRange_eq pages root start stop bits s

/-! ## Calls of `zalloc` are only ever added -/

theorem zalloc_zallocs (pages : Nat → Nat) (s : Vm) : (zalloc pages s).2.zallocs = s.zallocs + 1 := by
  unfold zalloc
  dsimp only
  split <;> rfl

/-- A round that finds no table asks for one page. -/
theorem mapStep_zallocs (pages : Nat → Nat) (v : VirtualAddress) (vs : Nat × Vm) (i : Nat) :
    (mapStep pages v vs i).2.zallocs =
      if (loadEntry vs.2.memory vs.1).isValid then vs.2.zallocs else vs.2.zallocs + 1 := by
  obtain ⟨a, s⟩ := vs
  by_cases valid : (loadEntry s.memory a).isValid
  · rw [mapStep, (pageStream pages).mapStep_of_valid valid, if_pos valid]
    rfl
  · have invalid : (loadEntry s.memory a).isValid = false := by simpa using valid
    rw [mapStep, (pageStream pages).mapStep_of_invalid invalid, if_neg valid]
    exact zalloc_zallocs pages s

theorem mapStep_zallocs_le (pages : Nat → Nat) (v : VirtualAddress) (vs : Nat × Vm) (i : Nat) :
    vs.2.zallocs ≤ (mapStep pages v vs i).2.zallocs := by
  rw [mapStep_zallocs]
  split <;> omega

theorem map_zallocs_le (pages : Nat → Nat) (root : Nat) (v : VirtualAddress) (p : PhysicalAddress)
    (bits : BitVec 64) (level : Nat) (s : Vm) :
    s.zallocs ≤ (map pages root v p bits level s).zallocs := by
  have loop : ∀ (l : List Nat) (vs : Nat × Vm),
      vs.2.zallocs ≤ (l.foldl (mapStep pages v) vs).2.zallocs := by
    intro l
    induction l with
    | nil => exact fun _ => Nat.le_refl _
    | cons i l ih => exact fun vs => Nat.le_trans (mapStep_zallocs_le pages v vs i) (ih _)
  rw [map_eq]
  exact loop _ (entryAddress root v.vpn2, s)

theorem mapRangeLoop_zallocs_le (pages : Nat → Nat) (root : Nat) (bits : BitVec 64) :
    ∀ n va pa s, s.zallocs ≤ (mapRangeLoop pages root bits n va pa s).zallocs
  | 0, _, _, _ => Nat.le_refl _
  | n + 1, _, _, s => Nat.le_trans (map_zallocs_le pages root _ _ bits 0 s)
      (mapRangeLoop_zallocs_le pages root bits n _ _ _)

theorem Call.run_zallocs_le (pages : Nat → Nat) (root : Nat) (s : Vm) (c : Call) :
    s.zallocs ≤ (c.run pages root s).zallocs := by
  cases c with
  | map v p bits => exact map_zallocs_le ..
  | mapRange vs ve ps bits => exact mapRangeLoop_zallocs_le ..
  | identityMapRange start stop bits =>
    rw [Call.run_identityMapRange]
    exact mapRangeLoop_zallocs_le ..

theorem runCalls_zallocs_le (pages : Nat → Nat) (root : Nat) (calls : List Call) (s : Vm) :
    s.zallocs ≤ (runCalls pages root calls s).zallocs := by
  induction calls generalizing s with
  | nil => exact Nat.le_refl _
  | cons c calls ih => exact Nat.le_trans (c.run_zallocs_le pages root s) (ih _)

end MatteOS.Memory
