import MatteOS.Memory.Verify.Permissions

/-!
# Permissions of pages mapped again

`map` replaces the page number of the entry it finds but adds its bits to the ones that are set
already. A page therefore has the permissions of all its mappings (`permissions_runMappings`), and
those of the last one only if that one permits whatever the others did.
-/

namespace MatteOS.Memory

open ByteMemory RadixTree

/-- The bits R, W, X and U among `EntryBits`. -/
def permissions (bits : BitVec 64) : BitVec 4 := bits.extractLsb' 1 4

/-- The first set of permissions is part of the second. -/
def Included (p q : BitVec 4) : Prop := p ||| q = q

instance (p q : BitVec 4) : Decidable (Included p q) := decEq _ _

theorem included_or {p q r : BitVec 4} : Included (p ||| q) r ↔ Included p r ∧ Included q r := by
  have bits : ∀ x y : BitVec 4, Included x y ↔ ∀ i < 4, x.getLsbD i → y.getLsbD i := by
    intro x y
    constructor
    · intro sub i _ hx
      rw [← sub, BitVec.getLsbD_or, hx, Bool.true_or]
    · intro sub
      apply BitVec.eq_of_getLsbD_eq
      intro i hi
      rw [BitVec.getLsbD_or]
      cases hx : x.getLsbD i with
      | false => rw [Bool.false_or]
      | true => rw [sub i hi hx, Bool.or_self]
  simp only [bits, BitVec.getLsbD_or, Bool.or_eq_true]
  constructor
  · exact fun sub => ⟨fun i hi hp => sub i hi (.inl hp), fun i hi hq => sub i hi (.inr hq)⟩
  · rintro ⟨subp, subq⟩ i hi (hp | hq)
    · exact subp i hi hp
    · exact subq i hi hq

theorem included_zero (p : BitVec 4) : Included 0 p := BitVec.zero_or

/-! ## The permissions of an entry -/

namespace PageTableEntry

/-- The permission bits of an entry. -/
def permissions (e : PageTableEntry) : BitVec 4 := e.user ++ e.execute ++ e.write ++ e.read

theorem permissions_setValue (w : BitVec 64) :
    (setValue w).permissions = Memory.permissions w := by
  apply BitVec.eq_of_getLsbD_eq
  intro i hi
  simp only [permissions, setValue, Memory.permissions, BitVec.getLsbD_append,
    BitVec.getLsbD_extractLsb']
  grind

theorem permissions_setBits (e : PageTableEntry) (bits : BitVec 64) :
    (e.setBits bits).permissions = e.permissions ||| Memory.permissions bits := by
  have own : e.permissions = Memory.permissions e.getValue := by
    rw [← permissions_setValue, setValue_getValue]
  rw [setBits, permissions_setValue, own]
  apply BitVec.eq_of_getLsbD_eq
  intro i hi
  simp [Memory.permissions, hi]

end PageTableEntry

theorem mapEntry_permissions (e : PageTableEntry) (ppn : BitVec 44) (bits : BitVec 64) :
    (mapEntry e ppn bits).permissions = e.permissions ||| permissions bits :=
  PageTableEntry.permissions_setBits _ bits

/-! ## Sequences of mappings -/

/-- A call of `map` for a page of the lowest level. -/
structure Mapping where
  vaddr : VirtualAddress
  paddr : PhysicalAddress
  bits : BitVec 64

def Mapping.run (pages : Nat → Nat) (root : Nat) (s : Vm) (m : Mapping) : Vm :=
  map pages root m.vaddr m.paddr m.bits 0 s

def runMappings (pages : Nat → Nat) (root : Nat) (mappings : List Mapping) (s : Vm) : Vm :=
  mappings.foldl (Mapping.run pages root) s

theorem runMappings_concat (pages : Nat → Nat) (root : Nat) (mappings : List Mapping) (m : Mapping)
    (s : Vm) : runMappings pages root (mappings ++ [m]) s =
      map pages root m.vaddr m.paddr m.bits 0 (runMappings pages root mappings s) := by
  rw [runMappings, List.foldl_append]
  rfl

/-- The permissions of the page on a path after a mapping, by those before. -/
def Mapping.grant (m : Mapping) (path : List (BitVec 9)) (old : Option (BitVec 4)) :
    Option (BitVec 4) :=
  if path = m.vaddr.path then some (old.getD 0 ||| permissions m.bits) else old

theorem runMappings_zallocs_le (pages : Nat → Nat) (root : Nat) (mappings : List Mapping)
    (s : Vm) : s.zallocs ≤ (runMappings pages root mappings s).zallocs := by
  induction mappings generalizing s with
  | nil => exact Nat.le_refl _
  | cons m mappings ih => exact Nat.le_trans (map_zallocs_le pages root _ _ _ _ s) (ih _)

section Mappings

variable {root : Nat} {src : PageSource root} {s : Vm} {t : PageTree}

/-- Every mapping of a page adds its permissions. -/
theorem Represents.runMappings (rep : Represents src s t) {mappings : List Mapping}
    (low : ∀ m ∈ mappings, m.bits.toNat < 256)
    (within : (Memory.runMappings src.page root mappings s).zallocs ≤ src.limit) :
    ∃ t', Represents src (Memory.runMappings src.page root mappings s) t' ∧
      ∀ path, path.length = 3 → (t'.lookup path).map (·.permissions) =
        mappings.foldl (fun old m => m.grant path old) ((t.lookup path).map (·.permissions)) := by
  induction mappings generalizing s t with
  | nil => exact ⟨t, rep, fun _ _ => rfl⟩
  | cons m mappings ih =>
    obtain ⟨t₁, rep₁, lookup₁⟩ := rep.map m.vaddr m.paddr (low m List.mem_cons_self)
      (Nat.le_trans (runMappings_zallocs_le src.page root mappings _) within)
    obtain ⟨t', rep', lookup⟩ := ih rep₁ (fun n hn => low n (List.mem_cons_of_mem m hn)) within
    refine ⟨t', rep', fun path length => ?_⟩
    rw [lookup path length, lookup₁ path length, List.foldl_cons]
    congr 1
    unfold Mapping.grant
    split
    · rw [Option.map_some, mapEntry_permissions]
      cases t.lookup path <;> rfl
    · rfl

/-- The permissions granted stay within a bound if all the parts do. -/
theorem included_foldl_grant {earlier : List Mapping} {path : List (BitVec 9)} {bound : BitVec 4}
    (old : Option (BitVec 4)) :
    Included ((earlier.foldl (fun old m => m.grant path old) old).getD 0) bound ↔
      Included (old.getD 0) bound ∧
        ∀ n ∈ earlier, n.vaddr.path = path → Included (permissions n.bits) bound := by
  induction earlier generalizing old with
  | nil => simp
  | cons n earlier ih =>
    rw [List.foldl_cons, ih, List.forall_mem_cons]
    unfold Mapping.grant
    by_cases h : path = n.vaddr.path
    · rw [if_pos h, Option.getD_some, included_or, and_assoc]
      exact and_congr_right' (and_congr_left' ⟨fun sub _ => sub, fun sub => sub h.symm⟩)
    · rw [if_neg h]
      exact and_congr_right' ⟨fun rest => ⟨fun e => absurd e.symm h, rest⟩, fun all => all.2⟩

/-- Mappings of other pages grant nothing. -/
theorem foldl_grant_of_ne {later : List Mapping} {path : List (BitVec 9)}
    (others : ∀ n ∈ later, n.vaddr.path ≠ path) (old : Option (BitVec 4)) :
    later.foldl (fun old n => n.grant path old) old = old := by
  induction later generalizing old with
  | nil => rfl
  | cons n later ih =>
    obtain ⟨first, rest⟩ := List.forall_mem_cons.1 others
    rw [List.foldl_cons, Mapping.grant, if_neg fun e => first e.symm]
    exact ih rest old

/-- The entry of a page after mappings that end with one of this page and others. -/
theorem Represents.permissions_runMappings (rep : Represents src s t) {earlier later : List Mapping}
    {m : Mapping} (low : ∀ n ∈ earlier ++ m :: later, n.bits.toNat < 256)
    (within : (Memory.runMappings src.page root (earlier ++ m :: later) s).zallocs ≤ src.limit)
    (last : ∀ n ∈ later, n.vaddr.path ≠ m.vaddr.path) :
    (Memory.leafEntry (Memory.runMappings src.page root (earlier ++ m :: later) s).memory root
        m.vaddr).map (·.permissions) =
      some ((earlier.foldl (fun old n => n.grant m.vaddr.path old)
        ((Memory.leafEntry s.memory root m.vaddr).map (·.permissions))).getD 0 |||
          permissions m.bits) := by
  obtain ⟨t', rep', lookup⟩ := rep.runMappings low within
  rw [(rep'.leafEntry _).1, (rep.leafEntry _).1, lookup _ rfl, List.foldl_append, List.foldl_cons,
    foldl_grant_of_ne last, Mapping.grant, if_pos rfl]

/-- **A page has the permissions of its most recent mapping** exactly when that mapping includes
the permissions the page had at first and those of its earlier mappings. -/
theorem leafPermissions_iff (rep : Represents src s t) {earlier later : List Mapping} {m : Mapping}
    (low : ∀ n ∈ earlier ++ m :: later, n.bits.toNat < 256)
    (within : (runMappings src.page root (earlier ++ m :: later) s).zallocs ≤ src.limit)
    (last : ∀ n ∈ later, n.vaddr.path ≠ m.vaddr.path) :
    (∃ e, leafEntry (runMappings src.page root (earlier ++ m :: later) s).memory root m.vaddr =
        some e ∧ e.permissions = permissions m.bits) ↔
      (∀ e, leafEntry s.memory root m.vaddr = some e →
        Included e.permissions (permissions m.bits)) ∧
      ∀ n ∈ earlier, n.vaddr.path = m.vaddr.path →
        Included (permissions n.bits) (permissions m.bits) := by
  have entry := rep.permissions_runMappings low within last
  have before : (∀ e, leafEntry s.memory root m.vaddr = some e →
      Included e.permissions (permissions m.bits)) ↔
      Included (((leafEntry s.memory root m.vaddr).map (·.permissions)).getD 0)
        (permissions m.bits) := by
    cases leafEntry s.memory root m.vaddr with
    | none => exact ⟨fun _ => included_zero _, fun _ _ found => nomatch found⟩
    | some e => simp
  rw [before, ← included_foldl_grant]
  obtain ⟨e, found, granted⟩ := Option.map_eq_some_iff.1 entry
  rw [found, Included, ← granted]
  constructor
  · rintro ⟨e', same, exact⟩
    cases same
    exact exact
  · exact fun exact => ⟨e, rfl, exact⟩

end Mappings

/-- The pages from 0x90000000 on. -/
def ascendingPages : PageSource 0x80000000 where
  page n := 0x90000000 + 4096 * n
  limit := 16
  root_aligned := by decide
  aligned n _ := Nat.dvd_add (by decide) (Nat.dvd_mul_right 4096 n)
  ne_null n _ := Nat.ne_of_gt (Nat.lt_add_right _ (by decide))
  addressable n lt := Nat.lt_trans
    (Nat.add_lt_add_left (Nat.mul_lt_mul_of_pos_left lt (by decide)) _) (by decide)
  injective m _ n _ same := Nat.eq_of_mul_eq_mul_left (by decide) (Nat.add_left_cancel same)
  ne_root n _ := Nat.ne_of_gt (Nat.lt_add_right _ (by decide))

theorem HoldsTree.init_ascendingPages (ok : Nat → PageTableEntry → Prop) :
    HoldsTree ok ascendingPages ⟨fun _ => 0, 0⟩ (.node 0x80000000 fun _ => .empty) :=
  .init fun _ _ _ => rfl

/-- A page that is made writable after it was readable. -/
theorem leafPermissions_iff_writable :
    ∃ e, leafEntry (runMappings ascendingPages.page 0x80000000
        ([⟨.ofU64 0x1000, .ofU64 0x5000, 0x3⟩] ++ ⟨.ofU64 0x1000, .ofU64 0x6000, 0x7⟩ ::
          [⟨.ofU64 0x2000, .ofU64 0x7000, 0xb⟩]) ⟨fun _ => 0, 0⟩).memory 0x80000000
        (.ofU64 0x1000) = some e ∧ e.permissions = permissions 0x7 := by
  have rep := represents_iff_holdsTree.2 (HoldsTree.init_ascendingPages _)
  refine (leafPermissions_iff rep ?_ ?_ ?_).2 ⟨?_, ?_⟩
  · decide
  · decide +kernel
  · decide
  · intro e found
    rw [(rep.leafEntry _).1] at found
    exact nomatch found
  · decide

/-- The pages of a section mapped READ_WRITE and then READ_EXECUTE can be written and executed. -/
theorem not_leafPermissions_exact : ¬ ∀ (root : Nat) (src : PageSource root) (s : Vm)
    (t : PageTree), Represents src s t → ∀ (v : VirtualAddress) (p : PhysicalAddress)
    (bits : BitVec 64), bits.toNat < 256 → (map src.page root v p bits 0 s).zallocs ≤ src.limit →
    ∃ e, leafEntry (map src.page root v p bits 0 s).memory root v = some e ∧
      e.permissions = permissions bits := by
  intro exact
  have rep := represents_iff_holdsTree.2 (HoldsTree.init_ascendingPages _)
  have low : ∀ m ∈ [Mapping.mk (.ofU64 0x1000) (.ofU64 0x1000) 0x7], m.bits.toNat < 256 := by
    decide
  obtain ⟨t, once, -⟩ := rep.runMappings low (by decide +kernel)
  obtain ⟨e, found, same⟩ := exact _ ascendingPages _ t once (.ofU64 0x1000) (.ofU64 0x1000) 0xb
    (by decide) (by decide +kernel)
  have both : (leafEntry (runMappings ascendingPages.page 0x80000000
      ([⟨.ofU64 0x1000, .ofU64 0x1000, 0x7⟩] ++ ⟨.ofU64 0x1000, .ofU64 0x1000, 0xb⟩ :: [])
      ⟨fun _ => 0, 0⟩).memory 0x80000000 (.ofU64 0x1000)).map (·.permissions) = some 0x7 := by
    rw [rep.permissions_runMappings (by decide) (by decide +kernel) (List.forall_mem_nil _),
      (rep.leafEntry _).1]
    decide +kernel
  have again : (leafEntry (runMappings ascendingPages.page 0x80000000
      ([⟨.ofU64 0x1000, .ofU64 0x1000, 0x7⟩] ++ ⟨.ofU64 0x1000, .ofU64 0x1000, 0xb⟩ :: [])
      ⟨fun _ => 0, 0⟩).memory 0x80000000 (.ofU64 0x1000)) = some e := by
    rw [runMappings_concat]
    exact found
  rw [again, Option.map_some, same] at both
  exact absurd both (by decide)

end MatteOS.Memory
