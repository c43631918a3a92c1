import MatteOS.Memory.Verify.LeafPermissions

/-!
# Large pages

`map` ends its walk at the level it is given, so a leaf may stand for 4 KiB, 2 MiB or 1 GiB.
`translate` finds the leaf at any level, but adds only the 12 low bits of the address to its page:
inside a large page it answers with the first small page (`translate_map_level_iff`).
-/

namespace MatteOS.Memory

open ByteMemory RadixTree

/-- The bytes of a page whose entry is at the level. -/
def pageSize (level : Nat) : Nat := 4096 * 512 ^ level

/-- The entries of large pages are recognised as leaves. -/
def LeafPage (level : Nat) (e : PageTableEntry) : Prop := level = 0 ∨ e.isLeaf

/-- Nothing hangs in the slot of the path, and no larger page covers it. -/
def SlotEmpty (t : PageTree) (path : List (BitVec 9)) : Prop :=
  t.subtree path = .empty ∧ t.lookup path = none

theorem SlotEmpty.ne_leaf {t : PageTree} {path : List (BitVec 9)} (empty : SlotEmpty t path)
    (k : Nat) (e : PageTableEntry) : t.subtree (path.take k) ≠ .leaf e := by
  intro leaf
  have answer := Tree.lookup_of_subtree_leaf leaf (path.drop k)
  rw [List.take_append_drop, empty.2] at answer
  cases answer

/-! ## Entries of large pages -/

theorem PageTableEntry.isLeaf_iff (e : PageTableEntry) :
    e.isLeaf ↔ ∃ i < 3, e.permissions.getLsbD i := by
  have bit : ∀ b : BitVec 1, b = 1 ↔ b.getLsbD 0 := by decide
  simp only [isLeaf, permissions, Bool.or_eq_true, beq_iff_eq, bit, BitVec.getLsbD_append]
  constructor
  · rintro ((h | h) | h)
    · exact ⟨0, by omega, by simpa using h⟩
    · exact ⟨1, by omega, by simpa using h⟩
    · exact ⟨2, by omega, by simpa using h⟩
  · rintro ⟨i, hi, h⟩
    obtain rfl | rfl | rfl : i = 0 ∨ i = 1 ∨ i = 2 := by omega
    · exact .inl (.inl (by simpa using h))
    · exact .inl (.inr (by simpa using h))
    · exact .inr (by simpa using h)

/-- Bits of a leaf make a leaf of any entry. -/
theorem mapEntry_isLeaf {bits : BitVec 64} (leaf : (PageTableEntry.setValue bits).isLeaf)
    (e : PageTableEntry) (ppn : BitVec 44) : (mapEntry e ppn bits).isLeaf := by
  rw [PageTableEntry.isLeaf_iff] at leaf ⊢
  obtain ⟨i, hi, set⟩ := leaf
  rw [PageTableEntry.permissions_setValue] at set
  refine ⟨i, hi, ?_⟩
  rw [mapEntry_permissions, BitVec.getLsbD_or, set, Bool.or_true]

/-! ## Addresses inside a large page -/

/-- Addresses in one page of a level have the same path down to its slot. -/
theorem path_prefix_of_pageSize {a v : BitVec 64} {level : Nat} (small : level ≤ 2)
    (same : a.toNat / pageSize level = v.toNat / pageSize level) :
    (VirtualAddress.ofU64 v).path.take (3 - level) <+: (VirtualAddress.ofU64 a).path := by
  have agree : ∀ start, 12 + 9 * level ≤ start → start ≤ 30 →
      v.extractLsb' start 9 = a.extractLsb' start 9 := by
    intro start low high
    have split : 2 ^ start = pageSize level * 2 ^ (start - (12 + 9 * level)) := by
      rw [pageSize, show (4096 : Nat) = 2 ^ 12 from rfl, show (512 : Nat) = 2 ^ 9 from rfl,
        ← Nat.pow_mul, ← Nat.pow_add, ← Nat.pow_add]
      congr 1
      omega
    rw [← BitVec.toNat_inj, BitVec.extractLsb'_toNat, BitVec.extractLsb'_toNat,
      Nat.shiftRight_eq_div_pow, Nat.shiftRight_eq_div_pow, split, ← Nat.div_div_eq_div_mul,
      ← Nat.div_div_eq_div_mul, same]
  have vpn2 := agree 30 (by omega) (by omega)
  simp only [VirtualAddress.path, VirtualAddress.ofU64]
  obtain rfl | rfl | rfl : level = 2 ∨ level = 1 ∨ level = 0 := by omega
  · rw [vpn2]
    exact ⟨_, rfl⟩
  · rw [vpn2, agree 21 (by omega) (by omega)]
    exact ⟨_, rfl⟩
  · rw [vpn2, agree 21 (by omega) (by omega), agree 12 (by omega) (by omega)]
    exact ⟨_, rfl⟩

section LargePages

variable {root : Nat} {src : PageSource root} {s : Vm} {t : PageTree}

/-- Where `translate` sends the addresses of a page that `map` has just made. -/
theorem HoldsTree.translate_map (rep : HoldsTree LeafPage src s t) {v p a bits : BitVec 64}
    {level : Nat} (small : level ≤ 2) (low : bits.toNat < 256)
    (leaf : (PageTableEntry.setValue bits).isLeaf) (hp : p.toNat < 2 ^ 56)
    (same : a.toNat / pageSize level = v.toNat / pageSize level)
    (empty : SlotEmpty t ((VirtualAddress.ofU64 v).path.take (3 - level)))
    (within : (Memory.map src.page root (.ofU64 v) (.ofU64 p) bits level s).zallocs ≤ src.limit) :
    (Memory.translate (Memory.map src.page root (.ofU64 v) (.ofU64 p) bits level s).memory root
        (.ofU64 a)).toOption.map (·.getValue.toNat) =
      some (p.toNat / 4096 * 4096 + a.toNat % 4096) := by
  obtain ⟨t', rep', lookup⟩ := rep.map (.ofU64 v) (.ofU64 p) small low
    (fun k hk => by
      have above := empty.ne_leaf k
      rwa [List.take_take, Nat.min_eq_left (Nat.le_of_lt hk)] at above)
    (fun l c node => by
      rw [empty.1] at node
      cases node)
    (fun e => .inr (mapEntry_isLeaf leaf e _)) within
  rw [rep'.translate (fun k e allowed => allowed.resolve_left (Nat.succ_ne_zero k)), lookup,
    if_pos (path_prefix_of_pageSize small same), Option.map_some, mapEntry_ppn _ _ low,
    PhysicalAddress.ofU64_ppn_toNat p hp, offset_toNat, Nat.mul_comm]

/-- **`translate` agrees with `map`** exactly at the addresses in the first 4 KiB of a page,
whatever its level. -/
theorem translate_map_level_iff (rep : HoldsTree LeafPage src s t) {v p a bits : BitVec 64}
    {level : Nat} (small : level ≤ 2) (low : bits.toNat < 256)
    (leaf : (PageTableEntry.setValue bits).isLeaf) (hp : p.toNat < 2 ^ 56)
    (aligned : pageSize level ∣ p.toNat)
    (same : a.toNat / pageSize level = v.toNat / pageSize level)
    (empty : SlotEmpty t ((VirtualAddress.ofU64 v).path.take (3 - level)))
    (within : (map src.page root (.ofU64 v) (.ofU64 p) bits level s).zallocs ≤ src.limit) :
    (∃ q, translate (map src.page root (.ofU64 v) (.ofU64 p) bits level s).memory root (.ofU64 a) =
        .ok q ∧ q.getValue.toNat = p.toNat + a.toNat % pageSize level) ↔
      a.toNat / 4096 % 512 ^ level = 0 := by
  have answer := rep.translate_map small low leaf hp same empty within
  have page : p.toNat / 4096 * 4096 = p.toNat :=
    Nat.div_mul_cancel (Nat.dvd_trans (Nat.dvd_mul_right _ _) aligned)
  have inside : a.toNat % pageSize level = a.toNat % 4096 + 4096 * (a.toNat / 4096 % 512 ^ level) :=
    Nat.mod_mul
  rw [page] at answer
  rw [inside]
  cases result : translate (map src.page root (.ofU64 v) (.ofU64 p) bits level s).memory root
    (.ofU64 a) with
  | error msg =>
    rw [result] at answer
    cases answer
  | ok q =>
    rw [result] at answer
    have value : q.getValue.toNat = p.toNat + a.toNat % 4096 := Option.some.inj answer
    constructor
    · rintro ⟨_, ⟨⟩, sum⟩
      omega
    · exact fun first => ⟨q, rfl, by omega⟩

end LargePages

/-- A page of 2 MiB translated in its first 4 KiB. -/
theorem translate_map_level_iff_first :
    ∃ q, translate (map ascendingPages.page 0x80000000 (.ofU64 0x200000) (.ofU64 0x40000000) 0x7 1
        ⟨fun _ => 0, 0⟩).memory 0x80000000 (.ofU64 0x200123) = .ok q ∧
      q.getValue.toNat = 0x40000000 + 0x123 :=
  (translate_map_level_iff (HoldsTree.init_ascendingPages _) (by decide) (by decide) (by decide)
    (by decide) (by decide) (by decide) ⟨rfl, rfl⟩ (by decide +kernel)).2 (by decide)

/-- The second 4 KiB of a page of 2 MiB are translated to the first. -/
theorem not_translate_map_level : ¬ ∀ (root : Nat) (src : PageSource root) (s : Vm) (t : PageTree),
    HoldsTree LeafPage src s t → ∀ (v p a bits : BitVec 64) (level : Nat), level ≤ 2 →
    bits.toNat < 256 → (PageTableEntry.setValue bits).isLeaf → p.toNat < 2 ^ 56 →
    pageSize level ∣ p.toNat → a.toNat / pageSize level = v.toNat / pageSize level →
    SlotEmpty t ((VirtualAddress.ofU64 v).path.take (3 - level)) →
    (map src.page root (.ofU64 v) (.ofU64 p) bits level s).zallocs ≤ src.limit →
    ∃ q, translate (map src.page root (.ofU64 v) (.ofU64 p) bits level s).memory root (.ofU64 a) =
      .ok q ∧ q.getValue.toNat = p.toNat + a.toNat % pageSize level := by
  intro agrees
  have rep := HoldsTree.init_ascendingPages LeafPage
  have answer : (translate (map ascendingPages.page 0x80000000 (.ofU64 0x200000)
      (.ofU64 0x40000000) 0x7 1 ⟨fun _ => 0, 0⟩).memory 0x80000000
      (.ofU64 0x201000)).toOption.map (·.getValue.toNat) = some 0x40000000 :=
    rep.translate_map (by decide) (by decide) (by decide) (by decide) (by decide) ⟨rfl, rfl⟩
      (by decide +kernel)
  obtain ⟨q, result, value⟩ := agrees _ ascendingPages _ _ rep 0x200000 0x40000000 0x201000 0x7 1
    (by decide) (by decide) (by decide) (by decide) (by decide) (by decide) ⟨rfl, rfl⟩
    (by decide +kernel)
  rw [result] at answer
  have first : q.getValue.toNat = 0x40000000 := Option.some.inj answer
  rw [first] at value
  exact absurd value (by decide)

end MatteOS.Memory
