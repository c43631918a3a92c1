import MatteOS.Lib.RadixTree
import MatteOS.Memory.Mapping

/-!
# The three-level page table is a finite map

The tables under a root hold a radix tree (`Represents`) whose leaves are the entries of
pages. `map` keeps the representation and replaces one leaf (`Represents.map`), and
`translate` and `leafEntry` are lookups of that tree. What is left of the tables is the
finite map from virtual pages to entries that the calls describe.
-/

namespace MatteOS.Memory

open ByteMemory RadixTree

/-! ## The tree in memory -/

/-- The entry `map` writes when it hangs in a table. -/
def tableEntry (page : Nat) : PageTableEntry := hang (.setValue 0) page

theorem tableEntry_getPpn {page : Nat} (aligned : 4096 ∣ page) (addressable : page < 2 ^ 56) :
    (tableEntry page).getPpn.toNat = page := by
  have number : (BitVec.ofNat 64 page).toNat = page := by
    rw [BitVec.toNat_ofNat, Nat.mod_eq_of_lt (by omega)]
  have ppn : (tableEntry page).ppn.toNat = page / 4096 := by
    have := PhysicalAddress.ofU64_ppn_toNat (.ofNat 64 page) (by omega)
    rwa [number] at this
  rw [PageTableEntry.getPpn_toNat rfl rfl, ppn]
  exact Nat.mul_div_cancel' aligned

/-- The index `mapStep` follows in round `k`. -/
def stepIndex (v : VirtualAddress) (k : Nat) : BitVec 9 := if k = 0 then v.vpn0 else v.vpn1

theorem mapStep_of_valid {pages : Nat → Nat} {v : VirtualAddress} {a : Nat} {s : Vm} {k table : Nat}
    (valid : (loadEntry s.memory a).isValid) (ppn : (loadEntry s.memory a).getPpn.toNat = table) :
    mapStep pages v (a, s) k = (entryAddress table (stepIndex v k), s) := by
  rw [mapStep, (pageStream pages).mapStep_of_valid valid, ← ppn]
  rfl

theorem mapStep_zallocs_of_blank {pages : Nat → Nat} {v : VirtualAddress} {a : Nat} {s : Vm}
    {k : Nat} (blank : load64 s.memory a = 0) :
    (mapStep pages v (a, s) k).2.zallocs = s.zallocs + 1 := by
  have invalid : (PageTableEntry.setValue 0).isValid = false := by decide
  have entry : loadEntry s.memory a = .setValue 0 := congrArg _ blank
  rw [mapStep_zallocs]
  simp only [entry, invalid, Bool.false_eq_true, if_false]

theorem mapStep_of_invalid {pages : Nat → Nat} {s : Vm} {a : Nat} {v : VirtualAddress} {k : Nat}
    (invalid : (loadEntry s.memory a).isValid = false) (ne_null : pages s.zallocs ≠ 0) :
    mapStep pages v (a, s) k =
      let m := clear s.memory (pages s.zallocs) PAGE_SIZE
      let e := hang (loadEntry m a) (pages s.zallocs)
      (entryAddress e.getPpn.toNat (stepIndex v k), ⟨storeEntry m a e, s.zallocs + 1⟩) := by
  rw [mapStep, (pageStream pages).mapStep_of_invalid invalid]
  simp only [pageStream, zalloc, ne_null, if_false, loadEntry_storeEntry]
  rfl

theorem mapStep_of_blank {pages : Nat → Nat} {v : VirtualAddress} {a : Nat} {s : Vm} {k : Nat}
    (ne_null : pages s.zallocs ≠ 0)
    (points : (tableEntry (pages s.zallocs)).getPpn.toNat = pages s.zallocs)
    (blank : load64 s.memory a = 0)
    (still : load64 (clear s.memory (pages s.zallocs) PAGE_SIZE) a = 0) :
    mapStep pages v (a, s) k = (entryAddress (pages s.zallocs) (stepIndex v k),
      { memory := storeEntry (clear s.memory (pages s.zallocs) PAGE_SIZE) a
          (tableEntry (pages s.zallocs))
        zallocs := s.zallocs + 1 }) := by
  have invalid : (loadEntry s.memory a).isValid = false := by
    rw [loadEntry, blank]
    decide
  have entry : loadEntry (clear s.memory (pages s.zallocs) PAGE_SIZE) a = .setValue 0 :=
    congrArg _ still
  rw [mapStep_of_invalid invalid ne_null]
  dsimp only
  rw [entry, ← tableEntry.eq_1, points]

/-- The entry that `map` makes of the one it finds. -/
def mapEntry (e : PageTableEntry) (ppn : BitVec 44) (bits : BitVec 64) : PageTableEntry :=
  ({ e with
      accessed := 1
      dirty := 1
      valid := 1
      ppn0 := ppn.extractLsb' 0 9
      ppn1 := ppn.extractLsb' 9 9
      ppn2 := ppn.extractLsb' 18 26 } : PageTableEntry).setBits bits

section MapEntry

variable {e : PageTableEntry} {ppn : BitVec 44} {bits : BitVec 64}

theorem mapEntry_isValid (e : PageTableEntry) (ppn : BitVec 44) (bits : BitVec 64) :
    (mapEntry e ppn bits).isValid :=
  PageTableEntry.setBits_isValid bits rfl

theorem mapEntry_rsw (low : bits.toNat < 256) (rsw : e.rsw = 0) : (mapEntry e ppn bits).rsw = 0 :=
  (PageTableEntry.setBits_rsw low).trans rsw

theorem mapEntry_reserved (low : bits.toNat < 256) (reserved : e.reserved = 0) :
    (mapEntry e ppn bits).reserved = 0 :=
  (PageTableEntry.setBits_reserved low).trans reserved

theorem mapEntry_ppn (e : PageTableEntry) (ppn : BitVec 44) (low : bits.toNat < 256) :
    (mapEntry e ppn bits).ppn = ppn := by
  rw [mapEntry, PageTableEntry.setBits_ppn low]
  apply BitVec.eq_of_getLsbD_eq
  intro i hi
  simp only [PageTableEntry.ppn, BitVec.getLsbD_append, BitVec.getLsbD_extractLsb']
  grind

theorem PhysicalAddress.ppn_fields (p : PhysicalAddress) : p.ppn.extractLsb' 0 9 = p.ppn0 ∧
    p.ppn.extractLsb' 9 9 = p.ppn1 ∧ p.ppn.extractLsb' 18 26 = p.ppn2 := by
  refine ⟨?_, ?_, ?_⟩ <;>
    (apply BitVec.eq_of_getLsbD_eq
     intro i hi
     simp only [PhysicalAddress.ppn, BitVec.getLsbD_append, BitVec.getLsbD_extractLsb']
     grind)

end MapEntry

/-- What `zalloc(1)` promises while the table at `root` is in use: the pages of its first `limit`
calls are page-aligned, addressable, and each is used by no table yet. -/
structure PageSource (root : Nat) where
  page : Nat → Nat
  limit : Nat
  root_aligned : 4096 ∣ root
  aligned : ∀ n < limit, 4096 ∣ page n
  ne_null : ∀ n < limit, page n ≠ 0
  addressable : ∀ n < limit, page n < 2 ^ 56
  injective : ∀ m < limit, ∀ n < limit, page m = page n → m = n
  ne_root : ∀ n < limit, page n ≠ root

abbrev PageTree := Tree Nat (BitVec 9) PageTableEntry

/-- How an entry announces what lies under it. -/
def entryEncoding : Encoding Nat PageTableEntry (BitVec 64) where
  blank w := w = 0
  leaf e w := PageTableEntry.setValue w = e ∧ e.isValid ∧ e.rsw = 0 ∧ e.reserved = 0
  pointer table w :=
    let e := PageTableEntry.setValue w
    e.isValid ∧ e.rsw = 0 ∧ e.reserved = 0 ∧ e.isLeaf = false ∧ e.getPpn.toNat = table

/-- The words of the tables in memory. -/
def words (m : Memory) (table : Nat) (i : BitVec 9) : BitVec 64 := load64 m (entryAddress table i)

/-- The memory holds the tree `t` under the table at `root`, whose entries for pages of `k` levels
satisfy `ok k`; all other tables come from the page source. -/
structure HoldsTree {root : Nat} (ok : Nat → PageTableEntry → Prop) (src : PageSource root)
    (s : Vm) (t : PageTree) : Prop where
  rooted : ∃ c, t = .node root c
  leaves : t.LeavesAt ok 3
  separated : t.Separated
  held : Held entryEncoding (words s.memory) t
  source : ∀ x, t.Owns x → x = root ∨ ∃ k, k < s.zallocs ∧ x = src.page k
  within : s.zallocs ≤ src.limit

namespace HoldsTree

variable {root : Nat} {ok : Nat → PageTableEntry → Prop} {src : PageSource root} {s : Vm}
  {t : PageTree}

theorem aligned (rep : HoldsTree ok src s t) {x : Nat} (h : t.Owns x) : 4096 ∣ x := by
  rcases rep.source x h with rfl | ⟨k, hk, rfl⟩
  · exact src.root_aligned
  · exact src.aligned k (Nat.lt_of_lt_of_le hk rep.within)

/-- The next page of the source belongs to no table of the tree. -/
theorem fresh (rep : HoldsTree ok src s t) (more : s.zallocs < src.limit) :
    ¬ t.Owns (src.page s.zallocs) := by
  intro h
  rcases rep.source _ h with e | ⟨k, hk, e⟩
  · exact src.ne_root _ more e
  · exact absurd (src.injective _ more _ (by omega) e) (by omega)

/-- A cleared root table holds no page. -/
theorem init {m : Memory} (zeroed : ∀ x, root ≤ x → x < root + 4096 → m x = 0) :
    HoldsTree ok src { memory := m, zallocs := 0 } (.node root fun _ => .empty) where
  rooted := ⟨_, rfl⟩
  leaves := fun _ => trivial
  separated := ⟨fun _ h => h, fun _ _ _ h => h.elim, fun _ => trivial⟩
  held := fun i => by
    have hi := i.isLt
    refine ⟨?_, trivial⟩
    exact load64_eq_zero fun x h1 h2 => zeroed x (by unfold entryAddress at h1; omega)
      (by unfold entryAddress at h2; omega)
  source := by
    rintro x (rfl | ⟨_, h⟩)
    · exact Or.inl rfl
    · exact h.elim
  within := Nat.zero_le _

/-! ## `translate` is the lookup -/

/-- The leaf entry of an address is the one the tree holds for it, if the entries of large pages
are leaves. -/
theorem leafEntry (rep : HoldsTree ok src s t) (large : ∀ k e, ok (k + 1) e → e.isLeaf)
    (v : VirtualAddress) : Memory.leafEntry s.memory root v = t.lookup v.path ∧
      ∀ e, t.lookup v.path = some e → e.rsw = 0 ∧ e.reserved = 0 := by
  obtain ⟨c, rfl⟩ := rep.rooted
  have h2 := rep.held v.vpn2
  have l2 := rep.leaves v.vpn2
  simp only [VirtualAddress.path, Tree.lookup, Memory.leafEntry]
  -- an absent part reads as an invalid entry
  have invalid : (PageTableEntry.setValue 0#64).isValid = false := by decide
  cases e2 : c v.vpn2 with
  | empty =>
    rw [e2] at h2
    have word : loadEntry s.memory (entryAddress root v.vpn2) = .setValue 0#64 :=
      congrArg _ h2.1
    simp [word, invalid, Tree.lookup]
  | leaf e =>
    rw [e2] at h2 l2
    obtain ⟨⟨entry, valid, rsw, reserved⟩, -⟩ := h2
    change loadEntry s.memory (entryAddress root v.vpn2) = e at entry
    simp [entry, valid, large 1 e l2, Tree.lookup, rsw, reserved]
  | node t2 c2 =>
    rw [e2] at h2 l2
    obtain ⟨⟨valid2, -, -, notLeaf2, ppn2⟩, h2⟩ := h2
    change (loadEntry s.memory (entryAddress root v.vpn2)).isValid = true at valid2
    change (loadEntry s.memory (entryAddress root v.vpn2)).isLeaf = false at notLeaf2
    change (loadEntry s.memory (entryAddress root v.vpn2)).getPpn.toNat = t2 at ppn2
    have h1 := h2 v.vpn1
    have l1 := l2 v.vpn1
    simp only [valid2, notLeaf2, ppn2, Tree.lookup, Bool.not_true, Bool.false_eq_true, if_false]
    cases e1 : c2 v.vpn1 with
    | empty =>
      rw [e1] at h1
      have word : loadEntry s.memory (entryAddress t2 v.vpn1) = .setValue 0#64 :=
        congrArg _ h1.1
      simp [word, invalid, Tree.lookup]
    | leaf e =>
      rw [e1] at h1 l1
      obtain ⟨⟨entry, valid, rsw, reserved⟩, -⟩ := h1
      change loadEntry s.memory (entryAddress t2 v.vpn1) = e at entry
      simp [entry, valid, large 0 e l1, Tree.lookup, rsw, reserved]
    | node t1 c1 =>
      rw [e1] at h1 l1
      obtain ⟨⟨valid1, -, -, notLeaf1, ppn1⟩, h1⟩ := h1
      change (loadEntry s.memory (entryAddress t2 v.vpn1)).isValid = true at valid1
      change (loadEntry s.memory (entryAddress t2 v.vpn1)).isLeaf = false at notLeaf1
      change (loadEntry s.memory (entryAddress t2 v.vpn1)).getPpn.toNat = t1 at ppn1
      have h0 := h1 v.vpn0
      have l0 := l1 v.vpn0
      simp only [valid1, notLeaf1, ppn1, Tree.lookup, Bool.not_true, Bool.false_eq_true, if_false]
      cases e0 : c1 v.vpn0 with
      | node t0 c0 => rw [e0] at l0; exact l0.elim
      | empty =>
        rw [e0] at h0
        have word : loadEntry s.memory (entryAddress t1 v.vpn0) = .setValue 0#64 :=
          congrArg _ h0.1
        simp [word, invalid, Tree.lookup]
      | leaf e =>
        rw [e0] at h0
        obtain ⟨⟨entry, valid, rsw, reserved⟩, -⟩ := h0
        change loadEntry s.memory (entryAddress t1 v.vpn0) = e at entry
        simp [entry, valid, Tree.lookup, rsw, reserved]

/-- `translate` answers with the page the tree holds for the address, plus the offset. -/
theorem translate (rep : HoldsTree ok src s t) (large : ∀ k e, ok (k + 1) e → e.isLeaf)
    (v : VirtualAddress) : (Memory.translate s.memory root v).toOption.map (·.getValue.toNat) =
      (t.lookup v.path).map fun e => 4096 * e.ppn.toNat + v.offset.toNat := by
  obtain ⟨entry, spare⟩ := rep.leafEntry large v
  rw [translate_eq_leafEntry, entry]
  cases found : t.lookup v.path with
  | none => rfl
  | some e =>
    obtain ⟨rsw, reserved⟩ := spare e found
    simp [PageTableEntry.getPpn_or_toNat rsw reserved]

/-! ## `map` replaces one leaf -/

/-- A write that changes no table word but the one of a slot replaces the part in that slot. -/
theorem set (rep : HoldsTree ok src s t) {p : List (BitVec 9)} {l : Nat} {i : BitVec 9}
    (hp : t.slot p = some (l, i)) (short : p.length ≤ 3) {s' : Vm} {part : PageTree}
    (leaves : part.LeavesAt ok (3 - p.length)) (separated : part.Separated)
    (word : entryEncoding.Word part (words s'.memory l i))
    (held : Held entryEncoding (words s'.memory) part)
    (frame : ∀ l' j, t.Owns l' → (l', j) ≠ (l, i) → words s'.memory l' j = words s.memory l' j)
    (more : s.zallocs ≤ s'.zallocs) (within : s'.zallocs ≤ src.limit)
    (owns : ∀ x, part.Owns x → x = src.page s.zallocs ∧ s.zallocs < s'.zallocs) :
    HoldsTree ok src s' (t.set p part) where
  rooted := by
    obtain ⟨c, rfl⟩ := rep.rooted
    cases p with
    | nil => simp [Tree.slot] at hp
    | cons k p => exact ⟨_, rfl⟩
  leaves := by
    have depth : 3 - p.length + p.length = 3 := by omega
    have h := rep.leaves
    rw [← depth] at h ⊢
    exact h.set leaves
  separated := rep.separated.set separated fun x hx => by
    rw [(owns x hx).1]
    exact rep.fresh (Nat.lt_of_lt_of_le (owns x hx).2 within)
  held := rep.held.set rep.separated hp word held frame
  source := fun x hx => by
    rcases Tree.owns_of_set hx with h | h
    · rcases rep.source x h with e | ⟨k, hk, e⟩
      · exact Or.inl e
      · exact Or.inr ⟨k, by omega, e⟩
    · obtain ⟨e, lt⟩ := owns x h
      exact Or.inr ⟨_, lt, e⟩
  within := within

/-- A store to a slot is not seen in the other slots of the tree. -/
theorem words_store (rep : HoldsTree ok src s t) {l l' : Nat} {i j : BitVec 9} (hl : t.Owns l)
    (hl' : t.Owns l') (ne : (l', j) ≠ (l, i)) (m : Memory) (w : BitVec 64) :
    words (store64 m (entryAddress l i) w) l' j = words m l' j :=
  load64_store64_of_disjoint m w (entryAddress_disjoint (rep.aligned hl') (rep.aligned hl) ne)

/-- One round of the loop of `map` ends at a slot one level deeper, and no lookup changes:
either the table was there, or an empty one is hung in. -/
theorem mapStep (rep : HoldsTree ok src s t) {p : List (BitVec 9)} {l : Nat} {i : BitVec 9}
    (hp : t.slot p = some (l, i)) (short : p.length < 3) (noLeaf : ∀ e, t.subtree p ≠ .leaf e)
    (v : VirtualAddress) (k : Nat)
    (within : (Memory.mapStep src.page v (entryAddress l i, s) k).2.zallocs ≤ src.limit) :
    ∃ t' l' s', Memory.mapStep src.page v (entryAddress l i, s) k =
        (entryAddress l' (stepIndex v k), s') ∧
      HoldsTree ok src s' t' ∧ t'.slot (p ++ [stepIndex v k]) = some (l', stepIndex v k) ∧
      (∀ q, t'.lookup q = t.lookup q) ∧
      ∀ j q, t'.subtree (p ++ j :: q) = t.subtree (p ++ j :: q) := by
  have word := rep.held.word_of_slot hp
  cases e : t.subtree p with
  | leaf a => exact absurd e (noLeaf a)
  | node l' c =>
    rw [e] at word
    obtain ⟨valid, -, -, -, ppn⟩ := word
    exact ⟨t, l', s, mapStep_of_valid valid ppn, rep, Tree.slot_append hp e _, fun _ => rfl,
      fun _ _ => rfl⟩
  | empty =>
    rw [e] at word
    have own := Tree.owns_of_slot hp
    have more : s.zallocs < src.limit := by
      rw [mapStep_zallocs_of_blank word] at within
      exact within
    have apart : ∀ x, t.Owns x → x ≠ src.page s.zallocs := by
      rintro x hx rfl
      exact rep.fresh more hx
    have aligned := src.aligned s.zallocs more
    -- clearing the new page touches no table of the tree
    have frame : ∀ l' j, t.Owns l' →
        load64 (clear s.memory (src.page s.zallocs) PAGE_SIZE) (entryAddress l' j) =
          load64 s.memory (entryAddress l' j) := fun l' j hl' =>
      load64_clear_outside _ (entryAddress_outside j (rep.aligned hl') aligned (apart l' hl'))
    have points := tableEntry_getPpn aligned (src.addressable _ more)
    generalize hs' : (⟨storeEntry (clear s.memory (src.page s.zallocs) PAGE_SIZE) (entryAddress l i)
      (tableEntry (src.page s.zallocs)), s.zallocs + 1⟩ : Vm) = s'
    have other : ∀ l' j, t.Owns l' → (l', j) ≠ (l, i) →
        words s'.memory l' j = words s.memory l' j := fun l' j hl' ne => by
      rw [← hs']
      exact (rep.words_store own hl' ne _ _).trans (frame l' j hl')
    refine ⟨t.set p (.node (src.page s.zallocs) fun _ => .empty), src.page s.zallocs, s', ?_, ?_,
      ?_, Tree.lookup_set_empty_node hp e _, fun j q => ?_⟩
    · rw [← hs']
      exact mapStep_of_blank (src.ne_null _ more) points word ((frame l i own).trans word)
    · refine rep.set hp (by omega) ?_ ?_ ?_ ?_ other
        (by rw [← hs']; exact Nat.le_succ _) (by rw [← hs']; exact more) ?_
      · rw [show 3 - p.length = 2 - p.length + 1 by omega]
        exact fun _ => by cases 2 - p.length <;> trivial
      · exact ⟨fun _ h => h, fun _ _ _ h => h.elim, fun _ => trivial⟩
      · have stored : PageTableEntry.setValue (words s'.memory l i) =
            tableEntry (src.page s.zallocs) := by
          rw [← hs']
          exact loadEntry_storeEntry _ _ _
        simp only [Encoding.Word, entryEncoding, stored]
        exact ⟨rfl, rfl, rfl, rfl, points⟩
      · intro j
        have hj := j.isLt
        refine ⟨?_, trivial⟩
        have away := entryAddress_outside i (rep.aligned own) aligned (apart l own)
        have slot : entryAddress (src.page s.zallocs) j + 8 ≤ src.page s.zallocs + PAGE_SIZE := by
          unfold entryAddress PAGE_SIZE; omega
        have slot' : src.page s.zallocs ≤ entryAddress (src.page s.zallocs) j :=
          Nat.le_add_right _ _
        rw [← hs']
        change load64 (store64 _ _ _) _ = 0
        rw [load64_store64_of_disjoint _ _ (by unfold PAGE_SIZE at slot; omega)]
        exact load64_clear_inside _ slot' slot
      · rintro x (rfl | ⟨_, h⟩)
        · exact ⟨rfl, by rw [← hs']; exact Nat.lt_succ_self _⟩
        · exact h.elim
    · have root := Tree.slot_set [] hp (.node (src.page s.zallocs) fun _ => .empty)
      rw [List.append_nil] at root
      exact Tree.slot_append root (Tree.subtree_set hp _) _
    · rw [Tree.subtree_append, Tree.subtree_append, Tree.subtree_set hp, e, Tree.subtree_empty]
      exact Tree.subtree_empty q

/-- The loop of `map` ends at the slot of the address at the level of the page. -/
theorem mapWalk (rep : HoldsTree ok src s t) (v : VirtualAddress) {level : Nat} (small : level ≤ 2)
    (noLeaf : ∀ k < 3 - level, ∀ e, t.subtree (v.path.take k) ≠ .leaf e)
    (within : (([1, 0].filter (level ≤ ·)).foldl (Memory.mapStep src.page v)
      (entryAddress root v.vpn2, s)).2.zallocs ≤ src.limit) :
    ∃ t' l i s', ([1, 0].filter (level ≤ ·)).foldl (Memory.mapStep src.page v)
        (entryAddress root v.vpn2, s) = (entryAddress l i, s') ∧
      HoldsTree ok src s' t' ∧ t'.slot (v.path.take (3 - level)) = some (l, i) ∧
      (∀ q, t'.lookup q = t.lookup q) ∧
      t'.subtree (v.path.take (3 - level)) = t.subtree (v.path.take (3 - level)) := by
  have slot₂ : t.slot [v.vpn2] = some (root, v.vpn2) := by
    obtain ⟨c, rfl⟩ := rep.rooted
    rfl
  obtain rfl | small : level = 2 ∨ level ≤ 1 := by omega
  · exact ⟨t, root, v.vpn2, s, rfl, rep, slot₂, fun _ => rfl, rfl⟩
  obtain ⟨t₁, l₁, s₁, run₁, rep₁, slot₁, same₁, under₁⟩ := rep.mapStep slot₂ (by simp)
    (noLeaf 1 (by omega)) v 1 (by
      obtain rfl | rfl : level = 1 ∨ level = 0 := by omega
      · exact within
      · exact Nat.le_trans (mapStep_zallocs_le src.page v _ 0) within)
  simp only [stepIndex, Nat.one_ne_zero, if_false, List.cons_append, List.nil_append]
    at run₁ slot₁ under₁
  obtain rfl | rfl : level = 1 ∨ level = 0 := by omega
  · exact ⟨t₁, l₁, v.vpn1, s₁, run₁, rep₁, slot₁, same₁, under₁ v.vpn1 []⟩
  obtain ⟨t₀, l₀, s₀, run₀, rep₀, slot₀, same₀, under₀⟩ := rep₁.mapStep slot₁ (by simp)
    (fun e he => noLeaf 2 (by omega) e ((under₁ v.vpn1 []).symm.trans he)) v 0
    (by rw [← run₁]; exact within)
  simp only [stepIndex, if_true, List.cons_append, List.nil_append] at run₀ slot₀ under₀
  refine ⟨t₀, l₀, v.vpn0, s₀, ?_, rep₀, slot₀, fun q => (same₀ q).trans (same₁ q),
    (under₀ v.vpn0 []).trans (under₁ v.vpn1 [v.vpn0])⟩
  rw [show [1, 0].filter (0 ≤ ·) = [1, 0] from rfl, List.foldl_cons, List.foldl_cons, List.foldl_nil,
    run₁, run₀]

/-- **`map` replaces one leaf**: the page of `v` at the level now leads to the page of `p`, with the
bits added to those of the entry that was there, and the lookups of all other pages stay. -/
theorem map (rep : HoldsTree ok src s t) (v : VirtualAddress) (p : PhysicalAddress)
    {bits : BitVec 64} {level : Nat} (small : level ≤ 2) (low : bits.toNat < 256)
    (noLeaf : ∀ k < 3 - level, ∀ e, t.subtree (v.path.take k) ≠ .leaf e)
    (noTable : ∀ l c, t.subtree (v.path.take (3 - level)) ≠ .node l c)
    (allowed : ∀ e, ok level (mapEntry e p.ppn bits))
    (within : (Memory.map src.page root v p bits level s).zallocs ≤ src.limit) :
    ∃ t', HoldsTree ok src (Memory.map src.page root v p bits level s) t' ∧
      ∀ q, t'.lookup q = if v.path.take (3 - level) <+: q then
          some (mapEntry ((t.lookup (v.path.take (3 - level))).getD (.setValue 0)) p.ppn bits)
        else t.lookup q := by
  rw [map_eq] at within ⊢
  obtain ⟨t₀, l, i, s₀, run, rep₀, slot, same, under⟩ := rep.mapWalk v small noLeaf within
  simp only [run]
  generalize hpath : v.path.take (3 - level) = path at noTable slot under
  have length : path.length = 3 - level := by
    rw [← hpath, List.length_take]
    exact Nat.min_eq_left (Nat.sub_le 3 level)
  generalize he : loadEntry s₀.memory (entryAddress l i) = e
  -- the slot was blank or held a leaf, which the lookup gives
  have old : e = (t.lookup path).getD (.setValue 0) ∧ e.rsw = 0 ∧ e.reserved = 0 := by
    have word := rep₀.held.word_of_slot slot
    have lookup := Tree.lookup_append_of_slot slot []
    rw [List.append_nil, same] at lookup
    rw [lookup]
    rw [under] at word ⊢
    cases sub : t.subtree path with
    | empty =>
      rw [sub] at word
      have blank : e = .setValue 0 := he ▸ congrArg _ word
      rw [blank]
      exact ⟨rfl, by decide, by decide⟩
    | leaf a =>
      rw [sub] at word
      obtain ⟨entry, -, rsw, reserved⟩ := word
      have same : e = a := he ▸ entry
      rw [same]
      exact ⟨rfl, rsw, reserved⟩
    | node l c => exact absurd sub (noTable l c)
  obtain ⟨old, rsw, reserved⟩ := old
  have new : mapEntry e p.ppn bits = leafOf e p bits := by
    obtain ⟨ppn0, ppn1, ppn2⟩ := p.ppn_fields
    rw [mapEntry, ppn0, ppn1, ppn2, leafOf]
  refine ⟨t₀.set path (.leaf (mapEntry e p.ppn bits)), ?_, fun q => ?_⟩
  · refine rep₀.set slot (by omega) ?_ trivial ?_ trivial ?_ (Nat.le_refl _) rep₀.within
      fun _ h => h.elim
    · rw [length, show 3 - (3 - level) = level by omega]
      cases level <;> exact allowed e
    · have stored : PageTableEntry.setValue (load64 (storeEntry s₀.memory (entryAddress l i)
          (leafOf e p bits)) (entryAddress l i)) = leafOf e p bits := loadEntry_storeEntry _ _ _
      simp only [Encoding.Word, entryEncoding, words, stored, new]
      exact ⟨trivial, new ▸ mapEntry_isValid .., new ▸ mapEntry_rsw low rsw,
        new ▸ mapEntry_reserved low reserved⟩
    · exact fun l' j hl' ne => rep₀.words_store (Tree.owns_of_slot slot) hl' ne _ _
  · by_cases h : path <+: q
    · obtain ⟨r, rfl⟩ := h
      rw [if_pos (List.prefix_append _ _), Tree.lookup_set_append slot, old, Tree.lookup]
    · rw [if_neg h, Tree.lookup_set_of_not_prefix _ _ h, same]

end HoldsTree

/-! ## Tables of small pages -/

/-- The memory holds the tree `t` under the table at `root`; all other tables come from the
page source. -/
structure Represents {root : Nat} (src : PageSource root) (s : Vm) (t : PageTree) : Prop where
  rooted : ∃ c, t = .node root c
  levels : t.Levels 3
  separated : t.Separated
  held : Held entryEncoding (words s.memory) t
  source : ∀ x, t.Owns x → x = root ∨ ∃ k, k < s.zallocs ∧ x = src.page k
  within : s.zallocs ≤ src.limit

/-- The page has the size of one entry of a table of the lowest level. -/
def SmallPage (level : Nat) (_ : PageTableEntry) : Prop := level = 0

theorem represents_iff_holdsTree {root : Nat} {src : PageSource root} {s : Vm} {t : PageTree} :
    Represents src s t ↔ HoldsTree SmallPage src s t := by
  constructor
  · exact fun rep => { rep with leaves := Tree.levels_iff_leavesAt.1 rep.levels }
  · exact fun rep => { rep with levels := Tree.levels_iff_leavesAt.2 rep.leaves }

namespace Represents

variable {root : Nat} {src : PageSource root} {s : Vm} {t : PageTree}

theorem aligned (rep : Represents src s t) {x : Nat} (h : t.Owns x) : 4096 ∣ x :=
  (represents_iff_holdsTree.1 rep).aligned h

/-- A cleared root table holds no page. -/
theorem init {m : Memory} (zeroed : ∀ x, root ≤ x → x < root + 4096 → m x = 0) :
    Represents src { memory := m, zallocs := 0 } (.node root fun _ => .empty) :=
  represents_iff_holdsTree.2 (.init zeroed)

/-- The leaf entry of an address is the one the tree holds for it. -/
theorem leafEntry (rep : Represents src s t) (v : VirtualAddress) :
    Memory.leafEntry s.memory root v = t.lookup v.path ∧
      ∀ e, t.lookup v.path = some e → e.rsw = 0 ∧ e.reserved = 0 :=
  (represents_iff_holdsTree.1 rep).leafEntry (fun k _ h => absurd h (Nat.succ_ne_zero k)) v

/-- `translate` answers with the page the tree holds for the address, plus the offset. -/
theorem translate (rep : Represents src s t) (v : VirtualAddress) :
    (Memory.translate s.memory root v).toOption.map (·.getValue.toNat) =
      (t.lookup v.path).map fun e => 4096 * e.ppn.toNat + v.offset.toNat :=
  (represents_iff_holdsTree.1 rep).translate (fun k _ h => absurd h (Nat.succ_ne_zero k)) v

/-- Above the lowest level there are only tables. -/
theorem subtree_ne_leaf (rep : Represents src s t) {p : List (BitVec 9)} (short : p.length < 3)
    (e : PageTableEntry) : t.subtree p ≠ .leaf e := by
  intro leaf
  have depth : 3 - p.length + p.length = 3 := by omega
  have levels : (t.subtree p).Levels (3 - p.length) :=
    Tree.Levels.subtree (by rw [depth]; exact rep.levels)
  rw [leaf, show 3 - p.length = 2 - p.length + 1 by omega] at levels
  exact levels

/-- Under the lowest level there are no tables. -/
theorem subtree_ne_node (rep : Represents src s t) {p : List (BitVec 9)} (length : p.length = 3)
    (l : Nat) (c : BitVec 9 → PageTree) : t.subtree p ≠ .node l c := by
  intro node
  have levels : (t.subtree p).Levels 0 := Tree.Levels.subtree (by rw [length]; exact rep.levels)
  rw [node] at levels
  exact levels

/-- One round of the loop of `map` ends at a slot one level deeper, and no lookup changes:
either the table was there, or an empty one is hung in. -/
theorem mapStep (rep : Represents src s t) {p : List (BitVec 9)} {l : Nat} {i : BitVec 9}
    (hp : t.slot p = some (l, i)) (short : p.length < 3) (v : VirtualAddress) (k : Nat)
    (within : (Memory.mapStep src.page v (entryAddress l i, s) k).2.zallocs ≤ src.limit) :
    ∃ t' l' s', Memory.mapStep src.page v (entryAddress l i, s) k =
        (entryAddress l' (stepIndex v k), s') ∧
      Represents src s' t' ∧ t'.slot (p ++ [stepIndex v k]) = some (l', stepIndex v k) ∧
      ∀ q, t'.lookup q = t.lookup q := by
  obtain ⟨t', l', s', run, rep', slot, same, -⟩ := (represents_iff_holdsTree.1 rep).mapStep hp short
    (rep.subtree_ne_leaf short) v k within
  exact ⟨t', l', s', run, represents_iff_holdsTree.2 rep', slot, same⟩

/-- **`map` replaces one leaf**: the page of `v` now leads to the page of `p`, with the bits added
to those of the entry that was there, and the lookups of all other pages stay. -/
theorem map (rep : Represents src s t) (v : VirtualAddress) (p : PhysicalAddress) {bits : BitVec 64}
    (low : bits.toNat < 256)
    (within : (Memory.map src.page root v p bits 0 s).zallocs ≤ src.limit) :
    ∃ t', Represents src (Memory.map src.page root v p bits 0 s) t' ∧
      ∀ q, q.length = 3 → t'.lookup q =
        if q = v.path then some (mapEntry ((t.lookup q).getD (.setValue 0)) p.ppn bits)
        else t.lookup q := by
  obtain ⟨t', rep', lookup⟩ := (represents_iff_holdsTree.1 rep).map v p (Nat.zero_le 2) low
    (fun k hk => rep.subtree_ne_leaf (by rw [List.length_take]; omega))
    (rep.subtree_ne_node rfl) (fun _ => rfl) within
  refine ⟨t', represents_iff_holdsTree.2 rep', fun q hq => ?_⟩
  rw [lookup, show v.path.take (3 - 0) = v.path from rfl]
  by_cases h : q = v.path
  · rw [if_pos (h ▸ List.prefix_refl _), if_pos h, h]
  · rw [if_neg fun hp => h (hp.eq_of_length (by rw [hq]; rfl)).symm, if_neg h]

end Represents

end MatteOS.Memory
