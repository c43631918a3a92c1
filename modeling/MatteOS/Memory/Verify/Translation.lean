import Mathlib.Data.List.Induction
import MatteOS.Memory.Verify.PageTableMap

/-!
# The finite map of the mapping calls

`Call.target` says which physical page a call sends a virtual page to, if it covers
that page at all. The tables implement the map in which the last call covering a
page decides (`translate_runCalls`), and all the calls covering it have added their
permission bits (`lastEntry`).

The work is one relation, `Implements`, between a state and a map from pages to
entries: one call of `map` updates one page of it, a range of pages overwrites an
interval (`overwrite`), and a call therefore puts its own targets over what was
there before (`Implements.run`).
-/

namespace MatteOS.Memory

open ByteMemory RadixTree

/-- The physical page a call sends `page` to. A range covers the pages from the page of its
start up to its end rounded up to a page, and sends its page `i` to page `i` of the physical
range. -/
def Call.target : Call → Nat → Option Nat
  | .map v p _, page => if page = v.toNat / 4096 then some (p.toNat / 4096) else none
  | .mapRange vs ve ps _, page =>
    if vs.toNat / 4096 ≤ page ∧ page < (ve.toNat + 4095) / 4096 then
      some (ps.toNat / 4096 + (page - vs.toNat / 4096))
    else none
  | .identityMapRange start stop _, page =>
    if start.toNat / 4096 ≤ page ∧ page < (stop.toNat + 4095) / 4096 then some page else none

/-- A call within the Sv39 address space, the physical address space and the flag bits. -/
def Call.WithinBounds : Call → Prop
  | .map v p bits => v.toNat < 2 ^ 39 ∧ p.toNat < 2 ^ 56 ∧ bits.toNat < 256
  | .mapRange vs ve ps bits => vs.toNat ≤ ve.toNat ∧ ve.toNat ≤ 2 ^ 39 ∧ bits.toNat < 256 ∧
      ∀ page, vs.toNat / 4096 ≤ page → page < (ve.toNat + 4095) / 4096 →
        4096 * (ps.toNat / 4096 + (page - vs.toNat / 4096)) < 2 ^ 56
  | .identityMapRange start stop bits => start.toNat ≤ stop.toNat ∧ stop.toNat ≤ 2 ^ 39 ∧
      bits.toNat < 256

/-- Where the last of `calls` that covers `page` sends it. -/
def lastTarget (calls : List Call) (page : Nat) : Option Nat :=
  calls.reverse.findSome? (·.target page)

def Call.bits : Call → BitVec 64
  | .map _ _ bits => bits
  | .mapRange _ _ _ bits => bits
  | .identityMapRange _ _ bits => bits

/-- The entry of a page after a call, by the one before. -/
def Call.entry (c : Call) (page : Nat) (old : Option PageTableEntry) : Option PageTableEntry :=
  match c.target page with
  | some target => some (mapEntry (old.getD (.setValue 0)) (.ofNat 44 target) c.bits)
  | none => old

/-- The entry of a page after `calls` on a cleared table. -/
def lastEntry (calls : List Call) (page : Nat) : Option PageTableEntry :=
  calls.foldl (fun old c => c.entry page old) none

theorem Call.WithinBounds.low {c : Call} (ok : c.WithinBounds) : c.bits.toNat < 256 := by
  cases c with
  | map v p bits => exact ok.2.2
  | mapRange vs ve ps bits => exact ok.2.2.1
  | identityMapRange start stop bits => exact ok.2.2

theorem Call.WithinBounds.target_lt {c : Call} (ok : c.WithinBounds) {page target : Nat}
    (covered : c.target page = some target) : target < 2 ^ 44 := by
  cases c with
  | map v p bits =>
    obtain ⟨-, hp, -⟩ := ok
    simp only [Call.target] at covered
    split at covered <;> cases covered
    omega
  | mapRange vs ve ps bits =>
    obtain ⟨-, -, -, ptop⟩ := ok
    simp only [Call.target] at covered
    split at covered <;> cases covered
    have := ptop page (by omega) (by omega)
    omega
  | identityMapRange start stop bits =>
    obtain ⟨-, vtop, -⟩ := ok
    simp only [Call.target] at covered
    split at covered <;> cases covered
    omega

/-- The entries have the pages of the last targets. -/
theorem lastEntry_ppn {calls : List Call} (ok : ∀ c ∈ calls, c.WithinBounds) (page : Nat) :
    (lastEntry calls page).map (·.ppn.toNat) = lastTarget calls page := by
  induction calls using List.reverseRecOn with
  | nil => rfl
  | append_singleton calls c ih =>
    have okc := ok c (List.mem_append_right _ (List.mem_singleton_self c))
    have before := ih fun d hd => ok d (List.mem_append_left _ hd)
    have entry : lastEntry (calls ++ [c]) page = c.entry page (lastEntry calls page) := by
      rw [lastEntry, List.foldl_append]
      rfl
    have target : lastTarget (calls ++ [c]) page =
        (c.target page).or (lastTarget calls page) := by
      rw [lastTarget, List.reverse_append, List.reverse_singleton, List.singleton_append,
        List.findSome?_cons]
      cases c.target page <;> rfl
    rw [entry, target, Call.entry]
    cases covered : c.target page with
    | none => exact before
    | some t =>
      have := okc.target_lt covered
      rw [Option.map_some, mapEntry_ppn _ _ okc.low, BitVec.toNat_ofNat, Nat.mod_eq_of_lt this,
        Option.some_or]

/-- The map `g` with the `n` pages from `first` on sent to the pages from `base` on. -/
def overwrite (first n base : Nat) (bits : BitVec 64) (g : Nat → Option PageTableEntry)
    (page : Nat) : Option PageTableEntry :=
  if first ≤ page ∧ page < first + n then
    some (mapEntry ((g page).getD (.setValue 0)) (.ofNat 44 (base + (page - first))) bits)
  else g page

theorem overwrite_zero (first base : Nat) (bits : BitVec 64) (g : Nat → Option PageTableEntry) :
    overwrite first 0 base bits g = g := by
  funext page
  exact if_neg (by omega)

/-- An interval is overwritten from its first page on. -/
theorem overwrite_succ (first n base : Nat) (bits : BitVec 64) (g : Nat → Option PageTableEntry) :
    overwrite (first + 1) n (base + 1) bits (overwrite first 1 base bits g) =
      overwrite first (n + 1) base bits g := by
  funext page
  unfold overwrite
  by_cases h : page = first
  · rw [if_neg (by omega), if_pos (by omega), if_pos (by omega)]
  · by_cases h' : first ≤ page ∧ page < first + (n + 1)
    · rw [if_pos (by omega), if_pos h', if_neg (by omega),
        show base + 1 + (page - (first + 1)) = base + (page - first) by omega]
    · rw [if_neg (by omega), if_neg (by omega), if_neg h']

/-- The page that an address is in begins there. -/
theorem pageStart_toNat (a : BitVec 64) : (a &&& ~~~Align.lowMask 12).toNat = a.toNat / 4096 * 4096 :=
  Align.and_not_lowMask_toNat a (by omega)

theorem nextPage_toNat {a : BitVec 64} (small : a.toNat < 2 ^ 56) :
    (a + .ofNat 64 PAGE_SIZE).toNat = a.toNat + 4096 := by
  have page : (BitVec.ofNat 64 PAGE_SIZE).toNat = 4096 := rfl
  rw [BitVec.toNat_add, page, Nat.mod_eq_of_lt (by omega)]

/-- Pages that follow one another stay in bounds from the second on. -/
theorem nextPage_below {a : BitVec 64} {n : Nat}
    (top : ∀ i < n + 1, a.toNat + 4096 * i < 2 ^ 56) :
    ∀ i < n, (a + .ofNat 64 PAGE_SIZE).toNat + 4096 * i < 2 ^ 56 := by
  intro i hi
  have small := top 0 (by omega)
  have next := top (i + 1) (by omega)
  rw [nextPage_toNat (by omega)]
  omega

/-- How many pages a range covers. -/
theorem rangePages {vs ve : BitVec 64} (ordered : vs.toNat ≤ ve.toNat) (vtop : ve.toNat ≤ 2 ^ 39) :
    (alignValue ve 12 - (vs &&& ~~~Align.lowMask 12)).toNat / PAGE_SIZE =
      (ve.toNat + 4095) / 4096 - vs.toNat / 4096 := by
  have v := pageStart_toNat vs
  have e : (alignValue ve 12).toNat = (ve.toNat + 4095) / 4096 * 4096 :=
    Align.add_and_not_lowMask_toNat ve (by omega) (by omega)
  rw [BitVec.toNat_sub_of_le (BitVec.le_def.2 (by omega)), e, v, PAGE_SIZE]
  omega

/-- The tables hold the map `g` on the Sv39 pages. -/
def Implements {root : Nat} (src : PageSource root) (s : Vm) (g : Nat → Option PageTableEntry) :
    Prop :=
  ∃ t, Represents src s t ∧ ∀ a : BitVec 64, a.toNat < 2 ^ 39 →
    t.lookup (VirtualAddress.ofU64 a).path = g (a.toNat / 4096)

namespace Implements

variable {root : Nat} {src : PageSource root} {s : Vm} {g : Nat → Option PageTableEntry}

/-- `map` sends one page. -/
theorem map (impl : Implements src s g) {v p bits : BitVec 64} (hv : v.toNat < 2 ^ 39)
    (hp : p.toNat < 2 ^ 56) (low : bits.toNat < 256)
    (within : (Memory.map src.page root (.ofU64 v) (.ofU64 p) bits 0 s).zallocs ≤ src.limit) :
    Implements src (Memory.map src.page root (.ofU64 v) (.ofU64 p) bits 0 s)
      (overwrite (v.toNat / 4096) 1 (p.toNat / 4096) bits g) := by
  obtain ⟨t, rep, holds⟩ := impl
  obtain ⟨t', rep', lookup⟩ := rep.map (.ofU64 v) (.ofU64 p) low within
  have ppn : (PhysicalAddress.ofU64 p).ppn = .ofNat 44 (p.toNat / 4096) := by
    apply BitVec.eq_of_toNat_eq
    rw [PhysicalAddress.ofU64_ppn_toNat p hp, BitVec.toNat_ofNat, Nat.mod_eq_of_lt (by omega)]
  refine ⟨t', rep', fun a ha => ?_⟩
  rw [lookup _ rfl, holds a ha, ppn]
  unfold overwrite
  by_cases h : a.toNat / 4096 = v.toNat / 4096
  · rw [if_pos ((path_eq_iff ha hv).2 h), if_pos (by omega), h, Nat.sub_self, Nat.add_zero]
  · rw [if_neg fun e => h ((path_eq_iff ha hv).1 e), if_neg (by omega)]

/-- The loop of `map_range` sends one interval of pages. -/
theorem mapRangeLoop (impl : Implements src s g) {bits : BitVec 64} (low : bits.toNat < 256)
    (n : Nat) {v p : BitVec 64} (hv : 4096 ∣ v.toNat) (hp : 4096 ∣ p.toNat)
    (vtop : v.toNat + 4096 * n ≤ 2 ^ 39) (ptop : ∀ i < n, p.toNat + 4096 * i < 2 ^ 56)
    (within : (Memory.mapRangeLoop src.page root bits n v p s).zallocs ≤ src.limit) :
    Implements src (Memory.mapRangeLoop src.page root bits n v p s)
      (overwrite (v.toNat / 4096) n (p.toNat / 4096) bits g) := by
  induction n generalizing v p s g with
  | zero =>
    rw [overwrite_zero]
    exact impl
  | succ n ih =>
    rw [Memory.mapRangeLoop_succ] at within ⊢
    have first := ptop 0 (by omega)
    have nextV : (v + .ofNat 64 PAGE_SIZE).toNat = v.toNat + 4096 := nextPage_toNat (by omega)
    have nextP : (p + .ofNat 64 PAGE_SIZE).toNat = p.toNat + 4096 := nextPage_toNat (by omega)
    have one := impl.map (v := v) (p := p) (by omega) (by omega) low
      (Nat.le_trans (mapRangeLoop_zallocs_le src.page root bits n _ _ _) within)
    have rest := ih one (v := v + .ofNat 64 PAGE_SIZE) (p := p + .ofNat 64 PAGE_SIZE)
      (by rw [nextV]; omega) (by rw [nextP]; omega) (by rw [nextV]; omega)
      (by exact nextPage_below ptop) (by exact within)
    rwa [nextV, nextP, Nat.add_div_right _ (by omega), Nat.add_div_right _ (by omega),
      overwrite_succ] at rest

theorem mapRange (impl : Implements src s g) {vs ve ps bits : BitVec 64}
    (within : (Memory.mapRange src.page root vs ve ps bits s).zallocs ≤ src.limit)
    (ordered : vs.toNat ≤ ve.toNat) (vtop : ve.toNat ≤ 2 ^ 39) (low : bits.toNat < 256)
    (ptop : ∀ page, vs.toNat / 4096 ≤ page → page < (ve.toNat + 4095) / 4096 →
      4096 * (ps.toNat / 4096 + (page - vs.toNat / 4096)) < 2 ^ 56) :
    Implements src (Memory.mapRange src.page root vs ve ps bits s)
      (overwrite (vs.toNat / 4096) ((ve.toNat + 4095) / 4096 - vs.toNat / 4096)
        (ps.toNat / 4096) bits g) := by
  have v := pageStart_toNat vs
  have p := pageStart_toNat ps
  have n := rangePages ordered vtop
  rw [Memory.mapRange_eq] at within ⊢
  rw [n] at within ⊢
  have run := impl.mapRangeLoop low ((ve.toNat + 4095) / 4096 - vs.toNat / 4096)
    (v := vs &&& ~~~Align.lowMask 12) (p := ps &&& ~~~Align.lowMask 12) (by omega) (by omega)
    (by omega) (fun i hi => by have := ptop (vs.toNat / 4096 + i) (by omega) (by omega); omega) within
  rwa [v, p, Nat.mul_div_cancel _ (by omega), Nat.mul_div_cancel _ (by omega)] at run

/-- A call puts its targets over the map that was there. -/
theorem run (impl : Implements src s g) {c : Call} (ok : c.WithinBounds)
    (within : (c.run src.page root s).zallocs ≤ src.limit) :
    Implements src (c.run src.page root s) fun page => c.entry page (g page) := by
  cases c with
  | map v p bits =>
    obtain ⟨hv, hp, low⟩ := ok
    have same : (fun page => (Call.map v p bits).entry page (g page)) =
        overwrite (v.toNat / 4096) 1 (p.toNat / 4096) bits g := by
      funext page
      simp only [Call.entry, Call.target, Call.bits, overwrite]
      by_cases h : page = v.toNat / 4096
      · rw [if_pos h, if_pos (by omega), h, Nat.sub_self, Nat.add_zero]
      · rw [if_neg h, if_neg (by omega)]
    rw [same]
    exact impl.map hv hp low within
  | mapRange vs ve ps bits =>
    obtain ⟨ordered, vtop, low, ptop⟩ := ok
    have same : (fun page => (Call.mapRange vs ve ps bits).entry page (g page)) =
        overwrite (vs.toNat / 4096) ((ve.toNat + 4095) / 4096 - vs.toNat / 4096)
          (ps.toNat / 4096) bits g := by
      funext page
      simp only [Call.entry, Call.target, Call.bits, overwrite]
      by_cases h : vs.toNat / 4096 ≤ page ∧ page < (ve.toNat + 4095) / 4096
      · rw [if_pos h, if_pos (by omega)]
      · rw [if_neg h, if_neg (by omega)]
    rw [same]
    exact impl.mapRange within ordered vtop low ptop
  | identityMapRange start stop bits =>
    obtain ⟨ordered, vtop, low⟩ := ok
    have same : (fun page => (Call.identityMapRange start stop bits).entry page (g page)) =
        overwrite (start.toNat / 4096) ((stop.toNat + 4095) / 4096 - start.toNat / 4096)
          (start.toNat / 4096) bits g := by
      funext page
      simp only [Call.entry, Call.target, Call.bits, overwrite]
      by_cases h : start.toNat / 4096 ≤ page ∧ page < (stop.toNat + 4095) / 4096
      · rw [if_pos h, if_pos (by omega), Nat.add_sub_of_le h.1]
      · rw [if_neg h, if_neg (by omega)]
    rw [same]
    rw [Call.run_identityMapRange] at within ⊢
    exact impl.mapRange within ordered vtop low fun page h1 h2 => by omega

/-- A sequence of calls puts its targets over the map that was there, the last one on top. -/
theorem runCalls (impl : Implements src s g) {calls : List Call}
    (ok : ∀ c ∈ calls, c.WithinBounds)
    (within : (Memory.runCalls src.page root calls s).zallocs ≤ src.limit) :
    Implements src (Memory.runCalls src.page root calls s) fun page =>
      calls.foldl (fun old c => c.entry page old) (g page) := by
  induction calls generalizing s g with
  | nil => exact impl
  | cons c calls ih =>
    have first := impl.run (ok c List.mem_cons_self)
      (Nat.le_trans (runCalls_zallocs_le src.page root calls _) within)
    exact ih first (fun d hd => ok d (List.mem_cons_of_mem c hd)) within

end Implements

theorem implements_init {root : Nat} (src : PageSource root) {m : Memory}
    (zeroed : ∀ x, root ≤ x → x < root + 4096 → m x = 0) :
    Implements src ⟨m, 0⟩ fun _ => none :=
  ⟨_, Represents.init zeroed, fun _ _ => rfl⟩

/-- Starting from a cleared root table, the tables hold the entry the calls leave for every page. -/
theorem implements_runCalls {root : Nat} (src : PageSource root) {m : Memory}
    (zeroed : ∀ x, root ≤ x → x < root + 4096 → m x = 0) {calls : List Call}
    (ok : ∀ c ∈ calls, c.WithinBounds)
    (within : (runCalls src.page root calls ⟨m, 0⟩).zallocs ≤ src.limit) :
    Implements src (runCalls src.page root calls ⟨m, 0⟩) (lastEntry calls) :=
  (implements_init src zeroed).runCalls ok within

/-- `translate` answers with the page of the map, plus the offset. -/
theorem Implements.translate {root : Nat} {src : PageSource root} {s : Vm}
    {g : Nat → Option PageTableEntry} (impl : Implements src s g) {a : BitVec 64}
    (ha : a.toNat < 2 ^ 39) :
    (Memory.translate s.memory root (.ofU64 a)).toOption.map (·.getValue.toNat) =
      (g (a.toNat / 4096)).map fun e => 4096 * e.ppn.toNat + a.toNat % 4096 := by
  obtain ⟨t, rep, holds⟩ := impl
  rw [rep.translate, ← holds a ha, offset_toNat]

/-- `translate` answers with the page of the last target, plus the offset. -/
theorem translate_lastTarget {root : Nat} (src : PageSource root) {m : Memory}
    (zeroed : ∀ x, root ≤ x → x < root + 4096 → m x = 0) {calls : List Call}
    (ok : ∀ c ∈ calls, c.WithinBounds)
    (within : (runCalls src.page root calls ⟨m, 0⟩).zallocs ≤ src.limit) {a : BitVec 64}
    (ha : a.toNat < 2 ^ 39) :
    (translate (runCalls src.page root calls ⟨m, 0⟩).memory root
        (.ofU64 a)).toOption.map (·.getValue.toNat) =
      (lastTarget calls (a.toNat / 4096)).map fun page => 4096 * page + a.toNat % 4096 := by
  rw [(implements_runCalls src zeroed ok within).translate ha, ← lastEntry_ppn ok, Option.map_map]
  rfl

/-- **The page table is a finite map.** Start from a cleared root table and run any calls within
bounds. An Sv39 address `a` whose page some call covered translates to the page the last such call
chose, with the offset of `a` added; it is an error exactly when no call covered its page; and one
more call changes the translation of no page it does not cover. -/
theorem translate_runCalls {root : Nat} (src : PageSource root) {m : Memory}
    (zeroed : ∀ x, root ≤ x → x < root + 4096 → m x = 0) {calls : List Call}
    (ok : ∀ c ∈ calls, c.WithinBounds)
    (within : (runCalls src.page root calls ⟨m, 0⟩).zallocs ≤ src.limit) {a : BitVec 64}
    (ha : a.toNat < 2 ^ 39) :
    (∀ page, lastTarget calls (a.toNat / 4096) = some page →
      ∃ p, translate (runCalls src.page root calls ⟨m, 0⟩).memory root (.ofU64 a) = .ok p ∧
        p.getValue.toNat = 4096 * page + a.toNat % 4096) ∧
    ((∃ msg, translate (runCalls src.page root calls ⟨m, 0⟩).memory root (.ofU64 a) = .error msg) ↔
      ∀ c ∈ calls, c.target (a.toNat / 4096) = none) ∧
    ∀ c : Call, c.WithinBounds →
      (runCalls src.page root (calls ++ [c]) ⟨m, 0⟩).zallocs ≤ src.limit →
      c.target (a.toNat / 4096) = none →
      (translate (runCalls src.page root (calls ++ [c]) ⟨m, 0⟩).memory root
          (.ofU64 a)).toOption.map (·.getValue.toNat) =
        (translate (runCalls src.page root calls ⟨m, 0⟩).memory root
          (.ofU64 a)).toOption.map (·.getValue.toNat) := by
  have answer := translate_lastTarget src zeroed ok within ha
  refine ⟨fun page last => ?_, ?_, fun c okc withinc uncovered => ?_⟩
  · rw [last] at answer
    cases h : translate (runCalls src.page root calls ⟨m, 0⟩).memory root (.ofU64 a) with
    | error msg => simp [h, Except.toOption] at answer
    | ok p =>
      rw [h] at answer
      exact ⟨p, rfl, by simpa [Except.toOption] using answer⟩
  · have none_iff : lastTarget calls (a.toNat / 4096) = none ↔
        ∀ c ∈ calls, c.target (a.toNat / 4096) = none := by
      simp [lastTarget]
    rw [← none_iff]
    cases h : translate (runCalls src.page root calls ⟨m, 0⟩).memory root (.ofU64 a) with
    | error msg =>
      rw [h] at answer
      have last : lastTarget calls (a.toNat / 4096) = none := by
        simpa [Except.toOption] using answer.symm
      exact ⟨fun _ => last, fun _ => ⟨msg, rfl⟩⟩
    | ok p =>
      rw [h] at answer
      refine ⟨fun ⟨_, e⟩ => by simp at e, fun last => ?_⟩
      simp [last, Except.toOption] at answer
  · have okAll : ∀ d ∈ calls ++ [c], d.WithinBounds := by
      intro d hd
      rcases List.mem_append.1 hd with h | h
      · exact ok d h
      · rw [List.mem_singleton.1 h]
        exact okc
    have answer' := translate_lastTarget src zeroed okAll withinc ha
    have same : lastTarget (calls ++ [c]) (a.toNat / 4096) = lastTarget calls (a.toNat / 4096) := by
      simp [lastTarget, uncovered]
    rw [answer, answer', same]

/-- A range of two pages with its second page mapped again. -/
theorem translate_runCalls_remapped :
    let src : PageSource 0x80000000 :=
      { page := fun n => 0x90000000 + 4096 * n
        limit := 16
        root_aligned := by decide
        aligned := fun n _ => by omega
        ne_null := fun n _ => by omega
        addressable := fun n _ => by omega
        injective := fun m _ n _ _ => by omega
        ne_root := fun n _ => by omega }
    ∃ p, translate (runCalls src.page 0x80000000
        [.mapRange 0x1000 0x2001 0x5000 2, .map 0x2000 0x9000 6] ⟨fun _ => 0, 0⟩).memory 0x80000000
        (.ofU64 0x2345) = .ok p ∧ p.getValue.toNat = 4096 * 9 + 0x345 := by
  intro src
  refine (translate_runCalls src (fun _ _ _ => rfl) ?_ ?_ (by decide)).1 9 (by decide)
  · intro c hc
    simp only [List.mem_cons, List.not_mem_nil, or_false] at hc
    rcases hc with rfl | rfl
    · refine ⟨by decide, by decide, by decide, fun page _ h => ?_⟩
      have : page < 3 := h
      change 4096 * (5 + (page - 1)) < 2 ^ 56
      omega
    · exact ⟨by decide, by decide, by decide⟩
  · decide +kernel

end MatteOS.Memory
