import MatteOS.Lib.Transition
import MatteOS.Utils.RefPtr

/-!
# Reference counts are exact

In every run, as long as no assignment releases the object that the assigned `RefPtr` or the one on
the right is in, and no count overflows, counts are the numbers of `RefPtr`s, and an object is
destroyed once, when the last `RefPtr` to it goes away.

In the middle of `unref` counts are exact but for the `RefPtr`s that are being destroyed
(`Counted`). What is destroyed was owned by the `RefPtr` that gives up its object (`Since`), so that
nothing is destroyed that is outside.
-/

namespace MatteOS.Utils.References

open Transition

namespace World

/-- How many `RefPtr`s refer to the object. -/
def references (w : World) (o : Nat) : Nat := Ownership.references w.pointers w.value o

/-- There is no way to the object but through the `RefPtr` at `r`. -/
def Owned (w : World) (r : Location) (o : Nat) : Prop :=
  Ownership.Owned w.pointers w.value Location.holder r o

/-- The `RefPtr` is not in an object that `r` owns. -/
def Outside (w : World) (r l : Location) : Prop :=
  Ownership.Outside w.pointers w.value Location.holder r l

/-- A `RefPtr` is constructed where there is none and from an object that there is, and the others
are there. -/
def Valid (w : World) : Call → Prop
  | .create _ => True
  | .construct x ptr => .root x ∉ w.pointers ∧ ∀ o, ptr = some o → (w.objects o).isSome
  | .copyConstruct x other | .moveConstruct x other => .root x ∉ w.pointers ∧ other ∈ w.pointers
  | .copyAssign l other | .moveAssign l other => l ∈ w.pointers ∧ other ∈ w.pointers
  | .destroy x => .root x ∈ w.pointers

instance (w : World) : (call : Call) → Decidable (w.Valid call)
  | .create _ => isTrue trivial
  | .construct x ptr =>
    inferInstanceAs (Decidable (.root x ∉ w.pointers ∧ ∀ o ∈ ptr, (w.objects o).isSome))
  | .copyConstruct x other | .moveConstruct x other =>
    inferInstanceAs (Decidable (.root x ∉ w.pointers ∧ other ∈ w.pointers))
  | .copyAssign l other | .moveAssign l other =>
    inferInstanceAs (Decidable (l ∈ w.pointers ∧ other ∈ w.pointers))
  | .destroy x => inferInstanceAs (Decidable (.root x ∈ w.pointers))

/-! ## Exact counts -/

/-- Every count is the number of `RefPtr`s to the object, and there is an object at the end of each
`RefPtr`. -/
structure Exact (w : World) : Prop where
  counts : ∀ o c, w.objects o = some c → c.refCount.toNat = w.references o
  targets : ∀ l ∈ w.pointers, ∀ o, w.value l = some o → (w.objects o).isSome

/-- No object is destroyed twice, and those are destroyed to which the last `RefPtr` has gone
away. -/
structure OnTime (w w' : World) : Prop where
  once : w'.destroyed.Nodup
  live : ∀ o, (w'.objects o).isSome ↔ o < w'.next ∧ o ∉ w'.destroyed
  last : ∀ o, o ∈ w'.destroyed ↔ o ∈ w.destroyed ∨ 0 < w.references o ∧ w'.references o = 0

/-- What is assigned to refers to the object that the right-hand side referred to. -/
def Assigned (w w' : World) : Call → Prop
  | .copyAssign l other | .moveAssign l other => l ∈ w'.pointers ∧ w'.value l = w.value other
  | _ => True

/-- The call goes through without a look at a destroyed object, and afterwards counts are exact. -/
def Agrees (w : World) (call : Call) : Prop :=
  ∃ w', w.call call = .ok w' ∧ w'.Exact ∧ w.OnTime w' ∧ w.Assigned w' call

/-- The `RefPtr`s at `T` refer to the object, and the release of the object of `r` leaves them. -/
def Remain (w : World) (r : Location) (o : Nat) (T : Finset Location) : Prop :=
  ∀ l ∈ T, l ∈ w.pointers ∧ w.value l = some o ∧ l ≠ r ∧ w.Outside r l

/-- An assignment is between `RefPtr`s outside of what it destroys, and one more reference can be
counted. -/
def Spared (w : World) : Call → Prop
  | .construct _ ptr => ∀ o, ptr = some o → w.references o + 1 < 2 ^ 32
  | .copyConstruct _ other => ∀ o, w.value other = some o → w.references o + 1 < 2 ^ 32
  | .copyAssign l other => l ≠ other → w.Outside l l ∧ w.Outside l other ∧
      ∀ o, w.value other = some o → ∀ T, w.Remain l o T → T.card + 1 < 2 ^ 32
  | .moveAssign l other => l ≠ other → w.Outside l l ∧ w.Outside l other
  | _ => True

end World

open World

/-! ## In the middle of a call -/

/-- Counts where the `RefPtr`s at `X` do not count any more, the references `due` are yet to be
given up, and the objects `Z` are being destroyed. -/
structure Counted (w : World) (X : Finset Location) (Z : Finset Nat) (due : List Nat) : Prop where
  counts : ∀ o c, w.objects o = some c →
    c.refCount.toNat = Ownership.references (w.pointers \ X) w.value o + due.count o
  targets : ∀ l ∈ w.pointers \ X, ∀ o, w.value l = some o → (w.objects o).isSome
  pending : ∀ o ∈ due, (w.objects o).isSome
  fields : ∀ o c, w.objects o = some c → o ∉ Z → ∀ i < c.fields, .field o i ∈ w.pointers
  holders : ∀ o i, .field o i ∈ w.pointers → ∃ c, w.objects o = some c ∧ i < c.fields
  dying : ∀ o ∈ Z, ∃ c, w.objects o = some c ∧ c.refCount = 0
  once : w.destroyed.Nodup
  live : ∀ o, (w.objects o).isSome ↔ o < w.next ∧ o ∉ w.destroyed
  old : ∀ o ∈ w.destroyed, o < w.next

theorem count_toList (v : Option Nat) (o : Nat) :
    v.toList.count o = if v = some o then 1 else 0 := by
  cases v with
  | none => rfl
  | some u => simp [List.count_singleton]

/-- The reference of a `RefPtr` that does not count any more is due. -/
theorem references_exempt {w : World} {X : Finset Location} {l : Location} (mem : l ∈ w.pointers)
    (new : l ∉ X) (due : List Nat) (o : Nat) :
    Ownership.references (w.pointers \ X) w.value o + due.count o =
      Ownership.references (w.pointers \ insert l X) w.value o +
        ((w.value l).toList ++ due).count o := by
  rw [Ownership.references_erase (Finset.mem_sdiff.2 ⟨mem, new⟩), Finset.sdiff_insert,
    List.count_append, count_toList, Nat.add_assoc]

namespace Counted

variable {w : World} {X : Finset Location} {Z : Finset Nat} {due : List Nat} {l : Location}
  {o : Nat} {c : RefCounted}

/-- A `RefPtr` does not count any more, so that its reference is due. -/
theorem exempt (counted : Counted w X Z due) (mem : l ∈ w.pointers) (new : l ∉ X) :
    Counted w (insert l X) Z ((w.value l).toList ++ due) := by
  refine { counted with
    counts := fun o c found => ?_
    targets := fun k mem' => ?_
    pending := fun o mem' => ?_ }
  · rw [counted.counts o c found, references_exempt mem new]
  · rw [Finset.sdiff_insert] at mem'
    exact counted.targets k (Finset.mem_of_mem_erase mem')
  · rcases List.mem_append.1 mem' with here | before
    · exact counted.targets l (Finset.mem_sdiff.2 ⟨mem, new⟩) o (Option.mem_toList.1 here)
    · exact counted.pending o before

/-- A `RefPtr` counts again, whose reference was due. -/
theorem recount (counted : Counted w (insert l X) Z ((w.value l).toList ++ due))
    (mem : l ∈ w.pointers) (new : l ∉ X) : Counted w X Z due := by
  refine { counted with
    counts := fun o c found => ?_
    targets := fun k mem' o refers => ?_
    pending := fun o mem' => counted.pending o (List.mem_append_right _ mem') }
  · rw [counted.counts o c found, references_exempt mem new]
  · by_cases same : k = l
    · exact counted.pending o
        (List.mem_append_left due (Option.mem_toList.2 (same ▸ refers)))
    · refine counted.targets k ?_ o refers
      rw [Finset.sdiff_insert]
      exact Finset.mem_erase.2 ⟨same, mem'⟩

/-- The value of a `RefPtr` that does not count. -/
theorem set (counted : Counted w X Z due) (mem : l ∈ X) (v : Option Nat) :
    Counted (w.set l v) X Z due := by
  have same : ∀ k ∈ w.pointers \ X, (w.set l v).value k = w.value k := by
    intro k mem'
    refine Function.update_of_ne ?_ _ _
    rintro rfl
    exact (Finset.mem_sdiff.1 mem').2 mem
  refine { counted with counts := fun o c found => ?_, targets := fun k mem' o refers => ?_ }
  · rw [counted.counts o c found]
    exact congrArg (· + _) (Ownership.references_congr fun k mem' => (same k mem').symm)
  · rw [same k mem'] at refers
    exact counted.targets k mem' o refers

/-- A `RefPtr` that does not count is not there any more. -/
theorem leave (counted : Counted w (insert l X) Z due) (inside : ∀ o, l.holder = some o → o ∈ Z) :
    Counted (w.leave l) X Z due := by
  have same : (w.leave l).pointers \ X = w.pointers \ insert l X := by
    rw [Finset.sdiff_insert]
    exact Finset.erase_sdiff_comm _ _ _
  refine { counted with
    counts := fun o c found => ?_
    targets := fun k mem o refers => ?_
    fields := fun o c found alive i lt => ?_
    holders := fun o i mem => counted.holders o i (Finset.mem_of_mem_erase mem) }
  · rw [same]
    exact counted.counts o c found
  · rw [same] at mem
    exact counted.targets k mem o refers
  · refine Finset.mem_erase.2 ⟨?_, counted.fields o c found alive i lt⟩
    rintro rfl
    exact alive (inside o rfl)

/-- Another count of an object, for other references that are due to it. -/
theorem setRefCount (counted : Counted w X Z due) (found : w.objects o = some c) {n : BitVec 32}
    {Z' : Finset Nat} {due' : List Nat}
    (here : n.toNat = Ownership.references (w.pointers \ X) w.value o + due'.count o)
    (others : ∀ o' ≠ o, due'.count o' = due.count o') (sub : ∀ o' ∈ due', o' = o ∨ o' ∈ due)
    (more : Z ⊆ Z') (dying : ∀ o' ∈ Z', o' = o ∧ n = 0 ∨ o' ≠ o ∧ o' ∈ Z) :
    Counted (w.setRefCount o c n) X Z' due' := by
  have self : (w.setRefCount o c n).objects o = some { c with refCount := n } :=
    Function.update_self o _ _
  have other : ∀ o' ≠ o, (w.setRefCount o c n).objects o' = w.objects o' :=
    fun o' ne => Function.update_of_ne ne _ _
  have some_iff : ∀ o', ((w.setRefCount o c n).objects o').isSome ↔ (w.objects o').isSome := by
    intro o'
    by_cases same : o' = o
    · rw [same, self, found, Option.isSome_some, Option.isSome_some]
    · rw [other o' same]
  constructor
  case counts =>
    intro o' c' found'
    by_cases same : o' = o
    · subst same
      rw [self] at found'
      cases found'
      exact here
    · rw [other o' same] at found'
      rw [counted.counts o' c' found', others o' same]
      rfl
  case targets =>
    intro l mem o' refers
    exact (some_iff o').2 (counted.targets l mem o' refers)
  case pending =>
    intro o' mem
    rcases sub o' mem with rfl | before
    · exact (some_iff o').2 (Option.isSome_iff_exists.2 ⟨c, found⟩)
    · exact (some_iff o').2 (counted.pending o' before)
  case fields =>
    intro o' c' found' alive i lt
    by_cases same : o' = o
    · subst same
      rw [self] at found'
      cases found'
      exact counted.fields o' c found (fun mem => alive (more mem)) i lt
    · rw [other o' same] at found'
      exact counted.fields o' c' found' (fun mem => alive (more mem)) i lt
  case holders =>
    intro o' i mem
    obtain ⟨c', found', lt⟩ := counted.holders o' i mem
    by_cases same : o' = o
    · subst same
      obtain rfl := Option.some.inj (found.symm.trans found')
      exact ⟨_, self, lt⟩
    · exact ⟨c', (other o' same).trans found', lt⟩
  case dying =>
    intro o' mem
    rcases dying o' mem with ⟨rfl, zero⟩ | ⟨ne, before⟩
    · exact ⟨_, self, zero⟩
    · obtain ⟨c', found', zero⟩ := counted.dying o' before
      exact ⟨c', (other o' ne).trans found', zero⟩
  case once => exact counted.once
  case live => exact fun o' => (some_iff o').trans (counted.live o')
  case old => exact counted.old

/-- What a `RefPtr` is in is there. -/
theorem holder_alive (counted : Counted w X Z due) (mem : l ∈ w.pointers)
    (holder : l.holder = some o) : w.objects o ≠ none := by
  cases l with
  | root x => cases holder
  | field h i =>
    cases holder
    obtain ⟨c, found, -⟩ := counted.holders o i mem
    rw [found]
    exact Option.some_ne_none c

/-- An object that is due has a count. -/
theorem count_of_due (counted : Counted w X Z (o :: due)) (found : w.objects o = some c) :
    c.refCount.toNat =
      Ownership.references (w.pointers \ X) w.value o + due.count o + 1 := by
  rw [counted.counts o c found, List.count_cons_self, Nat.add_assoc]

/-- What is due is not being destroyed. -/
theorem not_dying (counted : Counted w X Z (o :: due)) : o ∉ Z := by
  intro mem
  obtain ⟨c, found, zero⟩ := counted.dying o mem
  have count := counted.count_of_due found
  rw [zero] at count
  cases count

/-- The object is destroyed, of which no field is left. -/
theorem free (counted : Counted w X (insert o Z) due) (new : o ∉ Z)
    (none_left : ∀ i, .field o i ∉ w.pointers) : Counted (w.free o) X Z due := by
  obtain ⟨c, found, zero⟩ := counted.dying o (Finset.mem_insert_self o Z)
  have count : c.refCount.toNat = 0 := congrArg BitVec.toNat zero
  have unreferred := (counted.counts o c found).symm.trans count
  rw [Nat.add_eq_zero_iff, Ownership.references_eq_zero, List.count_eq_zero] at unreferred
  have self : (w.free o).objects o = none := Function.update_self o _ _
  have other : ∀ o' ≠ o, (w.free o).objects o' = w.objects o' :=
    fun o' ne => Function.update_of_ne ne _ _
  have of_found : ∀ {o' c'}, (w.free o).objects o' = some c' → o' ≠ o ∧ w.objects o' = some c' := by
    intro o' c' found'
    by_cases same : o' = o
    · rw [same, self] at found'
      cases found'
    · exact ⟨same, (other o' same).symm.trans found'⟩
  have here := (counted.live o).1 (Option.isSome_iff_exists.2 ⟨c, found⟩)
  constructor
  case counts => exact fun o' c' found' => counted.counts o' c' (of_found found').2
  case targets =>
    intro l mem o' refers
    rw [other o' fun same => unreferred.1 l mem (same ▸ refers)]
    exact counted.targets l mem o' refers
  case pending =>
    intro o' mem
    rw [other o' fun same => unreferred.2 (same ▸ mem)]
    exact counted.pending o' mem
  case fields =>
    intro o' c' found' alive i lt
    obtain ⟨ne, found'⟩ := of_found found'
    refine counted.fields o' c' found' (fun mem => alive ?_) i lt
    exact Finset.mem_of_mem_insert_of_ne mem ne
  case holders =>
    intro o' i mem
    obtain ⟨c', found', lt⟩ := counted.holders o' i mem
    refine ⟨c', (other o' ?_).trans found', lt⟩
    rintro rfl
    exact none_left i mem
  case dying =>
    intro o' mem
    obtain ⟨c', found', zero'⟩ := counted.dying o' (Finset.mem_insert_of_mem mem)
    refine ⟨c', (other o' ?_).trans found', zero'⟩
    rintro rfl
    exact new mem
  case once => exact List.nodup_cons.2 ⟨here.2, counted.once⟩
  case live =>
    intro o'
    by_cases same : o' = o
    · rw [same, self]
      simp [World.free]
    · rw [other o' same, counted.live o']
      simp [World.free, same]
  case old =>
    intro o' mem
    rcases List.mem_cons.1 mem with rfl | before
    · exact here.1
    · exact counted.old o' before

end Counted

/-- What has happened since the `RefPtr` at `r` began to give up its object in the world `w₀`. -/
structure Since (w₀ : World) (r : Location) (w : World) (X : Finset Location) (Z : Finset Nat)
    (due : List Nat) : Prop where
  exempt : ∀ l ∈ X, l = r ∨ ∃ o ∈ Z, l.holder = some o
  dying : ∀ o ∈ Z, w₀.Owned r o
  kept : ∀ l ∈ w₀.pointers, l ∈ w.pointers ∨ ∃ h, l.holder = some h ∧ w₀.Owned r h
  same : ∀ l ∈ w.pointers, l ∈ w₀.pointers ∧ w.value l = w₀.value l
  objects : ∀ o c, w.objects o = some c →
    ∃ c₀, w₀.objects o = some c₀ ∧ (o ∉ Z → c.refCount = 0 → c₀.refCount = 0)
  gone : ∀ o, (w₀.objects o).isSome → w.objects o = none → w₀.Owned r o
  next : w.next = w₀.next
  held : ∀ o ∈ due, ∃ l ∈ w₀.pointers, w₀.value l = some o

namespace Since

variable {w₀ w : World} {r l : Location} {X : Finset Location} {Z : Finset Nat} {due : List Nat}
  {o : Nat} {c : RefCounted}

/-- A `RefPtr` of an object that is being destroyed does not count any more. -/
theorem exempt_field (since : Since w₀ r w X Z due) (mem : l ∈ w.pointers)
    (inside : ∃ o ∈ Z, l.holder = some o) :
    Since w₀ r w (insert l X) Z ((w.value l).toList ++ due) := by
  obtain ⟨mem₀, same⟩ := since.same l mem
  refine { since with exempt := fun k mem' => ?_, held := fun o mem' => ?_ }
  · rcases Finset.mem_insert.1 mem' with rfl | before
    · exact .inr inside
    · exact since.exempt k before
  · rcases List.mem_append.1 mem' with here | before
    · exact ⟨l, mem₀, same ▸ Option.mem_toList.1 here⟩
    · exact since.held o before

theorem leave (since : Since w₀ r w (insert l X) Z due) (inside : ∃ o ∈ Z, l.holder = some o) :
    Since w₀ r ((w.set l none).leave l) X Z due := by
  obtain ⟨h, dying, holder⟩ := inside
  refine { since with
    exempt := fun k mem => since.exempt k (Finset.mem_insert_of_mem mem)
    kept := fun k mem => ?_
    same := fun k mem => ?_ }
  · rcases since.kept k mem with there | lost
    · by_cases same : k = l
      · exact .inr ⟨h, same ▸ holder, since.dying h dying⟩
      · exact .inl (Finset.mem_erase.2 ⟨same, there⟩)
    · exact .inr lost
  · obtain ⟨ne, mem⟩ := Finset.mem_erase.1 mem
    obtain ⟨mem₀, same⟩ := since.same k mem
    exact ⟨mem₀, (Function.update_of_ne ne _ _).trans same⟩

/-- A count changes. -/
theorem setRefCount (since : Since w₀ r w X Z (o :: due)) (found : w.objects o = some c)
    {n : BitVec 32} {Z' : Finset Nat} (more : Z ⊆ Z') (dying : ∀ o' ∈ Z', o' ∈ Z ∨ w₀.Owned r o')
    (zero : n = 0 → o ∈ Z') : Since w₀ r (w.setRefCount o c n) X Z' due where
  exempt := by
    intro l mem
    rcases since.exempt l mem with same | ⟨h, mem', holder⟩
    · exact .inl same
    · exact .inr ⟨h, more mem', holder⟩
  dying := by
    intro o' mem
    rcases dying o' mem with before | owned
    · exact since.dying o' before
    · exact owned
  kept := since.kept
  same := since.same
  objects := by
    intro o' c' found'
    by_cases same : o' = o
    · subst same
      obtain rfl := Option.some.inj ((Function.update_self o' _ _).symm.trans found')
      obtain ⟨c₀, found₀, -⟩ := since.objects o' c found
      exact ⟨c₀, found₀, fun alive isZero => absurd (zero isZero) alive⟩
    · obtain ⟨c₀, found₀, kept⟩ :=
        since.objects o' c' ((Function.update_of_ne same _ _).symm.trans found')
      exact ⟨c₀, found₀, fun alive => kept fun mem => alive (more mem)⟩
  gone := by
    intro o' some₀ none'
    by_cases same : o' = o
    · subst same
      cases (Function.update_self o' _ _).symm.trans none'
    · exact since.gone o' some₀ ((Function.update_of_ne same _ _).symm.trans none')
  next := since.next
  held := fun o' mem => since.held o' (List.mem_cons_of_mem o mem)

/-- The object is destroyed. -/
theorem free (since : Since w₀ r w X (insert o Z) due) (new : ∀ i, .field o i ∉ X) :
    Since w₀ r (w.free o) X Z due where
  exempt := by
    intro l mem
    rcases since.exempt l mem with same | ⟨h, mem', holder⟩
    · exact .inl same
    · rcases Finset.mem_insert.1 mem' with rfl | before
      · cases l with
        | root x => cases holder
        | field h' i =>
          cases holder
          exact absurd mem (new i)
      · exact .inr ⟨h, before, holder⟩
  dying := fun o' mem => since.dying o' (Finset.mem_insert_of_mem mem)
  kept := since.kept
  same := since.same
  objects := by
    intro o' c' found'
    by_cases same : o' = o
    · subst same
      cases (Function.update_self o' _ _).symm.trans found'
    · obtain ⟨c₀, found₀, kept⟩ :=
        since.objects o' c' ((Function.update_of_ne same _ _).symm.trans found')
      refine ⟨c₀, found₀, fun alive => kept fun mem => alive ?_⟩
      exact Finset.mem_of_mem_insert_of_ne mem same
  gone := by
    intro o' some₀ none'
    by_cases same : o' = o
    · exact same ▸ since.dying o (Finset.mem_insert_self o Z)
    · exact since.gone o' some₀ ((Function.update_of_ne same _ _).symm.trans none')
  next := since.next
  held := since.held

end Since

/-! ## `unref` -/

structure Releasing (w₀ : World) (r : Location) (w : World) (X : Finset Location) (Z : Finset Nat)
    (due : List Nat) : Prop where
  counted : Counted w X Z due
  since : Since w₀ r w X Z due

/-- `RefPtr`s only go away, and none of an object that is being destroyed already. -/
structure Keeps (Z : Finset Nat) (w w' : World) : Prop where
  sub : w'.pointers ⊆ w.pointers
  kept : ∀ l ∈ w.pointers, ∀ o ∈ Z, l.holder = some o → l ∈ w'.pointers

theorem Keeps.refl (Z : Finset Nat) (w : World) : Keeps Z w w :=
  ⟨Finset.Subset.refl _, fun _ mem _ _ _ => mem⟩

/-- The function gives up one reference, if the objects that are not being destroyed yet are no more
than `depth`. -/
def Releases (w₀ : World) (r : Location) (depth : Nat)
    (unref : Nat → World → Except Fault (Bool × World)) : Prop :=
  ∀ {w : World} {X : Finset Location} {Z : Finset Nat} {due : List Nat} {o : Nat},
    Releasing w₀ r w X Z (o :: due) → w₀.next ≤ depth + Z.card →
      ∃ destroyed w', unref o w = .ok (destroyed, w') ∧ Releasing w₀ r w' X Z due ∧ Keeps Z w w'

section

variable {w₀ w : World} {r l : Location} {X : Finset Location} {Z : Finset Nat} {due : List Nat}
  {o : Nat} {c : RefCounted}

theorem read_eq (mem : l ∈ w.pointers) : w.read l = .ok (w.value l) := if_pos mem

theorem write_eq (mem : l ∈ w.pointers) (v : Option Nat) : w.write l v = .ok (w.set l v) :=
  if_pos mem

theorem object_eq (found : w.objects o = some c) : w.object o = .ok c := congrArg orUndefined found

namespace Releasing

/-- The last reference to an object is given up: it was owned. -/
theorem owned (releasing : Releasing w₀ r w X Z (o :: due))
    (unreferred : Ownership.references (w.pointers \ X) w.value o = 0) : w₀.Owned r o := by
  obtain ⟨-, since⟩ := releasing
  rw [Ownership.references_eq_zero] at unreferred
  refine .of_each (since.held o List.mem_cons_self) fun l mem refers => ?_
  rcases since.kept l mem with there | lost
  · by_cases exempt : l ∈ X
    · rcases since.exempt l exempt with same | ⟨h, dying, holder⟩
      · exact .inl same
      · exact .inr ⟨h, holder, since.dying h dying⟩
    · exact absurd ((since.same l there).2.trans refers)
        (unreferred l (Finset.mem_sdiff.2 ⟨there, exempt⟩))
  · exact .inr lost

/-- There is an object that is not being destroyed yet. -/
theorem card_lt (releasing : Releasing w₀ r w X Z (o :: due)) : Z.card < w₀.next := by
  obtain ⟨counted, since⟩ := releasing
  have below : insert o Z ⊆ Finset.range w₀.next := by
    intro o' mem
    have alive : (w.objects o').isSome := by
      rcases Finset.mem_insert.1 mem with rfl | dying
      · exact counted.pending o' List.mem_cons_self
      · obtain ⟨c, found, -⟩ := counted.dying o' dying
        rw [found]
        rfl
    exact Finset.mem_range.2 (since.next ▸ ((counted.live o').1 alive).1)
  have card := Finset.card_le_card below
  rw [Finset.card_insert_of_notMem counted.not_dying, Finset.card_range] at card
  exact card

/-- No field of an object that begins to be destroyed has stopped to count. -/
theorem field_not_mem (releasing : Releasing w₀ r w X Z (o :: due)) (spared : w₀.Outside r r)
    (owned : w₀.Owned r o) (i : Nat) : .field o i ∉ X := by
  intro mem
  rcases releasing.since.exempt _ mem with rfl | ⟨h, dying, holder⟩
  · exact spared o rfl owned
  · cases holder
    exact releasing.counted.not_dying dying

end Releasing

variable {depth : Nat} {unref : Nat → World → Except Fault (Bool × World)}

theorem unrefValue_releases (releases : Releases w₀ r depth unref) (v : Option Nat)
    (releasing : Releasing w₀ r w X Z (v.toList ++ due)) (deep : w₀.next ≤ depth + Z.card) :
    ∃ w', w.unrefValue unref v = .ok w' ∧ Releasing w₀ r w' X Z due ∧ Keeps Z w w' := by
  cases v with
  | none => exact ⟨w, rfl, releasing, .refl Z w⟩
  | some o =>
    obtain ⟨destroyed, w', run, releasing', keeps⟩ := releases releasing deep
    refine ⟨w', ?_, releasing', keeps⟩
    rw [unrefValue, run]
    rfl

/-- A field of an object that is being destroyed goes away, and no other one. -/
theorem destroyPointer_releases (releases : Releases w₀ r depth unref)
    (releasing : Releasing w₀ r w X Z due) (mem : l ∈ w.pointers) (new : l ∉ X)
    (inside : ∃ o ∈ Z, l.holder = some o) (deep : w₀.next ≤ depth + Z.card) :
    ∃ w', w.destroyPointer unref l = .ok w' ∧ Releasing w₀ r w' X Z due ∧
      w'.pointers ⊆ w.pointers ∧ l ∉ w'.pointers ∧
      ∀ k ∈ w.pointers, k ≠ l → ∀ o ∈ Z, k.holder = some o → k ∈ w'.pointers := by
  obtain ⟨h, dying, holder⟩ := inside
  obtain ⟨w₁, run, ⟨counted, since⟩, keeps⟩ := unrefValue_releases releases (w.value l)
    ⟨releasing.counted.exempt mem new, releasing.since.exempt_field mem ⟨h, dying, holder⟩⟩ deep
  have there := keeps.kept l mem h dying holder
  refine ⟨(w₁.set l none).leave l, ?_, ⟨?_, since.leave ⟨h, dying, holder⟩⟩, ?_, ?_, ?_⟩
  · rw [destroyPointer, read_eq mem, ok_bind, run, ok_bind, write_eq there]
    rfl
  · refine (counted.set (Finset.mem_insert_self l X) none).leave fun o same => ?_
    obtain rfl := Option.some.inj (holder.symm.trans same)
    exact dying
  · exact fun k mem' => keeps.sub (Finset.mem_of_mem_erase mem')
  · exact Finset.notMem_erase l _
  · exact fun k mem' ne o dying' holder' =>
      Finset.mem_erase.2 ⟨ne, keeps.kept k mem' o dying' holder'⟩

theorem destroyFields_releases (releases : Releases w₀ r depth unref) {i : Nat}
    (releasing : Releasing w₀ r w X Z due) (dying : o ∈ Z) (new : ∀ j, .field o j ∉ X)
    (left : ∀ j < i, .field o j ∈ w.pointers) (gone : ∀ j, i ≤ j → .field o j ∉ w.pointers)
    (deep : w₀.next ≤ depth + Z.card) :
    ∃ w', w.destroyFields unref o i = .ok w' ∧ Releasing w₀ r w' X Z due ∧
      (∀ j, .field o j ∉ w'.pointers) ∧ Keeps (Z.erase o) w w' := by
  induction i generalizing w with
  | zero => exact ⟨w, rfl, releasing, fun j => gone j (Nat.zero_le j), .refl _ w⟩
  | succ i ih =>
    obtain ⟨w₁, first, releasing₁, sub, lost, others⟩ := destroyPointer_releases releases releasing
      (left i (Nat.lt_succ_self i)) (new i) ⟨o, dying, rfl⟩ deep
    have left₁ : ∀ j < i, .field o j ∈ w₁.pointers := by
      intro j lt
      refine others _ (left j (Nat.lt_succ_of_lt lt)) ?_ o dying rfl
      intro same
      cases same
      exact Nat.lt_irrefl i lt
    have gone₁ : ∀ j, i ≤ j → .field o j ∉ w₁.pointers := by
      intro j le mem
      rcases Nat.eq_or_lt_of_le le with rfl | lt
      · exact lost mem
      · exact gone j lt (sub mem)
    obtain ⟨w', rest, releasing', none_left, keeps⟩ := ih releasing₁ left₁ gone₁
    refine ⟨w', ?_, releasing', none_left, fun l mem => sub (keeps.sub mem), ?_⟩
    · rw [destroyFields, first]
      exact rest
    · intro l mem h dying' holder
      obtain ⟨ne, dying'⟩ := Finset.mem_erase.1 dying'
      refine keeps.kept l (others l mem ?_ h dying' holder) h ?_ holder
      · rintro rfl
        exact ne (Option.some.inj holder).symm
      · exact Finset.mem_erase.2 ⟨ne, dying'⟩

theorem delete_releases (releases : Releases w₀ r depth unref)
    (releasing : Releasing w₀ r w X (insert o Z) due) (found : w.objects o = some c)
    (fields : ∀ i < c.fields, .field o i ∈ w.pointers) (new : o ∉ Z)
    (newFields : ∀ i, .field o i ∉ X) (deep : w₀.next ≤ depth + (insert o Z).card) :
    ∃ w', w.delete unref o = .ok w' ∧ Releasing w₀ r w' X Z due ∧ Keeps Z w w' := by
  have gone : ∀ i, c.fields ≤ i → .field o i ∉ w.pointers := by
    intro i le mem
    obtain ⟨c', found', lt⟩ := releasing.counted.holders o i mem
    obtain rfl := Option.some.inj (found.symm.trans found')
    exact Nat.lt_irrefl i (Nat.lt_of_lt_of_le lt le)
  obtain ⟨w₁, run, ⟨counted, since⟩, none_left, keeps⟩ := destroyFields_releases releases releasing
    (Finset.mem_insert_self o Z) newFields fields gone deep
  refine ⟨w₁.free o, ?_, ⟨counted.free new none_left, since.free newFields⟩, ?_⟩
  · rw [delete, object_eq found, ok_bind, run]
    rfl
  · rw [Finset.erase_insert new] at keeps
    exact ⟨keeps.sub, keeps.kept⟩

/-- **`unref` gives up one reference**, and destroys what is not referred to any more. By induction
on the depth: an object whose destruction begins is one more in `Z`. -/
theorem unref_releases (spared : w₀.Outside r r) (depth : Nat) :
    Releases w₀ r depth (World.unref depth) := by
  induction depth with
  | zero =>
    intro w X Z due o releasing deep
    exact absurd releasing.card_lt (by omega)
  | succ depth ih =>
    intro w X Z due o releasing deep
    obtain ⟨c, found⟩ := Option.isSome_iff_exists.1 (releasing.counted.pending o List.mem_cons_self)
    have alive := releasing.counted.not_dying
    have count := releasing.counted.count_of_due found
    have less : (c.refCount - 1).toNat =
        Ownership.references (w.pointers \ X) w.value o + due.count o := by bv_omega
    have counted : ∀ {Z' : Finset Nat}, Z ⊆ Z' →
        (∀ o' ∈ Z', o' = o ∧ c.refCount - 1 = 0 ∨ o' ≠ o ∧ o' ∈ Z) →
          Counted (w.setRefCount o c (c.refCount - 1)) X Z' due :=
      releasing.counted.setRefCount found less (fun o' ne => (List.count_cons_of_ne ne.symm).symm)
        fun o' mem => .inr (List.mem_cons_of_mem o mem)
    have run : w.deref o = .ok (c.refCount - 1, w.setRefCount o c (c.refCount - 1)) := by
      rw [deref, object_eq found]
      rfl
    by_cases last : c.refCount - 1 = 0
    · have unreferred : Ownership.references (w.pointers \ X) w.value o = 0 := by
        rw [last] at less
        exact (Nat.add_eq_zero_iff.1 less.symm).1
      have owned := releasing.owned unreferred
      have releasing₁ : Releasing w₀ r (w.setRefCount o c (c.refCount - 1)) X (insert o Z) due := by
        refine ⟨counted (Finset.subset_insert o Z) fun o' mem => ?_,
          releasing.since.setRefCount found (Finset.subset_insert o Z) (fun o' mem => ?_)
            fun _ => Finset.mem_insert_self o Z⟩
        · rcases Finset.mem_insert.1 mem with rfl | before
          · exact .inl ⟨rfl, last⟩
          · exact .inr ⟨fun same => alive (same ▸ before), before⟩
        · rcases Finset.mem_insert.1 mem with rfl | before
          · exact .inr owned
          · exact .inl before
      obtain ⟨w', deleted, releasing', keeps⟩ := delete_releases ih releasing₁
        (Function.update_self o _ _) (releasing.counted.fields o c found alive) alive
        (releasing.field_not_mem spared owned)
        (by rw [Finset.card_insert_of_notMem alive]; omega)
      refine ⟨true, w', ?_, releasing', keeps.sub, keeps.kept⟩
      rw [World.unref, run, ok_bind]
      dsimp only
      rw [if_pos last, deleted]
      rfl
    · refine ⟨false, w.setRefCount o c (c.refCount - 1), ?_, ⟨counted (Finset.Subset.refl Z) ?_,
        releasing.since.setRefCount found (Finset.Subset.refl Z) (fun _ => .inl)
          fun zero => absurd zero last⟩, Finset.Subset.refl _, fun _ mem _ _ _ => mem⟩
      · rw [World.unref, run, ok_bind]
        exact if_neg last
      · exact fun o' mem => .inr ⟨fun same => alive (same ▸ mem), mem⟩

end

/-! ## Calls -/

/-- Counts between two calls. -/
abbrev Balanced (w : World) : Prop := Counted w ∅ ∅ []

section

variable {w w' : World} {l other : Location} {o : Nat} {c : RefCounted}

theorem balanced_empty : Balanced World.empty where
  counts := fun _ _ found => absurd found (Option.some_ne_none _).symm
  targets := fun _ mem => absurd (Finset.mem_sdiff.1 mem).1 (Finset.notMem_empty _)
  pending := fun _ mem => absurd mem List.not_mem_nil
  fields := fun _ _ found => absurd found (Option.some_ne_none _).symm
  holders := fun _ _ mem => absurd mem (Finset.notMem_empty _)
  dying := fun _ mem => absurd mem (Finset.notMem_empty _)
  once := List.nodup_nil
  live := fun o => by simp [World.empty]
  old := fun _ mem => absurd mem List.not_mem_nil

/-- An object that nothing refers to has no count. -/
theorem Counted.zero_of_unreferred {X : Finset Location} (counted : Counted w X ∅ [])
    (found : w.objects o = some c) (unreferred : w.references o = 0) : c.refCount = 0 := by
  have fewer : Ownership.references (w.pointers \ X) w.value o ≤ w.references o :=
    Ownership.references_mono Finset.sdiff_subset
  rw [unreferred, Nat.le_zero] at fewer
  have count := counted.counts o c found
  rw [fewer] at count
  exact BitVec.eq_of_toNat_eq count

theorem Counted.exact (balanced : Balanced w) : w.Exact where
  counts := by
    intro o c found
    have count := balanced.counts o c found
    rwa [Finset.sdiff_empty] at count
  targets := by
    intro l mem
    refine balanced.targets l ?_
    rwa [Finset.sdiff_empty]

/-- Nothing is destroyed, and no object loses its last reference. -/
theorem onTime_of_grows (balanced : Balanced w') (destroyed : w'.destroyed = w.destroyed)
    (grows : ∀ o, 0 < w.references o → 0 < w'.references o) : w.OnTime w' where
  once := balanced.once
  live := balanced.live
  last := by
    intro o
    rw [destroyed]
    refine ⟨.inl, fun either => either.resolve_right ?_⟩
    rintro ⟨before, after⟩
    exact Nat.ne_of_gt (grows o before) after

theorem references_eq (pointers : w'.pointers = w.pointers) (value : w'.value = w.value) (o : Nat) :
    w'.references o = w.references o := by
  rw [World.references, World.references, pointers, value]

section

variable {x : Nat} (new : .root x ∉ w.pointers) (v : Option Nat)

theorem enter_value (w : World) : (w.enter l v).value l = v := Function.update_self l _ _

include new

theorem enter_sdiff : (w.enter (.root x) v).pointers \ {.root x} = w.pointers := by
  rw [Finset.sdiff_singleton_eq_erase]
  exact Finset.erase_insert new

theorem enter_value_of_mem (mem : l ∈ w.pointers) : (w.enter (.root x) v).value l = w.value l := by
  apply Function.update_of_ne
  rintro rfl
  exact new mem

/-- The other `RefPtr`s refer to what they referred to. -/
theorem enter_references (o : Nat) : Ownership.references
    ((w.enter (.root x) v).pointers \ {.root x}) (w.enter (.root x) v).value o =
      w.references o := by
  rw [enter_sdiff new v]
  exact Ownership.references_congr fun l mem => enter_value_of_mem new v mem

/-- A new `RefPtr` that does not count yet. -/
theorem enter_counted (balanced : Balanced w) : Counted (w.enter (.root x) v) {.root x} ∅ [] := by
  refine { balanced with
    counts := fun o c found => ?_
    targets := fun l mem o refers => ?_
    fields := fun o c found alive i lt => ?_
    holders := fun o i mem => ?_ }
  · rw [enter_references new v]
    exact balanced.exact.counts o c found
  · rw [enter_sdiff new v] at mem
    rw [enter_value_of_mem new v mem] at refers
    exact balanced.exact.targets l mem o refers
  · exact Finset.mem_insert_of_mem (balanced.fields o c found alive i lt)
  · rcases Finset.mem_insert.1 mem with same | before
    · cases same
    · exact balanced.holders o i before

end

/-- A `RefPtr` to an object counts after `ref`. -/
theorem refValue_counted (counted : Counted w {l} ∅ []) (mem : l ∈ w.pointers)
    (fits : ∀ o, w.value l = some o → (w.objects o).isSome ∧
      Ownership.references (w.pointers \ {l}) w.value o + 1 < 2 ^ 32) :
    ∃ w', w.refValue (w.value l) = .ok w' ∧ Balanced w' ∧ w'.pointers = w.pointers ∧
      w'.value = w.value ∧ w'.destroyed = w.destroyed := by
  cases value : w.value l with
  | none =>
    refine ⟨w, rfl, Counted.recount (l := l) ?_ mem (Finset.notMem_empty l), rfl, rfl, rfl⟩
    rw [value]
    exact counted
  | some o =>
    obtain ⟨alive, lt⟩ := fits o value
    obtain ⟨c, found⟩ := Option.isSome_iff_exists.1 alive
    have count := counted.counts o c found
    rw [List.count_nil, Nat.add_zero] at count
    have more : (c.refCount + 1).toNat =
        Ownership.references (w.pointers \ {l}) w.value o + [o].count o := by
      rw [List.count_singleton_self]
      bv_omega
    have counted' := counted.setRefCount found more
      (fun o' ne => List.count_eq_zero_of_not_mem fun mem' => ne (List.mem_singleton.1 mem'))
      (fun o' mem' => .inl (List.mem_singleton.1 mem')) (Finset.Subset.refl ∅)
      fun o' mem' => absurd mem' (Finset.notMem_empty o')
    refine ⟨w.setRefCount o c (c.refCount + 1), ?_,
      Counted.recount (l := l) ?_ mem (Finset.notMem_empty l), rfl, rfl, rfl⟩
    · rw [refValue, ref, object_eq found]
      rfl
    · rw [show (w.setRefCount o c (c.refCount + 1)).value l = some o from value]
      exact counted'

/-- A `RefPtr` takes the reference of another one. -/
theorem set_none_balanced (counted : Counted w {l} ∅ []) (mem : l ∈ w.pointers)
    (memOther : other ∈ w.pointers) (ne : other ≠ l) (same : w.value l = w.value other) :
    Balanced (w.set other none) := by
  have both := (counted.exempt memOther fun mem' => ne (Finset.mem_singleton.1 mem')).set
    (Finset.mem_insert_self other _) none
  have swap : ({other, l} : Finset Location) = insert l {other} := Finset.pair_comm other l
  have kept : (w.set other none).value l = w.value l := Function.update_of_ne ne.symm _ _
  rw [swap, ← same, ← kept] at both
  have one := both.recount mem fun mem' => ne (Finset.mem_singleton.1 mem').symm
  refine Counted.recount (l := other) ?_ memOther (Finset.notMem_empty other)
  have null : (w.set other none).value other = none := Function.update_self other _ w.value
  rw [null]
  exact one

/-! ### Constructions -/

theorem Counted.next_none (balanced : Balanced w) : w.objects w.next = none := by
  rw [← Option.not_isSome_iff_eq_none, balanced.live]
  exact fun both => Nat.lt_irrefl _ both.1

/-- The fields of a new object refer to nothing. -/
theorem create_references (balanced : Balanced w) (fields : Nat) (o : Nat) :
    (w.create fields).references o = w.references o := by
  have old : ∀ l ∈ w.pointers, l.holder ≠ some w.next :=
    fun l mem holder => balanced.holder_alive mem holder balanced.next_none
  refine congrArg Finset.card (Finset.ext fun l => ?_)
  rw [Finset.mem_filter, Finset.mem_filter]
  constructor
  · rintro ⟨mem, refers⟩
    rw [World.create] at mem refers
    dsimp only at mem refers
    split_ifs at refers with holder
    refine ⟨(Finset.mem_union.1 mem).resolve_right fun new => ?_, refers⟩
    obtain ⟨i, -, rfl⟩ := Finset.mem_image.1 new
    exact holder rfl
  · rintro ⟨mem, refers⟩
    exact ⟨Finset.mem_union_left _ mem, (if_neg (old l mem)).trans refers⟩

theorem create_balanced (balanced : Balanced w) (fields : Nat) : Balanced (w.create fields) := by
  have same := create_references balanced fields
  have exact_ := balanced.exact
  have self : (w.create fields).objects w.next = some { refCount := 0, fields } :=
    Function.update_self w.next _ _
  have others : ∀ o ≠ w.next, (w.create fields).objects o = w.objects o :=
    fun o ne => Function.update_of_ne ne _ _
  have ne_next : ∀ o, (w.objects o).isSome → o ≠ w.next := by
    rintro o alive rfl
    rw [balanced.next_none] at alive
    cases alive
  have unreferred : w.references w.next = 0 := by
    rw [World.references, Ownership.references_eq_zero]
    exact fun l mem refers => ne_next _ (exact_.targets l mem _ refers) rfl
  have mem_field : ∀ o i, .field o i ∈ (w.create fields).pointers ↔
      .field o i ∈ w.pointers ∨ o = w.next ∧ i < fields := by
    intro o i
    simp only [World.create, Finset.mem_union, Finset.mem_image, Finset.mem_range,
      Location.field.injEq]
    refine or_congr_right ⟨?_, ?_⟩
    · rintro ⟨j, lt, rfl, rfl⟩
      exact ⟨rfl, lt⟩
    · rintro ⟨rfl, lt⟩
      exact ⟨i, lt, rfl, rfl⟩
  constructor
  case counts =>
    intro o c found
    rw [Finset.sdiff_empty]
    refine Eq.trans ?_ (same o).symm
    by_cases new : o = w.next
    · subst new
      rw [self] at found
      cases found
      exact unreferred.symm
    · rw [others o new] at found
      exact exact_.counts o c found
  case targets =>
    intro l mem o refers
    rw [Finset.sdiff_empty] at mem
    have referred : 0 < w.references o :=
      same o ▸ Ownership.references_pos.2 ⟨l, mem, refers⟩
    obtain ⟨k, mem', refers'⟩ := Ownership.references_pos.1 referred
    have alive := exact_.targets k mem' o refers'
    rwa [others o (ne_next o alive)]
  case pending => exact fun o mem => absurd mem List.not_mem_nil
  case fields =>
    intro o c found alive i lt
    rw [mem_field]
    by_cases new : o = w.next
    · subst new
      rw [self] at found
      cases found
      exact .inr ⟨rfl, lt⟩
    · rw [others o new] at found
      exact .inl (balanced.fields o c found alive i lt)
  case holders =>
    intro o i mem
    rcases (mem_field o i).1 mem with before | ⟨rfl, lt⟩
    · obtain ⟨c, found, lt⟩ := balanced.holders o i before
      exact ⟨c, (others o (ne_next o (Option.isSome_iff_exists.2 ⟨c, found⟩))).trans found, lt⟩
    · exact ⟨_, self, lt⟩
  case dying => exact fun o mem => absurd mem (Finset.notMem_empty o)
  case once => exact balanced.once
  case live =>
    intro o
    by_cases new : o = w.next
    · rw [new, self]
      exact ⟨fun _ => ⟨Nat.lt_succ_self _, fun mem => Nat.lt_irrefl _ (balanced.old _ mem)⟩,
        fun _ => rfl⟩
    · rw [others o new, balanced.live o]
      refine and_congr_left fun _ => ?_
      simp only [World.create]
      omega
  case old => exact fun o mem => Nat.lt_succ_of_lt (balanced.old o mem)

end

/-! ### Releases -/

section

variable {w₀ w w' : World} {r l other : Location} {o : Nat}

/-- The `RefPtr` at `r` begins to give up its object. -/
theorem releasing_start (balanced : Balanced w) (mem : r ∈ w.pointers) :
    Releasing w r w {r} ∅ ((w.value r).toList ++ []) where
  counted := balanced.exempt mem (Finset.notMem_empty r)
  since := {
    exempt := fun l mem' => .inl (Finset.mem_singleton.1 mem')
    dying := fun o mem' => absurd mem' (Finset.notMem_empty o)
    kept := fun l mem' => .inl mem'
    same := fun l mem' => ⟨mem', rfl⟩
    objects := fun o c found => ⟨c, found, fun _ zero => zero⟩
    gone := fun o alive none' => by rw [none'] at alive; cases alive
    next := rfl
    held := fun o mem' => by
      rw [List.append_nil] at mem'
      exact ⟨r, mem, Option.mem_toList.1 mem'⟩ }

/-- The object of `r` is released. -/
theorem releasing_done (balanced : Balanced w) (mem : r ∈ w.pointers) (spared : w.Outside r r) :
    ∃ w₁, w.unrefValue (unref w.next) (w.value r) = .ok w₁ ∧ Releasing w r w₁ {r} ∅ [] := by
  obtain ⟨w₁, run, releasing, -⟩ := unrefValue_releases (unref_releases spared w.next) (w.value r)
    (releasing_start balanced mem) (Nat.le_add_right _ _)
  exact ⟨w₁, run, releasing⟩

namespace Releasing

/-- What is outside stays as it is. -/
theorem stays (releasing : Releasing w₀ r w {r} ∅ []) (mem : l ∈ w₀.pointers)
    (outside : w₀.Outside r l) : l ∈ w.pointers ∧ w.value l = w₀.value l := by
  rcases releasing.since.kept l mem with there | ⟨h, holder, owned⟩
  · exact ⟨there, (releasing.since.same l there).2⟩
  · exact absurd owned (outside h holder)

/-- What `r` owned is destroyed. By induction on ownership: no `RefPtr` to the object is left. -/
theorem destroyed_of_owned (releasing : Releasing w₀ r w {r} ∅ []) (balanced : Balanced w₀)
    (owned : w₀.Owned r o) : w.objects o = none := by
  induction owned with
  | intro o held inside owned ih =>
    obtain ⟨counted, since⟩ := releasing
    by_contra alive
    obtain ⟨c, found⟩ := Option.ne_none_iff_exists'.1 alive
    have unreferred : Ownership.references (w.pointers \ {r}) w.value o = 0 := by
      refine Ownership.references_eq_zero.2 fun l mem refers => ?_
      obtain ⟨mem, ne⟩ := Finset.mem_sdiff.1 mem
      rw [Finset.mem_singleton] at ne
      obtain ⟨mem₀, same⟩ := since.same l mem
      have refers₀ := same.symm.trans refers
      obtain ⟨h, holder⟩ := Option.isSome_iff_exists.1 (inside l mem₀ refers₀ ne)
      exact counted.holder_alive mem holder (ih l mem₀ refers₀ ne h holder)
    have count := counted.counts o c found
    rw [unreferred] at count
    obtain ⟨c₀, found₀, zero⟩ := since.objects o c found
    have count₀ := balanced.exact.counts o c₀ found₀
    rw [zero (Finset.notMem_empty o) (BitVec.eq_of_toNat_eq count)] at count₀
    exact Nat.ne_of_gt (Ownership.references_pos.2 held) count₀.symm

/-- Objects are destroyed in time, where those without a reference afterwards had none left. -/
theorem onTime (releasing : Releasing w₀ r w {r} ∅ []) (balanced : Balanced w₀)
    (balanced' : Balanced w') (destroyed : w'.destroyed = w.destroyed)
    (zero : ∀ o c, w.objects o = some c → w'.references o = 0 → c.refCount = 0) : w₀.OnTime w' where
  once := balanced'.once
  live := balanced'.live
  last := by
    intro o
    obtain ⟨counted, since⟩ := releasing
    rw [destroyed]
    constructor
    · intro mem
      have none' : w.objects o = none := by
        rw [← Option.not_isSome_iff_eq_none, counted.live]
        exact fun both => both.2 mem
      by_cases before : o ∈ w₀.destroyed
      · exact .inl before
      · have below := since.next ▸ counted.old o mem
        have owned := since.gone o ((balanced.live o).2 ⟨below, before⟩) none'
        refine .inr ⟨Ownership.references_pos.2 owned.held, ?_⟩
        rw [World.references, Ownership.references_eq_zero]
        intro l mem' refers
        have alive := balanced'.exact.targets l mem' o refers
        rw [balanced'.live, destroyed] at alive
        exact alive.2 mem
    · have of_none : o < w₀.next → w.objects o = none → o ∈ w.destroyed := by
        intro below none'
        by_contra other
        have alive := (counted.live o).2 ⟨since.next ▸ below, other⟩
        rw [none'] at alive
        cases alive
      rintro (before | ⟨referred, unreferred⟩)
      · refine of_none (balanced.old o before) ?_
        rw [Option.eq_none_iff_forall_ne_some]
        intro c found
        obtain ⟨c₀, found₀, -⟩ := since.objects o c found
        exact ((balanced.live o).1 (Option.isSome_iff_exists.2 ⟨c₀, found₀⟩)).2 before
      · obtain ⟨l, mem, refers⟩ := Ownership.references_pos.1 referred
        have alive := balanced.exact.targets l mem o refers
        refine of_none ((balanced.live o).1 alive).1 ?_
        rw [Option.eq_none_iff_forall_ne_some]
        intro c found
        obtain ⟨c₀, found₀, kept⟩ := since.objects o c found
        have count₀ := balanced.exact.counts o c₀ found₀
        rw [kept (Finset.notMem_empty o) (zero o c found unreferred)] at count₀
        exact Nat.ne_of_gt referred count₀.symm

end Releasing

end

/-! ### One call -/

/-- What a call does where its condition is met. -/
structure Done (w : World) (call : Call) (w' : World) : Prop where
  run : w.call call = .ok w'
  balanced : Balanced w'
  onTime : w.OnTime w'
  assigned : w.Assigned w' call

section

variable {w : World} {l other : Location} {x : Nat}

/-- A call that changes nothing. -/
theorem same_done (balanced : Balanced w) {call : Call} (run : w.call call = .ok w)
    (assigned : w.Assigned w call) : Done w call w :=
  ⟨run, balanced, onTime_of_grows balanced rfl fun _ before => before, assigned⟩

theorem create_done (balanced : Balanced w) (fields : Nat) :
    Done w (.create fields) (w.create fields) where
  run := rfl
  balanced := create_balanced balanced fields
  onTime := onTime_of_grows (create_balanced balanced fields) rfl
    fun o before => (create_references balanced fields o).symm ▸ before
  assigned := trivial

/-- The reference of a new `RefPtr` is counted. -/
theorem enter_done (balanced : Balanced w) (new : .root x ∉ w.pointers) (v : Option Nat)
    (alive : ∀ o, v = some o → (w.objects o).isSome)
    (fits : ∀ o, v = some o → w.references o + 1 < 2 ^ 32) :
    ∃ w', (w.enter (.root x) v).refValue v = .ok w' ∧ Balanced w' ∧ w.OnTime w' := by
  have value := enter_value (l := .root x) v w
  have others := enter_references new v
  obtain ⟨w', run, balanced', pointers, value', destroyed⟩ := refValue_counted
    (enter_counted new v balanced) (Finset.mem_insert_self _ _) fun o refers => by
      rw [value] at refers
      exact ⟨alive o refers, (others o).symm ▸ fits o refers⟩
  rw [value] at run
  refine ⟨w', run, balanced', onTime_of_grows balanced' destroyed fun o before => ?_⟩
  rw [references_eq pointers value' o]
  exact Nat.lt_of_lt_of_le ((others o).symm ▸ before)
    (Ownership.references_mono Finset.sdiff_subset)

theorem construct_done (balanced : Balanced w) {ptr : Option Nat}
    (valid : w.Valid (.construct x ptr)) (spared : w.Spared (.construct x ptr)) :
    ∃ w', Done w (.construct x ptr) w' := by
  obtain ⟨w', run, balanced', onTime⟩ := enter_done balanced valid.1 ptr valid.2 spared
  exact ⟨w', run, balanced', onTime, trivial⟩

theorem copyConstruct_done (balanced : Balanced w) (valid : w.Valid (.copyConstruct x other))
    (spared : w.Spared (.copyConstruct x other)) : ∃ w', Done w (.copyConstruct x other) w' := by
  obtain ⟨new, mem⟩ := valid
  obtain ⟨w', run, balanced', onTime⟩ := enter_done balanced new (w.value other)
    (balanced.exact.targets other mem) spared
  refine ⟨w', ?_, balanced', onTime, trivial⟩
  rw [call, read_eq mem]
  exact run

theorem moveConstruct_done (balanced : Balanced w) (valid : w.Valid (.moveConstruct x other)) :
    ∃ w', Done w (.moveConstruct x other) w' := by
  obtain ⟨new, mem⟩ := valid
  have ne : other ≠ .root x := by
    rintro rfl
    exact new mem
  have balanced' := set_none_balanced (enter_counted new (w.value other) balanced)
    (Finset.mem_insert_self _ _) (Finset.mem_insert_of_mem mem) ne
    ((enter_value _ w).trans (enter_value_of_mem new _ mem).symm)
  refine ⟨_, ?_, balanced', onTime_of_grows balanced' rfl fun o before => ?_, trivial⟩
  · rw [call, read_eq mem]
    exact write_eq (Finset.mem_insert_of_mem mem) none
  · obtain ⟨l, mem', refers⟩ := Ownership.references_pos.1 before
    refine Ownership.references_pos.2 ?_
    by_cases moved : l = other
    · refine ⟨.root x, Finset.mem_insert_self _ _, ?_⟩
      refine (Function.update_of_ne ne.symm _ _).trans ((enter_value _ w).trans ?_)
      exact moved ▸ refers
    · refine ⟨l, Finset.mem_insert_of_mem mem', ?_⟩
      refine (Function.update_of_ne moved _ _).trans ((enter_value_of_mem new _ mem').trans ?_)
      exact refers

/-- The variable goes away with its reference. -/
theorem destroy_done (balanced : Balanced w) (mem : .root x ∈ w.pointers) :
    ∃ w', Done w (.destroy x) w' := by
  have outside : w.Outside (.root x) (.root x) := by
    intro h holder
    cases holder
  obtain ⟨w₁, run, releasing⟩ := releasing_done balanced mem outside
  have there := (releasing.stays mem outside).1
  have balanced' : Balanced ((w₁.set (.root x) none).leave (.root x)) := by
    have counted := releasing.counted.set (Finset.mem_singleton_self _) none
    refine Counted.leave (l := .root x) counted fun o holder => ?_
    cases holder
  refine ⟨_, ?_, balanced', releasing.onTime balanced balanced' rfl ?_, trivial⟩
  · rw [call, destroyPointer, read_eq mem, ok_bind, run, ok_bind, write_eq there]
    rfl
  · exact fun o c found => balanced'.zero_of_unreferred found

/-- What both assignments do first: the right-hand side stays when the old object is released. -/
theorem assign_released (balanced : Balanced w) (mem : l ∈ w.pointers)
    (memOther : other ∈ w.pointers) (outside : w.Outside l l) (outsideOther : w.Outside l other) :
    ∃ w₁, w.unrefValue (unref w.next) (w.value l) = .ok w₁ ∧ Releasing w l w₁ {l} ∅ [] ∧
      l ∈ w₁.pointers ∧ other ∈ w₁.pointers ∧ w₁.value other = w.value other := by
  obtain ⟨w₁, run, releasing⟩ := releasing_done balanced mem outside
  obtain ⟨there, same⟩ := releasing.stays memOther outsideOther
  exact ⟨w₁, run, releasing, (releasing.stays mem outside).1, there, same⟩

theorem copyAssign_done (balanced : Balanced w) (valid : w.Valid (.copyAssign l other))
    (spared : w.Spared (.copyAssign l other)) : ∃ w', Done w (.copyAssign l other) w' := by
  obtain ⟨mem, memOther⟩ := valid
  by_cases self : l = other
  · subst self
    exact ⟨w, same_done balanced (if_pos rfl) ⟨mem, rfl⟩⟩
  · obtain ⟨outside, outsideOther, fits⟩ := spared self
    obtain ⟨w₁, run, releasing, there, thereOther, same⟩ :=
      assign_released balanced mem memOther outside outsideOther
    have counted := releasing.counted.set (Finset.mem_singleton_self l) (w.value other)
    have value : (w₁.set l (w.value other)).value l = w.value other := Function.update_self l _ _
    have others : ∀ k ∈ w₁.pointers \ {l}, (w₁.set l (w.value other)).value k = w.value k := by
      intro k mem'
      obtain ⟨mem', ne⟩ := Finset.mem_sdiff.1 mem'
      rw [Finset.mem_singleton] at ne
      exact (Function.update_of_ne ne _ _).trans (releasing.since.same k mem').2
    have ready : ∀ o, (w₁.set l (w.value other)).value l = some o →
        ((w₁.set l (w.value other)).objects o).isSome ∧
          Ownership.references (w₁.pointers \ {l}) (w₁.set l (w.value other)).value o + 1
            < 2 ^ 32 := by
      intro o refers
      rw [value] at refers
      have target : other ∈ w₁.pointers \ {l} :=
        Finset.mem_sdiff.2 ⟨thereOther, fun mem' => self (Finset.mem_singleton.1 mem').symm⟩
      refine ⟨counted.targets other target o ((others other target).trans refers),
        fits o refers _ fun k mem' => ?_⟩
      obtain ⟨mem', refers'⟩ := Finset.mem_filter.1 mem'
      rw [others k mem'] at refers'
      obtain ⟨mem₁, ne⟩ := Finset.mem_sdiff.1 mem'
      rw [Finset.mem_singleton] at ne
      refine ⟨(releasing.since.same k mem₁).1, refers', ne, fun h holder owned => ?_⟩
      exact releasing.counted.holder_alive mem₁ holder (releasing.destroyed_of_owned balanced owned)
    obtain ⟨w', counts, balanced', pointers, value', destroyed⟩ :=
      refValue_counted counted there ready
    rw [value] at counts
    refine ⟨w', ?_, balanced', releasing.onTime balanced balanced' destroyed ?_, ?_, ?_⟩
    · rw [call, if_neg self, read_eq mem, ok_bind, run, ok_bind, read_eq thereOther, ok_bind, same,
        write_eq there]
      exact counts
    · intro o c found unreferred
      rw [references_eq pointers value' o] at unreferred
      exact counted.zero_of_unreferred found unreferred
    · rw [pointers]
      exact there
    · rw [value']
      exact value

theorem moveAssign_done (balanced : Balanced w) (valid : w.Valid (.moveAssign l other))
    (spared : w.Spared (.moveAssign l other)) : ∃ w', Done w (.moveAssign l other) w' := by
  obtain ⟨mem, memOther⟩ := valid
  by_cases self : l = other
  · subst self
    exact ⟨w, same_done balanced (if_pos rfl) ⟨mem, rfl⟩⟩
  · obtain ⟨outside, outsideOther⟩ := spared self
    obtain ⟨w₁, run, releasing, there, thereOther, same⟩ :=
      assign_released balanced mem memOther outside outsideOther
    have counted := releasing.counted.set (Finset.mem_singleton_self l) (w.value other)
    have value : (w₁.set l (w.value other)).value l = w.value other := Function.update_self l _ _
    have valueOther : (w₁.set l (w.value other)).value other = w.value other :=
      (Function.update_of_ne (Ne.symm self) _ _).trans same
    have balanced' := set_none_balanced counted there thereOther (Ne.symm self)
      (value.trans valueOther.symm)
    refine ⟨_, ?_, balanced', releasing.onTime balanced balanced' rfl ?_, there, ?_⟩
    · rw [call, if_neg self, read_eq mem, ok_bind, run, ok_bind, read_eq thereOther, ok_bind, same,
        write_eq there, ok_bind]
      exact write_eq (w := w₁.set l (w.value other)) thereOther none
    · exact fun o c found => balanced'.zero_of_unreferred found
    · exact (Function.update_of_ne self _ _).trans value

theorem call_done (balanced : Balanced w) {call : Call} (valid : w.Valid call)
    (spared : w.Spared call) : ∃ w', Done w call w' := by
  cases call with
  | create fields => exact ⟨_, create_done balanced fields⟩
  | construct x ptr => exact construct_done balanced valid spared
  | copyConstruct x other => exact copyConstruct_done balanced valid spared
  | moveConstruct x other => exact moveConstruct_done balanced valid
  | copyAssign l other => exact copyAssign_done balanced valid spared
  | moveAssign l other => exact moveAssign_done balanced valid spared
  | destroy x => exact destroy_done balanced valid

end

/-! ## Runs -/

/-- **Reference counts are exact** in every run whose assignments are between `RefPtr`s outside of
what they destroy, and in which no count overflows. -/
theorem refPtr_agrees (calls : List Call) (valid : Along step Valid World.empty calls)
    (spared : Along step Spared World.empty calls) : Along step Agrees World.empty calls := by
  refine Along.of_invariant (J := Balanced) (fun w call balanced valid spared => ?_)
    balanced_empty valid spared
  obtain ⟨w', run, balanced', onTime, assigned⟩ := call_done balanced valid spared
  refine ⟨⟨w', run, balanced'.exact, onTime, assigned⟩, ?_⟩
  rw [step, run]
  exact balanced'

/-- What a variable refers to, another `RefPtr` does not own. -/
theorem not_owned_of_root {w : World} {r : Location} {x o : Nat} (mem : .root x ∈ w.pointers)
    (ne : .root x ≠ r) (refers : w.value (.root x) = some o) : ¬w.Owned r o := by
  refine Ownership.Outside.not_owned (fun h holder => ?_) mem ne refers
  cases holder

theorem World.Remain.card_le {w : World} {r : Location} {o : Nat} {T : Finset Location}
    (remain : w.Remain r o T) : T.card ≤ w.pointers.card :=
  Finset.card_le_card fun l mem => (remain l mem).1

/-- A node `0` and, behind it, a node `1`. -/
def nodes : List Call :=
  [.create 1, .create 1, .construct 0 (some 0), .construct 1 (some 1),
    .copyAssign (.field 0 0) (.root 1), .destroy 1]

/-- `p = p->next` where there is another `RefPtr` to the node. -/
def shared : List Call :=
  nodes ++ [.copyConstruct 2 (.root 0), .copyAssign (.root 0) (.field 0 0), .destroy 2]

theorem refPtr_agrees_shared : Along step Agrees World.empty shared := by
  refine refPtr_agrees shared (by decide) ⟨trivial, trivial, ?_, ?_, fun _ => ⟨?_, ?_, ?_⟩, trivial,
    ?_, fun _ => ⟨?_, ?_, ?_⟩, trivial, trivial⟩
  · intro o same
    cases same
    decide
  · intro o same
    cases same
    decide
  · intro h holder
    cases holder
    exact not_owned_of_root (x := 0) (by decide) (by decide) rfl
  · intro h holder
    cases holder
  · intro o same T remain
    exact Nat.lt_of_le_of_lt (Nat.succ_le_succ remain.card_le) (by decide)
  · intro o same
    cases same
    decide
  · intro h holder
    cases holder
  · intro h holder
    cases holder
    exact not_owned_of_root (x := 2) (by decide) (by decide) rfl
  · intro o same T remain
    exact Nat.lt_of_le_of_lt (Nat.succ_le_succ remain.card_le) (by decide)

/-- `p = p->next` and `p = move(p->next)` where `p` is the only `RefPtr` to the node: the node is
destroyed, and then its field is read. -/
theorem not_agrees_next :
    (Along step Valid World.empty (nodes ++ [.copyAssign (.root 0) (.field 0 0)]) ∧
      ¬Along step Agrees World.empty (nodes ++ [.copyAssign (.root 0) (.field 0 0)])) ∧
    (Along step Valid World.empty (nodes ++ [.moveAssign (.root 0) (.field 0 0)]) ∧
      ¬Along step Agrees World.empty (nodes ++ [.moveAssign (.root 0) (.field 0 0)])) := by
  refine ⟨⟨by decide, ?_⟩, by decide, ?_⟩
  · rintro ⟨-, -, -, -, -, -, ⟨w', run, -⟩, -⟩
    cases run
  · rintro ⟨-, -, -, -, -, -, ⟨w', run, -⟩, -⟩
    cases run

end MatteOS.Utils.References
