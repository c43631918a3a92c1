import MatteOS.Lib.Transition
import MatteOS.Utils.StringBuilder
import MatteOS.Utils.Verify.StringEquality

/-!
# What builders build

A builder is to hold the characters that were appended (`Builds`). An appended C string is put behind
the others without being counted, so that what is appended next is put in its place, and nothing puts
a NUL behind the characters. Where neither matters, `to_string` is what was appended
(`concatenates`).
-/

namespace MatteOS.Utils

open Transition StringBuilder

namespace StringBuilder

/-! ## Blocks -/

section

variable {raw : Nat → BitVec 8} {data : Option (List (BitVec 8))} {n capacity : Nat}
  {block chars piece : List (BitVec 8)} {c : BitVec 8}

theorem intRounds_eq (small : n < 2 ^ 31) : intRounds n = .ok n := by
  rw [intRounds, Nat.mod_eq_of_lt (by omega), if_pos small]

/-- Characters that fit into a block. -/
theorem store_eq (fits : n + piece.length ≤ block.length) :
    store (some block) n piece =
      .ok (some (block.take n ++ piece ++ block.drop (n + piece.length))) := by
  by_cases none : piece = []
  · rw [store, if_pos none, none, List.append_nil, List.length_nil, Nat.add_zero,
      List.take_append_drop]
  · rw [store, if_neg none, Option.getD_some, if_pos fits, Option.map_some]

/-- A new block has the characters of the other one in front of what its memory held. -/
theorem copyData_returns (raw : Nat → BitVec 8) (small : n < 2 ^ 31)
    (inside : n ≤ (data.getD []).length) (room : n < capacity) :
    ∃ block, copyData raw capacity data n = .ok (some block) ∧ block.length = capacity ∧
      block.take n = (data.getD []).take n ∧
      ∀ i, n ≤ i → i < capacity → block[i]? = some (raw i) := by
  have long : ((data.getD []).take n).length = n := List.length_take_of_le inside
  have fresh : ((List.range capacity).map raw).length = capacity := by
    rw [List.length_map, List.length_range]
  refine ⟨(data.getD []).take n ++ ((List.range capacity).map raw).drop n, ?_, ?_, ?_, ?_⟩
  · rw [copyData, intRounds_eq small, ok_bind, load, if_pos inside, ok_bind, newChars,
      if_neg (by omega), store_eq (by omega), long, List.take_zero, List.nil_append, Nat.zero_add]
  · rw [List.length_append, long, List.length_drop, fresh]
    omega
  · rw [List.take_append_of_le_length (Nat.le_of_eq long.symm), List.take_take, Nat.min_self]
  · intro i le lt
    rw [List.getElem?_append_right (by omega), long, List.getElem?_drop, Nat.add_sub_cancel' le,
      List.getElem?_map, List.getElem?_range lt, Option.map_some]

end

/-! ## Builders -/

/-- What a builder is to hold: nothing to speak of after a move, or what was appended. -/
inductive Text where
  | moved
  | appended (chars : List (BitVec 8))

/-- What is there before something is appended. -/
def Text.before : Text → List (BitVec 8)
  | .moved => []
  | .appended chars => chars

def Text.append (text : Text) (piece : List (BitVec 8)) : Text := .appended (text.before ++ piece)

/-- The block has the characters, a NUL behind them, and as many bytes as the capacity says. -/
structure Shows (b : StringBuilder) (block chars : List (BitVec 8)) : Prop where
  data : b.data = some block
  length : block.length = b.capacity
  first : block.take chars.length = chars
  nul : block[chars.length]? = some 0
  clean : 0 ∉ chars

def Builds (b : StringBuilder) : Text → Prop
  | .moved => b = moved
  | .appended chars => b.size ≤ chars.length ∧ ∃ block, Shows b block chars

/-- The character behind `length` characters that are appended: one of the block, or of the memory
of a new one. -/
def behind (b : StringBuilder) (raw : Nat → BitVec 8) (length : Nat) : BitVec 8 :=
  if b.size + length ≥ b.capacity then raw (b.size + length)
  else (b.data.getD []).getD (b.size + length) 0

/-- All that was appended is counted, by an `int`, and there is a NUL behind what is appended. -/
structure Settled (b : StringBuilder) (text : Text) (raw : Nat → BitVec 8) (length : Nat) :
    Prop where
  counted : b.size = text.before.length
  small : b.size < 2 ^ 31 ∧ length < 2 ^ 31
  nul : b.behind raw length = 0

section

variable {b b' : StringBuilder} {text : Text} {raw : Nat → BitVec 8} {length : Nat}
  {block chars piece : List (BitVec 8)} {c : BitVec 8}

theorem Shows.lt (shows : Shows b block chars) : chars.length < b.capacity := by
  rw [← shows.length]
  exact (List.getElem?_eq_some_iff.1 shows.nul).1

/-- What `to_string` gives. -/
theorem Shows.toString (shows : Shows b block chars) :
    ∃ str, b.toString = .ok str ∧ str.content = chars := by
  have terminated : 0 ∈ b.data.getD [] := by
    rw [shows.data]
    exact List.mem_of_getElem? shows.nul
  refine ⟨.ofCString (b.data.getD []) terminated, dif_pos terminated, ?_⟩
  have inside : chars.length < block.length := (List.getElem?_eq_some_iff.1 shows.nul).1
  have size : StringValue.calculateSize block = chars.length :=
    (StringValue.calculateSize_eq_iff inside).2 ⟨shows.first.symm ▸ shows.clean, shows.nul⟩
  rw [StringValue.ofCString, StringValue.content_create, shows.data, Option.getD_some, size,
    shows.first]

/-- The characters in a block without those that are not counted. -/
theorem Builds.characters (builds : Builds b text) (counted : b.size = text.before.length) :
    b.size ≤ (b.data.getD []).length ∧ (b.data.getD []).take b.size = text.before ∧
      (b.data.getD []).length = b.capacity := by
  cases text with
  | moved =>
    have builds : b = moved := builds
    subst builds
    exact ⟨Nat.le_refl 0, rfl, rfl⟩
  | appended chars =>
    obtain ⟨-, block, shows⟩ := builds
    have lt := shows.lt
    have counted : b.size = chars.length := counted
    rw [shows.data, Option.getD_some, counted, shows.first, shows.length]
    exact ⟨Nat.le_of_lt lt, rfl, rfl⟩

theorem Builds.clean (builds : Builds b text) : 0 ∉ text.before := by
  cases text with
  | moved => exact fun nul => absurd nul List.not_mem_nil
  | appended chars =>
    obtain ⟨-, block, shows⟩ := builds
    exact fun nul => shows.clean nul

/-- Room for `length` characters, with what was appended before them and a NUL behind them. -/
theorem growFor_eq (builds : Builds b text) (settled : Settled b text raw length) :
    ∃ b' block, b.growFor raw length = .ok b' ∧ b'.size = b.size ∧ b'.data = some block ∧
      block.length = b'.capacity ∧ b.size + length < b'.capacity ∧
      block.take b.size = text.before ∧ block[b.size + length]? = some 0 := by
  obtain ⟨inside, first, size⟩ := builds.characters settled.counted
  have nul := settled.nul
  rw [behind] at nul
  rw [growFor]
  split_ifs at nul ⊢ with full
  · have room : b.size < b.capacity + length + DEFAULT_CAPACITY := by
      rw [DEFAULT_CAPACITY]
      omega
    obtain ⟨block, grown, long, same, fresh⟩ :=
      copyData_returns raw settled.small.1 inside room
    refine ⟨{ b with data := some block, capacity := b.capacity + length + DEFAULT_CAPACITY },
      block, ?_, rfl, rfl, long, ?_, same.trans first, ?_⟩
    · rw [grow, grown]
      rfl
    · dsimp only [DEFAULT_CAPACITY]
      omega
    · rw [fresh _ (by omega) (by rw [DEFAULT_CAPACITY]; omega), nul]
  · cases text with
    | moved =>
      have builds : b = moved := builds
      subst builds
      exact absurd (Nat.zero_le _) full
    | appended chars =>
      obtain ⟨-, block, shows⟩ := builds
      rw [shows.data, Option.getD_some] at first nul
      have inside : b.size + length < block.length := by
        rw [shows.length]
        omega
      refine ⟨b, block, rfl, rfl, shows.data, shows.length, Nat.not_le.1 full, first, ?_⟩
      rw [List.getD_eq_getElem?_getD, List.getElem?_eq_getElem inside, Option.getD_some] at nul
      rw [List.getElem?_eq_getElem inside, nul]

/-- Characters without a NUL are put behind the others, where there is room for them. -/
theorem store_shows (data : b.data = some block) (long : block.length = b.capacity)
    (room : chars.length + piece.length < b.capacity) (first : block.take chars.length = chars)
    (nul : block[chars.length + piece.length]? = some 0) (clean : 0 ∉ chars ++ piece) :
    ∃ data', store b.data chars.length piece = .ok data' ∧
      ∀ size, ∃ block', Shows { b with data := data', size := size } block' (chars ++ piece) := by
  refine ⟨_, ?_, fun size => ⟨chars ++ piece ++ block.drop (chars.length + piece.length), rfl, ?_,
    List.take_left, ?_, clean⟩⟩
  · rw [data, store_eq (by omega), first]
  · rw [List.length_append, List.length_append, List.length_drop, long]
    dsimp only
    omega
  · rw [List.getElem?_append_right (Nat.le_refl _), Nat.sub_self, List.getElem?_drop, Nat.add_zero,
      nul]

/-- `size` is what the builder counts afterwards. -/
theorem append_builds (builds : Builds b text) (settled : Settled b text raw piece.length)
    (clean : 0 ∉ piece) :
    ∃ b' data', b.growFor raw piece.length = .ok b' ∧ b'.size = b.size ∧
      store b'.data b'.size piece = .ok data' ∧ ∀ size ≤ b.size + piece.length,
        Builds { b' with data := data', size := size } (text.append piece) := by
  obtain ⟨b', block, grown, size, data, long, room, first, nul⟩ := growFor_eq builds settled
  rw [settled.counted] at room first nul
  have clean' : 0 ∉ text.before ++ piece := by
    rw [List.mem_append, not_or]
    exact ⟨builds.clean, clean⟩
  obtain ⟨data', stored, shows⟩ := store_shows data long room first nul clean'
  refine ⟨b', data', grown, size, ?_, fun size' le => ⟨?_, shows size'⟩⟩
  · rw [size, settled.counted, stored]
  · rw [List.length_append, ← settled.counted]
    exact le

theorem appendCString_builds {str : List (BitVec 8)} (builds : Builds b text)
    (settled : Settled b text raw str.length) (clean : 0 ∉ str) :
    ∃ b', b.appendCString raw str = .ok b' ∧ Builds b' (text.append str) := by
  obtain ⟨b', data', grown, size, stored, builds'⟩ := append_builds builds settled clean
  refine ⟨{ b' with data := data' }, ?_, ?_⟩
  · rw [appendCString, grown, ok_bind, intRounds_eq settled.small.2, ok_bind, List.take_length,
      stored]
    rfl
  · exact builds' b'.size (by omega)

/-- Nothing is put anywhere where the builder does not grow. -/
theorem appendCString_nil (builds : Builds b text) (room : b.size < b.capacity) :
    ∃ b', b.appendCString raw [] = .ok b' ∧ Builds b' (text.append []) := by
  refine ⟨b, ?_, ?_⟩
  · rw [appendCString, growFor, if_neg (by simpa using room), ok_bind]
    rfl
  · cases text with
    | moved =>
      have builds : b = moved := builds
      subst builds
      exact absurd room (Nat.lt_irrefl 0)
    | appended chars =>
      rw [Text.append, List.append_nil]
      exact builds

theorem appendChar_builds (builds : Builds b text) (settled : Settled b text raw 1) (char : c ≠ 0) :
    ∃ b', b.appendChar raw c = .ok b' ∧ Builds b' (text.append [c]) := by
  have clean : 0 ∉ [c] := by simpa using char.symm
  obtain ⟨b', data', grown, size, stored, builds'⟩ := append_builds builds settled clean
  rw [List.length_singleton] at grown builds'
  refine ⟨{ b' with data := data', size := b'.size + 1 }, ?_, builds' _ (by omega)⟩
  rw [appendChar, grown, ok_bind, stored]
  rfl

theorem create_builds (nul : raw 0 = 0) : Builds (create raw) (.appended []) :=
  ⟨Nat.le_refl 0, (List.range 16).map raw, rfl, by simp [create, DEFAULT_CAPACITY], rfl,
    congrArg some nul, List.not_mem_nil⟩

/-- A copy counts what its source counts, and has no NUL of its own behind it. -/
theorem copy_builds (builds : Builds b text) (counted : b.size = text.before.length)
    (small : b.size < 2 ^ 31) (nul : b.capacity ≠ 0 → raw b.size = 0) :
    ∃ b', b.copy raw = .ok b' ∧ Builds b' text := by
  cases text with
  | moved =>
    have builds : b = moved := builds
    subst builds
    exact ⟨moved, rfl, rfl⟩
  | appended chars =>
    have counted : b.size = chars.length := counted
    obtain ⟨inside, first, -⟩ := builds.characters counted
    obtain ⟨-, block, shows⟩ := builds
    have lt : b.size < b.capacity := counted ▸ shows.lt
    obtain ⟨block', copied, long, same, fresh⟩ := copyData_returns raw small inside lt
    refine ⟨{ b with data := some block' }, ?_, Nat.le_of_eq counted, block', rfl, long, ?_, ?_,
      shows.clean⟩
    · rw [copy, copied]
      rfl
    · rw [← counted, same, first]
      rfl
    · rw [← counted, fresh _ (Nat.le_refl _) (by omega), nul (by omega)]

end

end StringBuilder

/-! ## Programs -/

/-- What the builder of each variable is to hold. -/
abbrev Texts := Nat → Option Text

def BuilderCall.onTexts (texts : Texts) : BuilderCall → Texts
  | .create x _ => Function.update texts x (some (.appended []))
  | .appendCString x str _ => Function.update texts x ((texts x).map (·.append str))
  | .appendChar x c _ => Function.update texts x ((texts x).map (·.append [c]))
  | .appendString x str _ => Function.update texts x ((texts x).map (·.append str.content))
  | .copyConstruct x y _ | .copyAssign x y _ => Function.update texts x (texts y)
  | .moveConstruct x y | .moveAssign x y =>
    if x = y then texts
    else Function.update (Function.update texts y (some .moved)) x (texts y)
  | .destroy x => Function.update texts x none

/-- The variables of the call are builders, the one it constructs is none yet, and what it appends
has no NUL. -/
def BuilderCall.Valid (texts : Texts) : BuilderCall → Prop
  | .create x _ => texts x = none
  | .appendCString x str _ => (texts x).isSome ∧ 0 ∉ str
  | .appendChar x c _ => (texts x).isSome ∧ c ≠ 0
  | .appendString x str _ => (texts x).isSome ∧ str.Clean
  | .copyConstruct x y _ | .moveConstruct x y => texts x = none ∧ (texts y).isSome
  | .copyAssign x y _ | .moveAssign x y => (texts x).isSome ∧ (texts y).isSome
  | .destroy x => (texts x).isSome

/-- Every builder builds its text. -/
structure BuildsAll (w : Builders) (texts : Texts) : Prop where
  absent : ∀ x, texts x = none → w x = none
  builds : ∀ x text, texts x = some text → ∃ b, w x = some b ∧ b.Builds text

namespace BuildsAll

variable {w : Builders} {texts : Texts} {x y : Nat} {b : StringBuilder} {text : Text}

theorem set (all : BuildsAll w texts) (builds : b.Builds text) :
    BuildsAll (w.set x b) (Function.update texts x (some text)) := by
  refine ⟨fun y => ?_, fun y text' => ?_⟩
  · by_cases same : y = x
    · simp [same]
    · rw [Builders.set, Function.update_of_ne same, Function.update_of_ne same]
      exact all.absent y
  · by_cases same : y = x
    · rw [Builders.set, same, Function.update_self, Function.update_self]
      rintro ⟨rfl⟩
      exact ⟨b, rfl, builds⟩
    · rw [Builders.set, Function.update_of_ne same, Function.update_of_ne same]
      exact all.builds y text'

theorem hand (all : BuildsAll w texts) (builds : b.Builds text) :
    BuildsAll (w.hand x y b)
      (Function.update (Function.update texts y (some .moved)) x (some text)) := by
  have left : moved.Builds .moved := rfl
  exact (all.set left).set builds

theorem destroy (all : BuildsAll w texts) :
    BuildsAll (Function.update w x none) (Function.update texts x none) := by
  refine ⟨fun y => ?_, fun y text' => ?_⟩
  · by_cases same : y = x
    · simp [same]
    · rw [Function.update_of_ne same, Function.update_of_ne same]
      exact all.absent y
  · by_cases same : y = x
    · simp [same]
    · rw [Function.update_of_ne same, Function.update_of_ne same]
      exact all.builds y text'

/-- There is a builder where there is a text. -/
theorem get (all : BuildsAll w texts) (some : (texts x).isSome) :
    ∃ text b, texts x = Option.some text ∧ w x = Option.some b ∧ w.get x = .ok b ∧
      b.Builds text := by
  obtain ⟨text, here⟩ := Option.isSome_iff_exists.1 some
  obtain ⟨b, found, builds⟩ := all.builds x text here
  exact ⟨text, b, here, found, congrArg orUndefined found, builds⟩

/-- What the three appends do to a builder. -/
theorem append (all : BuildsAll w texts) (some : (texts x).isSome) {str : List (BitVec 8)}
    {op : StringBuilder → Except Fault StringBuilder}
    (each : ∀ text b, w x = Option.some b → texts x = Option.some text → b.Builds text →
      ∃ b', op b = .ok b' ∧ b'.Builds (text.append str)) :
    ∃ world, (do let b ← w.get x; let b ← op b; return w.set x b) = .ok world ∧
      BuildsAll world (Function.update texts x ((texts x).map (·.append str))) := by
  obtain ⟨text, b, here, found, got, builds⟩ := all.get some
  obtain ⟨b', run, builds'⟩ := each text b found here builds
  refine ⟨w.set x b', ?_, ?_⟩
  · rw [got, ok_bind, run]
    rfl
  · rw [here, Option.map_some]
    exact all.set builds'

end BuildsAll

/-! ## Runs -/

/-- A program between two calls: its builders, and what they are to hold. -/
structure BuilderRun where
  world : Builders
  texts : Texts

namespace BuilderRun

def init : BuilderRun := { world := fun _ => none, texts := fun _ => none }

def step (s : BuilderRun) (call : BuilderCall) : BuilderRun where
  world :=
    match s.world.call call with
    | .ok world => world
    | .error _ => s.world
  texts := call.onTexts s.texts

def Valid (s : BuilderRun) (call : BuilderCall) : Prop := call.Valid s.texts

/-- The call goes through, inside its blocks, and afterwards `to_string` of every builder that was
not moved from is what was appended, in a block as large as the capacity. -/
def Agrees (s : BuilderRun) (call : BuilderCall) : Prop :=
  ∃ world, s.world.call call = .ok world ∧
    ∀ x chars, call.onTexts s.texts x = some (.appended chars) →
      ∃ b block str, world x = some b ∧ b.data = some block ∧ block.length = b.capacity ∧
        b.toString = .ok str ∧ str.content = chars

/-- What is appended to or copied counts all that was appended to it, and the memory behind what is
put into a block holds a NUL. Nothing is needed for an empty string without growth. -/
def Suits (s : BuilderRun) : BuilderCall → Prop
  | .create _ raw => raw 0 = 0
  | .appendCString x str raw => ∀ b text, s.world x = some b → s.texts x = some text →
    str = [] ∧ b.size < b.capacity ∨ b.Settled text raw str.length
  | .appendChar x _ raw => ∀ b text, s.world x = some b → s.texts x = some text →
    b.Settled text raw 1
  | .appendString x str raw => ∀ b text, s.world x = some b → s.texts x = some text →
    str.content = [] ∧ b.size < b.capacity ∨ b.Settled text raw str.content.length
  | .copyConstruct _ y raw => ∀ b text, s.world y = some b → s.texts y = some text →
    b.size = text.before.length ∧ b.size < 2 ^ 31 ∧ (b.capacity ≠ 0 → raw b.size = 0)
  | .copyAssign x y raw => ∀ b text, x ≠ y → s.world y = some b → s.texts y = some text →
    b.size = text.before.length ∧ b.size < 2 ^ 31 ∧ (b.capacity ≠ 0 → raw b.size = 0)
  | _ => True

variable {s : BuilderRun} {call : BuilderCall}

theorem agrees_of_builds {world : Builders} (run : s.world.call call = .ok world)
    (all : BuildsAll world (call.onTexts s.texts)) : s.Agrees call := by
  refine ⟨world, run, fun x chars here => ?_⟩
  obtain ⟨b, found, -, block, shows⟩ := all.builds x _ here
  obtain ⟨str, string, content⟩ := shows.toString
  exact ⟨b, block, str, found, shows.data, shows.length, string, content⟩

theorem appendCString_suits {b : StringBuilder} {text : Text} {str : List (BitVec 8)}
    {raw : Nat → BitVec 8} (builds : b.Builds text) (clean : 0 ∉ str)
    (suits : str = [] ∧ b.size < b.capacity ∨ b.Settled text raw str.length) :
    ∃ b', b.appendCString raw str = .ok b' ∧ b'.Builds (text.append str) := by
  rcases suits with ⟨rfl, room⟩ | settled
  · exact appendCString_nil builds room
  · exact appendCString_builds builds settled clean

theorem call_builds (all : BuildsAll s.world s.texts) (valid : s.Valid call)
    (suits : s.Suits call) :
    ∃ world, s.world.call call = .ok world ∧ BuildsAll world (call.onTexts s.texts) := by
  cases call with
  | create x raw => exact ⟨_, rfl, all.set (create_builds suits)⟩
  | appendCString x str raw =>
    exact all.append valid.1 fun text b found here builds =>
      appendCString_suits builds valid.2 (suits b text found here)
  | appendChar x c raw =>
    exact all.append valid.1 fun text b found here builds =>
      appendChar_builds builds (suits b text found here) valid.2
  | appendString x str raw =>
    obtain ⟨some, clean⟩ := valid
    refine all.append some fun text b found here builds => ?_
    obtain ⟨b', run, builds'⟩ := appendCString_suits builds clean.1 (suits b text found here)
    rw [← StringValue.cstring_eq_content clean] at run
    exact ⟨b', run, builds'⟩
  | copyConstruct x y raw =>
    obtain ⟨text, other, here, found, got, builds⟩ := all.get valid.2
    obtain ⟨counted, small, nul⟩ := suits other text found here
    obtain ⟨b, run, builds'⟩ := copy_builds builds counted small nul
    refine ⟨s.world.set x b, ?_, ?_⟩
    · rw [Builders.call, got, ok_bind, run]
      rfl
    · rw [BuilderCall.onTexts, here]
      exact all.set builds'
  | moveConstruct x y =>
    obtain ⟨free, some⟩ := valid
    obtain ⟨text, other, here, -, got, builds⟩ := all.get some
    have apart : x ≠ y := by
      rintro rfl
      rw [free] at here
      cases here
    refine ⟨s.world.hand x y other, ?_, ?_⟩
    · rw [Builders.call, got]
      rfl
    · rw [BuilderCall.onTexts, if_neg apart, here]
      exact all.hand builds
  | copyAssign x y raw =>
    obtain ⟨textX, b₀, -, -, gotX, -⟩ := all.get valid.1
    obtain ⟨text, other, here, found, got, builds⟩ := all.get valid.2
    by_cases same : x = y
    · refine ⟨s.world, ?_, ?_⟩
      · rw [Builders.call, gotX, ok_bind, got, ok_bind, if_pos same]
        rfl
      · rwa [BuilderCall.onTexts, same, Function.update_eq_self]
    · obtain ⟨counted, small, nul⟩ := suits other text same found here
      obtain ⟨b, run, builds'⟩ := copy_builds builds counted small nul
      refine ⟨s.world.set x b, ?_, ?_⟩
      · rw [Builders.call, gotX, ok_bind, got, ok_bind, if_neg same, run]
        rfl
      · rw [BuilderCall.onTexts, here]
        exact all.set builds'
  | moveAssign x y =>
    obtain ⟨textX, b₀, -, -, gotX, -⟩ := all.get valid.1
    obtain ⟨text, other, here, -, got, builds⟩ := all.get valid.2
    by_cases same : x = y
    · refine ⟨s.world, ?_, ?_⟩
      · rw [Builders.call, gotX, ok_bind, got, ok_bind, if_pos same]
        rfl
      · rwa [BuilderCall.onTexts, if_pos same]
    · refine ⟨s.world.hand x y other, ?_, ?_⟩
      · rw [Builders.call, gotX, ok_bind, got, ok_bind, if_neg same]
        rfl
      · rw [BuilderCall.onTexts, if_neg same, here]
        exact all.hand builds
  | destroy x =>
    obtain ⟨text, b, -, -, got, -⟩ := all.get valid
    refine ⟨Function.update s.world x none, ?_, all.destroy⟩
    rw [Builders.call, got]
    rfl

theorem step_builds (all : BuildsAll s.world s.texts) (valid : s.Valid call)
    (suits : s.Suits call) :
    s.Agrees call ∧ BuildsAll (s.step call).world (s.step call).texts := by
  obtain ⟨world, run, all'⟩ := call_builds all valid suits
  refine ⟨agrees_of_builds run all', ?_⟩
  rw [step, run]
  exact all'

end BuilderRun

open BuilderRun

/-- **Builders concatenate** as long as nothing is appended behind an appended C string, nor the
builder copied, and the memory behind what is put into a block holds a NUL. -/
theorem concatenates (calls : List BuilderCall) (valid : Along step Valid init calls)
    (suits : Along step Suits init calls) : Along step Agrees init calls :=
  Along.of_invariant (J := fun s => BuildsAll s.world s.texts)
    (fun _ _ all valid suits => step_builds all valid suits)
    ⟨fun _ _ => rfl, fun _ _ here => absurd here.symm (Option.some_ne_none _)⟩ valid suits

/-- A new block in cleared memory. -/
def cleared : Nat → BitVec 8 := fun _ => 0

/-- `a`, then a copy that is moved, and `bc` behind it. -/
def copied : List BuilderCall :=
  [.create 0 cleared, .appendChar 0 0x61 cleared, .copyConstruct 1 0 cleared, .moveConstruct 2 1,
    .appendCString 2 [0x62, 0x63] cleared]

theorem concatenates_copied : Along step Agrees init copied := by
  refine concatenates copied ?_ ?_
  · exact ⟨rfl, ⟨rfl, by decide⟩, ⟨rfl, rfl⟩, ⟨rfl, rfl⟩, ⟨rfl, by decide⟩, trivial⟩
  · refine ⟨rfl, ?_, ?_, trivial, ?_, trivial⟩
    · rintro _ _ ⟨rfl⟩ ⟨rfl⟩
      exact ⟨rfl, by decide, rfl⟩
    · rintro _ _ ⟨rfl⟩ ⟨rfl⟩
      exact ⟨rfl, by decide, fun _ => rfl⟩
    · rintro _ _ ⟨rfl⟩ ⟨rfl⟩
      exact .inr ⟨rfl, by decide, rfl⟩

/-- `ab`, and `c` behind it. -/
def mixed : List BuilderCall :=
  [.create 0 cleared, .appendCString 0 [0x61, 0x62] cleared, .appendChar 0 0x63 cleared]

/-- The character is put over the string that was appended before it. -/
theorem not_agrees_mixed : Along step Valid init mixed ∧ ¬Along step Agrees init mixed := by
  refine ⟨⟨rfl, ⟨rfl, by decide⟩, ⟨rfl, by decide⟩, trivial⟩, ?_⟩
  rintro ⟨-, -, ⟨world, run, shows⟩, -⟩
  obtain ⟨b, block, str, found, -, -, string, content⟩ := shows 0 [0x61, 0x62, 0x63] rfl
  cases run
  cases found
  cases string
  revert content
  decide

end MatteOS.Utils
