import MatteOS.Utils.Formatter
import Mathlib.Data.List.TakeWhile

/-!
# Formats

How a format is to be read (`read`), and what its tokens are to become (`compose`). `process` drops
a brace that opens no placeholder, where placeholders follow, and what stands behind it; it leaves
escapes alone behind the last placeholder; and it hands on the flags that an argument without flags
did not use. A format does what it says for all arguments of given types if and only if none of this
happens (`format_eq_compose_iff`).
-/

namespace MatteOS.Utils.Formatter

abbrev Chars := List (BitVec 8)

/-! ## Reading a format -/

inductive Token where
  | literal (c : BitVec 8)
  /-- A backslash and the character behind it. -/
  | escape (c : BitVec 8)
  /-- An opening brace that opens no placeholder. -/
  | brace
  | placeholder (flags : Chars)
deriving DecidableEq

/-- Characters of flags: no braces or backslashes. -/
def isFlag (c : BitVec 8) : Bool := c != 0x7B && c != 0x7D && c != 0x5C

/-- The flags up to a closing brace, and what is behind it. -/
def closing (text : Chars) : Option (Chars × Chars) :=
  match text.dropWhile isFlag with
  | [] => none
  | c :: rest => if c = 0x7D then some (text.takeWhile isFlag, rest) else none

theorem closing_eq_some {text flags rest : Chars} (closed : closing text = some (flags, rest)) :
    text = flags ++ 0x7D :: rest ∧ ∀ c ∈ flags, isFlag c := by
  unfold closing at closed
  split at closed
  · cases closed
  · next c rest' dropped =>
    split_ifs at closed with close
    cases closed
    refine ⟨?_, fun c mem => List.mem_takeWhile_imp mem⟩
    rw [← close, ← dropped, List.takeWhile_append_dropWhile]

/-- The tokens of a format. -/
def read : Chars → List Token
  | [] => []
  | [c] => if c = 0x7B then [.brace] else [.literal c]
  | c :: c' :: text =>
    if c = 0x5C then .escape c' :: read text
    else if c = 0x7B then
      match _ : closing (c' :: text) with
      | some (flags, rest) => .placeholder flags :: read rest
      | none => .brace :: read (c' :: text)
    else .literal c :: read (c' :: text)
termination_by text => text.length
decreasing_by
  · exact Nat.lt_succ_of_lt (Nat.lt_succ_self _)
  · rename_i closed
    have long := congrArg List.length (closing_eq_some closed).1
    simp only [List.length_append, List.length_cons] at long ⊢
    omega
  · simp
  · simp

theorem read_escape (c : BitVec 8) (text : Chars) :
    read (0x5C :: c :: text) = .escape c :: read text := by
  rw [read, if_pos rfl]

theorem read_placeholder {text flags rest : Chars} (closed : closing text = some (flags, rest)) :
    read (0x7B :: text) = .placeholder flags :: read rest := by
  cases text with
  | nil => cases closed
  | cons c' text => rw [read, if_neg (by decide), if_pos rfl, closed]

theorem read_brace {text : Chars} (closed : closing text = none) :
    read (0x7B :: text) = .brace :: read text := by
  cases text with
  | nil => simp [read]
  | cons c' text => rw [read, if_neg (by decide), if_pos rfl, closed]

theorem read_literal {c : BitVec 8} {text : Chars} (notBrace : c ≠ 0x7B)
    (notEscape : c = 0x5C → text = []) : read (c :: text) = .literal c :: read text := by
  cases text with
  | nil => simpa [read] using notBrace
  | cons c' text =>
    rw [read, if_neg (fun backslash => List.cons_ne_nil _ _ (notEscape backslash)),
      if_neg notBrace]

/-- A format starts with one of its tokens. -/
theorem read_induction {motive : Chars → Prop} (nil : motive [])
    (escape : ∀ c text, motive text → motive (0x5C :: c :: text))
    (placeholder : ∀ text flags rest, closing text = some (flags, rest) → motive rest →
      motive (0x7B :: text))
    (brace : ∀ text, closing text = none → motive text → motive (0x7B :: text))
    (literal : ∀ c text, c ≠ 0x7B → (c = 0x5C → text = []) → motive text → motive (c :: text))
    (text : Chars) : motive text := by
  induction text using read.induct with
  | case1 => exact nil
  | case2 => exact brace [] rfl nil
  | case3 c notBrace => exact literal c [] notBrace (fun _ => rfl) nil
  | case4 c text ih => exact escape c text ih
  | case5 c text flags rest closed _ ih => exact placeholder _ flags rest closed ih
  | case6 c text closed _ ih => exact brace _ closed ih
  | case7 c c' text notEscape notBrace ih =>
    exact literal c _ notBrace (fun backslash => absurd backslash notEscape) ih

/-- The flags of the placeholders, in order. -/
def placeholders : List Token → List Chars
  | [] => []
  | .placeholder flags :: tokens => flags :: placeholders tokens
  | _ :: tokens => placeholders tokens

section

variable (c : BitVec 8) (flags : Chars) (tokens : List Token)

@[simp] theorem placeholders_literal :
    placeholders (.literal c :: tokens) = placeholders tokens := rfl

@[simp] theorem placeholders_escape :
    placeholders (.escape c :: tokens) = placeholders tokens := rfl

@[simp] theorem placeholders_brace : placeholders (.brace :: tokens) = placeholders tokens := rfl

@[simp] theorem placeholders_placeholder :
    placeholders (.placeholder flags :: tokens) = flags :: placeholders tokens := rfl

end

/-- An argument under the flags of its placeholder. -/
def render (flags : Chars) : Argument → Except Fault Chars
  | .text chars => .ok chars
  | .number value => toString value flags

/-- The literal text without its escapes, and each argument under the flags of its own
placeholder. -/
def compose : List Token → List Argument → Except Fault Chars
  | [], _ => .ok []
  | .literal c :: tokens, args | .escape c :: tokens, args =>
    (compose tokens args).map (c :: ·)
  | .brace :: tokens, args => (compose tokens args).map (0x7B :: ·)
  | .placeholder _ :: tokens, [] => compose tokens []
  | .placeholder flags :: tokens, value :: args => do
    let chars ← render flags value
    (compose tokens args).map (chars ++ ·)

/-! ## Formats that do what they say -/

/-- The flags of a number and those handed on to it stand for one base. `true` is an argument with
flags. -/
def Harmless : Chars → List (Chars × Bool) → Prop
  | _, [] => True
  | handed, (flags, true) :: rest => base (handed ++ flags) = base flags ∧ Harmless [] rest
  | handed, (flags, false) :: rest => Harmless (handed ++ flags) rest

/-- No brace stands unescaped before a placeholder that it does not open, no escape behind the last
placeholder, and flags that are handed on do no harm. -/
structure Safe (handed : Chars) (tokens : List Token) (kinds : List Bool) : Prop where
  braces : ∀ before after, tokens = before ++ .brace :: after → placeholders after = []
  escapes : ∀ before c after, tokens = before ++ .escape c :: after → placeholders after ≠ []
  flags : Harmless handed ((placeholders tokens).zip kinds)

section

variable {handed flags text rest : Chars} {tokens : List Token} {kinds : List Bool} {kind : Bool}
  {c : BitVec 8} {args : List Argument} {value : Argument}

/-- What holds behind each occurrence of `a` in a list. -/
theorem forall_split_cons {α : Type} {t a : α} {ts : List α} {P : List α → Prop} :
    (∀ before after, t :: ts = before ++ a :: after → P after) ↔
      (t = a → P ts) ∧ ∀ before after, ts = before ++ a :: after → P after := by
  constructor
  · intro all
    exact ⟨fun same => all [] ts (by rw [same]; rfl),
      fun before after split => all (t :: before) after (by rw [split]; rfl)⟩
  · rintro ⟨head, tail⟩ before after split
    cases before with
    | nil =>
      obtain ⟨same, rfl⟩ := List.cons.inj split
      exact head same
    | cons t' before => exact tail before after (List.cons.inj split).2

theorem safe_iff : Safe handed tokens kinds ↔
    (∀ before after, tokens = before ++ .brace :: after → placeholders after = []) ∧
    (∀ c before after, tokens = before ++ .escape c :: after → placeholders after ≠ []) ∧
    Harmless handed ((placeholders tokens).zip kinds) :=
  ⟨fun safe => ⟨safe.braces, fun c before after => safe.escapes before c after, safe.flags⟩,
    fun ⟨braces, escapes, flags⟩ => ⟨braces, fun before c after => escapes c before after, flags⟩⟩

theorem safe_literal :
    Safe handed (.literal c :: tokens) kinds ↔ Safe handed tokens kinds := by
  simp only [safe_iff, forall_split_cons, placeholders_literal, reduceCtorEq, false_implies, true_and]

theorem safe_escape : Safe handed (.escape c :: tokens) kinds ↔
    placeholders tokens ≠ [] ∧ Safe handed tokens kinds := by
  simp only [safe_iff, forall_split_cons, placeholders_escape, reduceCtorEq, false_implies, true_and,
    Token.escape.injEq]
  constructor
  · rintro ⟨braces, escapes, flags⟩
    exact ⟨(escapes c).1 rfl, braces, fun c' => (escapes c').2, flags⟩
  · rintro ⟨more, braces, escapes, flags⟩
    exact ⟨braces, fun c' => ⟨fun _ => more, escapes c'⟩, flags⟩

theorem safe_brace : Safe handed (.brace :: tokens) kinds ↔
    placeholders tokens = [] ∧ Safe handed tokens kinds := by
  simp only [safe_iff, forall_split_cons, placeholders_brace, reduceCtorEq, false_implies, true_and,
    true_implies]
  exact and_assoc

theorem safe_placeholder : Safe handed (.placeholder flags :: tokens) (kind :: kinds) ↔
    (kind = true → base (handed ++ flags) = base flags) ∧
      Safe (if kind then [] else handed ++ flags) tokens kinds := by
  simp only [safe_iff, forall_split_cons, placeholders_placeholder, reduceCtorEq, false_implies, true_and,
    List.zip_cons_cons]
  cases kind
  · simp [Harmless]
  · simp only [Harmless, if_true, true_implies]
    exact ⟨fun ⟨braces, escapes, same, rest⟩ => ⟨same, braces, escapes, rest⟩,
      fun ⟨same, braces, escapes, rest⟩ => ⟨braces, escapes, same, rest⟩⟩

/-! ## What `process` does with a token -/

/-- `process` between two tokens. -/
def run (handed text : Chars) (args : List Argument) : Except Fault Chars :=
  process { escaped := false, opened := false, flags := handed, result := [] } text args

/-- The result so far stays in front. -/
theorem process_result (escaped opened : Bool) (flags before result text : Chars)
    (args : List Argument) :
    process ⟨escaped, opened, flags, before ++ result⟩ text args =
      (process ⟨escaped, opened, flags, result⟩ text args).map (before ++ ·) := by
  induction text generalizing escaped opened flags result args with
  | nil =>
    cases args with
    | nil => simp [process, Except.map]
    | cons value args => rfl
  | cons c text ih =>
    cases args with
    | nil => simp [process, Except.map]
    | cons value args =>
      simp only [process]
      split_ifs
      · exact ih ..
      · cases value with
        | text chars =>
          simp only [FormatterContext.append, List.append_assoc]
          exact ih ..
        | number value =>
          simp only [FormatterContext.append]
          cases toString value flags with
          | error fault => rfl
          | ok chars =>
            simp only [ok_bind, pure, Except.pure, List.append_assoc]
            exact ih ..
      · simp only [List.append_assoc]
        exact ih ..
      · exact ih ..
      · exact ih ..
      · simp only [List.append_assoc]
        exact ih ..

theorem process_before (escaped opened : Bool) (flags before text : Chars)
    (args : List Argument) :
    process ⟨escaped, opened, flags, before⟩ text args =
      (process ⟨escaped, opened, flags, []⟩ text args).map (before ++ ·) := by
  have split := process_result escaped opened flags before [] text args
  rwa [List.append_nil] at split

theorem run_nil (handed text : Chars) : run handed text [] = .ok text := by
  cases text <;> rfl

theorem run_literal (open' : c ≠ 0x7B) (backslash : c ≠ 0x5C) :
    run handed (c :: text) (value :: args) = (run handed text (value :: args)).map (c :: ·) := by
  rw [run, process, if_neg (fun h => open' h.1), if_neg (fun h => by simp at h),
    if_neg backslash, if_neg (by simp)]
  exact process_before ..

theorem run_escape : run handed (0x5C :: c :: text) (value :: args) =
    (run handed text (value :: args)).map (c :: ·) := by
  have first : run handed (0x5C :: c :: text) (value :: args) =
      process ⟨true, false, handed, []⟩ (c :: text) (value :: args) := by
    rw [run, process, if_neg (by simp), if_neg (by simp), if_pos rfl, if_neg (by simp)]
  rw [first, process, if_neg (by simp), if_neg (by simp)]
  by_cases backslash : c = 0x5C
  · rw [if_pos backslash, if_pos rfl]
    exact process_before ..
  · rw [if_neg backslash, if_neg (by simp)]
    exact process_before ..

/-- Flags are collected up to the closing brace. -/
theorem process_flags (free : ∀ c ∈ flags, isFlag c) (handed rest : Chars) :
    process ⟨false, true, handed, []⟩ (flags ++ 0x7D :: rest) (value :: args) =
      process ⟨false, true, handed ++ flags, []⟩ (0x7D :: rest) (value :: args) := by
  induction flags generalizing handed with
  | nil => rw [List.append_nil, List.nil_append]
  | cons c flags ih =>
    have flag := free c (List.mem_cons_self ..)
    simp only [isFlag, Bool.and_eq_true, bne_iff_ne] at flag
    rw [List.cons_append, process, if_neg (fun h => flag.1.1 h.1), if_neg (fun h => flag.1.2 h.1),
      if_neg flag.2, if_pos rfl, ih (fun c mem => free c (List.mem_cons_of_mem _ mem)),
      List.append_assoc]
    rfl

/-- Flags stay in the context if the argument has no use for them. -/
theorem append_eq (context : FormatterContext) (value : Argument) :
    context.append value = (render context.flags value).map fun chars =>
      { context with
        opened := false
        flags := if value.withFlags then [] else context.flags
        result := context.result ++ chars } := by
  cases value with
  | text chars => rfl
  | number n =>
    simp only [FormatterContext.append, render, Argument.withFlags]
    cases toString n context.flags <;> rfl

/-- A placeholder renders its argument under the flags that were handed on and its own. -/
theorem run_placeholder (closed : closing text = some (flags, rest)) :
    run handed (0x7B :: text) (value :: args) =
      (render (handed ++ flags) value).bind fun chars =>
        (run (if value.withFlags then [] else handed ++ flags) rest args).map (chars ++ ·) := by
  obtain ⟨rfl, free⟩ := closing_eq_some closed
  rw [run, process, if_pos (by simp), process_flags free, process, if_neg (by simp),
    if_pos (by simp), append_eq]
  cases render (handed ++ flags) value with
  | error fault => rfl
  | ok chars => exact process_before ..

/-! ## Behind the last placeholder -/

/-- The text behind the last placeholder is appended as it is, which is right where there is no
escape in it. -/
theorem compose_raw (last : placeholders (read text) = []) :
    ∃ out, compose (read text) [] = .ok out ∧ out.length ≤ text.length ∧
      (out = text ↔ ∀ c, .escape c ∉ read text) := by
  induction text using read_induction with
  | nil => exact ⟨[], by simp [read, compose]⟩
  | escape c text ih =>
    rw [read_escape] at last ⊢
    obtain ⟨out, composed, le, -⟩ := ih last
    refine ⟨c :: out, by rw [compose, composed]; rfl, by simp; omega, fun same => ?_,
      fun none => absurd (List.mem_cons_self ..) (none c)⟩
    have long := congrArg List.length same
    simp only [List.length_cons] at long
    omega
  | placeholder text flags rest closed =>
    rw [read_placeholder closed] at last
    cases last
  | brace text closed ih =>
    rw [read_brace closed] at last ⊢
    obtain ⟨out, composed, le, same⟩ := ih last
    refine ⟨0x7B :: out, by rw [compose, composed]; rfl, by simpa using le, ?_⟩
    simpa using same
  | literal c text notBrace notEscape ih =>
    rw [read_literal notBrace notEscape] at last ⊢
    obtain ⟨out, composed, le, same⟩ := ih last
    refine ⟨c :: out, by rw [compose, composed]; rfl, by simpa using le, ?_⟩
    simpa using same

theorem safe_raw (last : placeholders tokens = []) :
    Safe handed tokens kinds ↔ ∀ c, .escape c ∉ tokens := by
  have behind : ∀ before (t : Token) after, tokens = before ++ t :: after →
      placeholders after = [] := by
    intro before t after split
    induction before generalizing tokens with
    | nil =>
      subst split
      cases t with
      | placeholder flags => cases last
      | _ => exact last
    | cons t' before ih =>
      subst split
      refine ih ?_ rfl
      cases t' with
      | placeholder flags => cases last
      | _ => exact last
  constructor
  · intro safe c mem
    obtain ⟨before, after, split⟩ := List.append_of_mem mem
    exact safe.escapes before c after split (behind before _ after split)
  · intro none
    refine ⟨fun before after split => behind before _ after split, fun before c after split => ?_,
      by rw [last]; trivial⟩
    exact absurd (by rw [split]; simp) (none c)

theorem run_raw_iff (last : placeholders (read text) = []) :
    run handed text [] = compose (read text) [] ↔ Safe handed (read text) kinds := by
  obtain ⟨out, composed, -, same⟩ := compose_raw last
  rw [run_nil, composed, safe_raw last, ← same, Except.ok.injEq, eq_comm]

/-! ## Safe formats -/

theorem run_eq_compose (count : (placeholders (read text)).length = args.length)
    (safe : Safe handed (read text) (args.map Argument.withFlags)) :
    run handed text args = compose (read text) args := by
  cases args with
  | nil => exact (run_raw_iff (List.eq_nil_of_length_eq_zero count)).2 safe
  | cons value args =>
    induction text using read_induction generalizing handed value args with
    | nil => simp [read, placeholders] at count
    | escape c text ih =>
      rw [read_escape] at safe count ⊢
      rw [run_escape, compose, ih value args count (safe_escape.1 safe).2]
    | placeholder text flags rest closed ih =>
      rw [read_placeholder closed] at safe count ⊢
      rw [List.map_cons, safe_placeholder] at safe
      obtain ⟨same, safe⟩ := safe
      have count : (placeholders (read rest)).length = args.length := Nat.succ.inj count
      have rendered : render (handed ++ flags) value = render flags value := by
        cases value with
        | text chars => rfl
        | number n => simp only [render, toString, same rfl]
      have next : run (if value.withFlags then [] else handed ++ flags) rest args =
          compose (read rest) args := by
        cases args with
        | nil => exact (run_raw_iff (List.eq_nil_of_length_eq_zero count)).2 safe
        | cons value' args => exact ih value' args count safe
      rw [run_placeholder closed, rendered, next]
      rfl
    | brace text closed =>
      rw [read_brace closed] at safe count
      have none := (safe_brace.1 safe).1
      rw [placeholders_brace, none] at count
      cases count
    | literal c text notBrace notEscape ih =>
      rw [read_literal notBrace notEscape] at safe count ⊢
      by_cases backslash : c = 0x5C
      · rw [notEscape backslash] at count
        simp [placeholders, read] at count
      · rw [run_literal notBrace backslash, compose, ih value args count (safe_literal.1 safe)]

/-! ## Formats that are not safe -/

/-- Arguments that show which flags they are rendered under, and are no brace. -/
def sample : Bool → Argument
  | true => .number 12
  | false => .text [0x78]

theorem base_cases (flags : Chars) : base flags = 16 ∨ base flags = 2 ∨ base flags = 10 := by
  unfold base
  split_ifs <;> simp

theorem toString_sample (flags : Chars) :
    toString 12 flags = .ok (if base flags = 16 then [0x63]
      else if base flags = 2 then [0x31, 0x31, 0x30, 0x30] else [0x31, 0x32]) := by
  unfold toString
  rcases base_cases flags with same | same | same <;> rw [same] <;> simp [itoa, itoaLoop, digitChar]

/-- The sample in different bases differs within its first two characters. -/
theorem base_eq_of_sample {flags flags' chars chars' x y : Chars}
    (rendered : toString 12 flags = .ok chars) (rendered' : toString 12 flags' = .ok chars')
    (same : chars ++ x = chars' ++ y) : base flags = base flags' := by
  rw [toString_sample] at rendered rendered'
  rcases base_cases flags with one | one | one <;> rcases base_cases flags' with other | other | other <;>
    rw [one] at rendered <;> rw [other] at rendered' <;> cases rendered <;> cases rendered' <;>
    simp_all

/-- A sample starts with no brace. -/
theorem render_sample (flags : Chars) (kind : Bool) :
    ∃ c chars, render flags (sample kind) = .ok (c :: chars) ∧ c ≠ 0x7B := by
  cases kind
  · exact ⟨0x78, [], rfl, by decide⟩
  · rw [show render flags (sample true) = toString 12 flags from rfl, toString_sample]
    split_ifs
    · exact ⟨0x63, [], rfl, by decide⟩
    · exact ⟨0x31, [0x31, 0x30, 0x30], rfl, by decide⟩
    · exact ⟨0x31, [0x32], rfl, by decide⟩

theorem map_eq_ok {α β : Type} {f : α → β} {a : Except Fault α} {b : β}
    (mapped : a.map f = .ok b) : ∃ x, a = .ok x ∧ f x = b := by
  cases a with
  | error fault => cases mapped
  | ok x => exact ⟨x, rfl, Except.ok.inj mapped⟩

theorem map_cons_inj {a b : Except Fault Chars} (same : a.map (c :: ·) = b.map (c :: ·)) :
    a = b := by
  cases a <;> cases b <;> simp_all [Except.map]

/-- Behind an open brace the first character that comes out is no brace. -/
theorem process_opened (escaped : Bool) (handed : Chars) {out : Chars}
    (done : process ⟨escaped, true, handed, []⟩ text (sample kind :: args) = .ok out) :
    out.head? ≠ some 0x7B := by
  induction text generalizing escaped handed with
  | nil =>
    obtain rfl := Except.ok.inj done
    simp
  | cons c text ih =>
    rw [process] at done
    by_cases brace : c = 0x7B ∧ (!escaped) = true
    · rw [if_pos brace] at done
      exact ih _ _ done
    rw [if_neg brace] at done
    by_cases close : c = 0x7D ∧ (!escaped) = true ∧ true = true
    · rw [if_pos close] at done
      obtain ⟨c', chars, rendered, notBrace⟩ := render_sample handed kind
      rw [append_eq, rendered] at done
      simp only [Except.map, List.nil_append] at done
      rw [process_before] at done
      obtain ⟨rest, -, rfl⟩ := map_eq_ok done
      simpa using notBrace
    rw [if_neg close] at done
    by_cases backslash : c = 0x5C
    · rw [if_pos backslash] at done
      split_ifs at done
      · rw [process_before] at done
        obtain ⟨rest, -, rfl⟩ := map_eq_ok done
        simp [backslash]
      · exact ih _ _ done
    · rw [if_neg backslash, if_pos rfl] at done
      exact ih _ _ done

theorem compose_sample (tokens : List Token) (kinds : List Bool) :
    ∃ out, compose tokens (kinds.map sample) = .ok out := by
  induction tokens generalizing kinds with
  | nil => exact ⟨[], rfl⟩
  | cons t tokens ih =>
    obtain ⟨out, composed⟩ := ih kinds
    cases t with
    | literal c => exact ⟨_, by rw [compose, composed]; rfl⟩
    | escape c => exact ⟨_, by rw [compose, composed]; rfl⟩
    | brace => exact ⟨_, by rw [compose, composed]; rfl⟩
    | placeholder flags =>
      cases kinds with
      | nil => exact ⟨out, composed⟩
      | cons kind kinds =>
        obtain ⟨out, composed⟩ := ih kinds
        obtain ⟨c, chars, rendered, -⟩ := render_sample flags kind
        exact ⟨_, by rw [List.map_cons, compose, rendered, ok_bind, composed]; rfl⟩

/-- A format that does what it says for the samples is safe. -/
theorem safe_of_run_eq (count : (placeholders (read text)).length = kinds.length)
    (same : run handed text (kinds.map sample) = compose (read text) (kinds.map sample)) :
    Safe handed (read text) kinds := by
  cases kinds with
  | nil => exact (run_raw_iff (List.eq_nil_of_length_eq_zero count)).1 same
  | cons kind kinds =>
    rw [List.map_cons] at same
    induction text using read_induction generalizing handed kind kinds with
    | nil => simp [read, placeholders] at count
    | escape c text ih =>
      rw [read_escape] at same count ⊢
      rw [run_escape, compose] at same
      refine safe_escape.2 ⟨?_, ih kind kinds count (map_cons_inj same)⟩
      rw [placeholders_escape] at count
      exact List.ne_nil_of_length_eq_add_one count
    | placeholder text flags rest closed ih =>
      rw [read_placeholder closed] at same count ⊢
      have count : (placeholders (read rest)).length = kinds.length := Nat.succ.inj count
      obtain ⟨c, chars, rendered, -⟩ := render_sample (handed ++ flags) kind
      obtain ⟨c', chars', rendered', -⟩ := render_sample flags kind
      obtain ⟨out, composed⟩ := compose_sample (read rest) kinds
      rw [run_placeholder closed, rendered, compose, rendered', ok_bind, composed] at same
      obtain ⟨out', ran, outputs⟩ := map_eq_ok same
      -- the samples are rendered alike, and what follows them is the same
      have next : ∀ handed', run handed' rest (kinds.map sample) =
          compose (read rest) (kinds.map sample) → Safe handed' (read rest) kinds := by
        intro handed' same
        cases kinds with
        | nil => exact (run_raw_iff (List.eq_nil_of_length_eq_zero count)).1 same
        | cons kind kinds => exact ih kind kinds count same
      have bases : kind = true → base (handed ++ flags) = base flags := by
        rintro rfl
        exact base_eq_of_sample rendered rendered' outputs
      have alike : c :: chars = c' :: chars' := by
        cases kind with
        | false => exact Except.ok.inj (rendered.symm.trans rendered')
        | true =>
          have left : toString 12 (handed ++ flags) = .ok (c :: chars) := rendered
          have right : toString 12 flags = .ok (c' :: chars') := rendered'
          rw [toString_sample, bases rfl, ← toString_sample] at left
          exact Except.ok.inj (left.symm.trans right)
      have kept : (sample kind).withFlags = kind := by cases kind <;> rfl
      rw [alike, List.append_cancel_left_eq] at outputs
      rw [kept, outputs, ← composed] at ran
      exact safe_placeholder.2 ⟨bases, next _ ran⟩
    | brace text closed ih =>
      rw [read_brace closed] at same
      obtain ⟨out, composed⟩ := compose_sample (read text) (kind :: kinds)
      rw [compose, show compose (read text) (sample kind :: kinds.map sample) = _ from composed]
        at same
      exact absurd rfl (process_opened false handed same)
    | literal c text notBrace notEscape ih =>
      rw [read_literal notBrace notEscape] at same count ⊢
      by_cases backslash : c = 0x5C
      · rw [notEscape backslash] at count
        simp [read, placeholders] at count
      · rw [run_literal notBrace backslash, compose] at same
        exact safe_literal.2 (ih kind kinds count (map_cons_inj same))

end

/-- **Formatting.** A format with a placeholder for each argument does what it says, for all
arguments of the given kinds, if and only if it is safe. -/
theorem format_eq_compose_iff (text : Chars) (kinds : List Bool)
    (count : (placeholders (read text)).length = kinds.length) :
    (∀ args : List Argument, args.map Argument.withFlags = kinds →
      format text args = compose (read text) args) ↔ Safe [] (read text) kinds := by
  constructor
  · intro composes
    refine safe_of_run_eq count (composes (kinds.map sample) ?_)
    rw [List.map_map]
    exact List.map_id'' (fun kind => by cases kind <;> rfl) kinds
  · rintro safe args rfl
    exact run_eq_compose (count.trans (List.length_map _)) safe

/-- The format `a{16}b`, of one number. -/
theorem format_eq_compose_iff_hex :
    (∀ args : List Argument, args.map Argument.withFlags = [true] →
      format [0x61, 0x7B, 0x31, 0x36, 0x7D, 0x62] args =
        compose (read [0x61, 0x7B, 0x31, 0x36, 0x7D, 0x62]) args) ↔
      Safe [] (read [0x61, 0x7B, 0x31, 0x36, 0x7D, 0x62]) [true] :=
  format_eq_compose_iff _ _ (by
    rw [read_literal (by decide) (by decide),
      @read_placeholder _ [0x31, 0x36] [0x62] rfl,
      read_literal (by decide) (by decide)]
    simp [read, placeholders])

/-- Behind the placeholder of `{}\{` the escape stays: the format of one number gives its digits, a
backslash and a brace. -/
theorem not_format_eq_compose_escape :
    ¬∀ args : List Argument, args.map Argument.withFlags = [true] →
      format [0x7B, 0x7D, 0x5C, 0x7B] args = compose (read [0x7B, 0x7D, 0x5C, 0x7B]) args := by
  intro composes
  have same := composes [.number 12] rfl
  rw [@read_placeholder _ [] [0x5C, 0x7B] rfl, read_escape] at same
  have ran : format [0x7B, 0x7D, 0x5C, 0x7B] [.number 12] = .ok [0x31, 0x32, 0x5C, 0x7B] := by
    have appended : FormatterContext.append ⟨false, true, [], []⟩ (.number 12#64) =
        .ok ⟨false, false, [], [0x31, 0x32]⟩ := by
      rw [append_eq, show render _ (.number 12#64) = toString 12 [] from rfl, toString_sample]
      rfl
    simp [format, process, appended]
  rw [ran, compose, show render _ (.number 12) = toString 12 [] from rfl, toString_sample] at same
  simp [compose, read, Except.map, base, ok_bind] at same

end MatteOS.Utils.Formatter
