import MatteOS.Utils.Assertions
import MatteOS.Utils.Basic

/-!
# Formatting

`Utils::format`. A format is a C string without its NUL, and an argument is of a type that takes
flags, which are the integral types, or of one that does not. `process` goes through the characters
with a context, and hands it from one argument to the next.
-/

namespace MatteOS.Utils.Formatter

/-- An argument: its text, or for an integral type its value as a `size_t`. -/
inductive Argument where
  | text (chars : List (BitVec 8))
  | number (value : BitVec 64)
deriving DecidableEq

/-- `StringifiableWithFlags` -/
def Argument.withFlags : Argument → Bool
  | .text _ => false
  | .number _ => true

/-- The base that flags stand for. -/
def base (flags : List (BitVec 8)) : Nat :=
  if flags = [0x31, 0x36] then 16 else if flags = [0x32] then 2 else 10

/-- `to_string(size_t, String&)`, with a buffer of 64 characters. -/
def toString (value : BitVec 64) (flags : List (BitVec 8)) : Except Fault (List (BitVec 8)) :=
  let chars := itoa value (base flags)
  if chars.length + 1 ≤ 64 then .ok chars else .error .undefined

structure FormatterContext where
  escaped : Bool
  opened : Bool
  flags : List (BitVec 8)
  result : List (BitVec 8)

/-- What `process` does with its first argument where a placeholder ends. -/
def FormatterContext.append (context : FormatterContext) :
    Argument → Except Fault FormatterContext
  | .text chars => .ok { context with opened := false, result := context.result ++ chars }
  | .number value => do
    let chars ← toString value context.flags
    return { context with opened := false, flags := [], result := context.result ++ chars }

/-- `process`; the format is what is left of it. -/
def process (context : FormatterContext) :
    List (BitVec 8) → List Argument → Except Fault (List (BitVec 8))
  | format, [] => .ok (context.result ++ format)
  | [], _ :: _ => .ok context.result
  | c :: format, value :: args =>
    if c = 0x7B ∧ !context.escaped then
      process { context with opened := true } format (value :: args)
    else if c = 0x7D ∧ !context.escaped ∧ context.opened then
      match context.append value with
      | .ok context => process context format args
      | .error fault => .error fault
    else if c = 0x5C then
      if context.escaped then
        process { context with escaped := false, result := context.result ++ [c] } format
          (value :: args)
      else process { context with escaped := true } format (value :: args)
    else if context.opened then
      process { context with escaped := false, flags := context.flags ++ [c] } format
        (value :: args)
    else
      process { context with escaped := false, result := context.result ++ [c] } format
        (value :: args)

/-- `Utils::format` -/
def format (text : List (BitVec 8)) (args : List Argument) : Except Fault (List (BitVec 8)) :=
  process { escaped := false, opened := false, flags := [], result := [] } text args

end MatteOS.Utils.Formatter
