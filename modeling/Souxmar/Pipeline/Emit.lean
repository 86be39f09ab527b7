import Souxmar.Lib.Double
import Souxmar.Pipeline.Value

/-!
# Values as YAML

`emit_value_yaml` and the comparison of values (`value.cpp`). The text of a double that is no integer is
that of `fmt`, a parameter. A `char` is signed, so every byte beyond ASCII is below `0x20`.
-/

set_option linter.dupNamespace false

namespace Souxmar.Pipeline

open Souxmar.Lib

/-! ## Scalars -/

/-- The characters that make `quote_if_needed` quote. -/
def specialChar (c : Char) : Bool :=
  c ∈ ":#\n\"'\x7b\x7d[],&*!|>%@`\\".toList || c.toNat < 0x20 || 0x80 ≤ c.toNat

/-- The spellings of booleans and nulls that it knows. -/
def quotedWords : List String := ["true", "false", "null", "~", "yes", "no", "on", "off"]

def needsQuotes (s : String) : Bool := s.isEmpty || s.toList.any specialChar || s ∈ quotedWords

def escapeYaml (c : Char) : List Char :=
  if c = '"' then ['\\', '"']
  else if c = '\\' then ['\\', '\\']
  else if c = '\n' then ['\\', 'n']
  else [c]

def quoteIfNeeded (s : String) : String :=
  if needsQuotes s then String.ofList ('"' :: (s.toList.flatMap escapeYaml ++ ['"'])) else s

/-- An integer without a fraction, any other double by `fmt::format`. -/
def numberText (fmt : UInt64 → String) (bits : UInt64) : String :=
  match Double.integer bits with
  | some i => toString i
  | none => fmt bits

/-! ## Trees -/

def pad (indent : ℕ) : String := String.ofList (List.replicate indent ' ')

variable (fmt : UInt64 → String)

mutual

def emitIndented : Value → ℕ → String
  | .null, _ => "null"
  | .boolean b, _ => if b then "true" else "false"
  | .number bits, _ => numberText fmt bits
  | .string s, _ => quoteIfNeeded s
  | .stage stageId, _ => "\x7bfrom: " ++ quoteIfNeeded stageId ++ "\x7d"
  | .list items, indent => if items.isEmpty then "[]" else emitItems items indent
  | .map fields, indent => if fields.isEmpty then "\x7b\x7d" else emitFields fields indent

def emitItems : List Value → ℕ → String
  | [], _ => ""
  | item :: items, indent =>
    "\n" ++ pad indent ++ "- " ++ emitIndented item (indent + 2) ++ emitItems items indent

def emitFields : List (String × Value) → ℕ → String
  | [], _ => ""
  | (key, child) :: fields, indent =>
    "\n" ++ pad indent ++ quoteIfNeeded key ++ ": " ++ emitIndented child (indent + 2) ++
      emitFields fields indent

end

/-- The newline in front of a list or a map is stripped. -/
def emitValueYaml (value : Value) : String :=
  match (emitIndented fmt value 0).toList with
  | c :: cs => if c = '\n' then String.ofList cs else emitIndented fmt value 0
  | [] => ""

/-! ## Comparison -/

mutual

/-- `operator==`. -/
def Value.equal : Value → Value → Bool
  | .null, .null => true
  | .boolean a, .boolean b => a = b
  | .number a, .number b => Double.equal a b
  | .string a, .string b => a = b
  | .stage a, .stage b => a = b
  | .list as, .list bs => Value.equalItems as bs
  | .map as, .map bs => Value.equalFields as bs
  | _, _ => false

def Value.equalItems : List Value → List Value → Bool
  | [], [] => true
  | a :: as, b :: bs => a.equal b && Value.equalItems as bs
  | _, _ => false

def Value.equalFields : List (String × Value) → List (String × Value) → Bool
  | [], [] => true
  | (k, a) :: as, (l, b) :: bs => k = l && a.equal b && Value.equalFields as bs
  | _, _ => false

end

end Souxmar.Pipeline
