import Stencil.Json.Value
import Stencil.Number.Decimal

/-! # Writing data

The compact text of a value, and the text with one item a line, indented by two spaces. Quotes,
backslashes and control characters are escaped in strings, everything else stands for itself.
-/
namespace Stencil
namespace Json

/-- A hexadecimal digit. -/
def hexDigit (n : Nat) : Char :=
  if n < 10 then Char.ofNat (0x30 + n) else Char.ofNat (0x57 + n)

/-- One character between the quotes of a string. -/
def quotedChar : Char → List Char
  | '"' => ['\\', '"']
  | '\\' => ['\\', '\\']
  | '\x08' => ['\\', 'b']
  | '\x0c' => ['\\', 'f']
  | '\n' => ['\\', 'n']
  | '\r' => ['\\', 'r']
  | '\t' => ['\\', 't']
  | c =>
    if c.toNat < 0x20 then ['\\', 'u', '0', '0', hexDigit (c.toNat / 16), hexDigit (c.toNat % 16)]
    else [c]

/-- A string with its quotes. -/
def quoted (s : String) : String :=
  "\"" ++ String.ofList (s.toList.flatMap quotedChar) ++ "\""

/-- A number that is not kept as a whole number. What is not finite has no text of its own. -/
def floatText (x : Float) : String :=
  match Binary.ofFloat x with
  | .finite negative m q =>
    if m == 0 then signText negative ++ "0.0"
    else signText negative ++ (shortestDecimal m q).scientific
  | _ => "null"

/-- The text of a value without parts. -/
def scalarText : Json → String
  | bool value => if value then "true" else "false"
  | int value => toString value
  | float value => floatText value
  | string value => quoted value
  | _ => "null"

mutual

/-- The text without any white space. -/
def compact : Json → String
  | array items => "[" ++ compactItems items ++ "]"
  | object fields => "\x7b" ++ compactFields fields ++ "\x7d"
  | value => scalarText value

/-- Items separated by commas. -/
def compactItems : List Json → String
  | [] => ""
  | [item] => compact item
  | item :: rest => compact item ++ "," ++ compactItems rest

/-- Fields separated by commas. -/
def compactFields : List (String × Json) → String
  | [] => ""
  | [(name, value)] => quoted name ++ ":" ++ compact value
  | (name, value) :: rest => quoted name ++ ":" ++ compact value ++ "," ++ compactFields rest

end

/-- A line break and the indentation of a nesting depth. -/
def newLine (depth : Nat) : String := "\n" ++ "".pushn ' ' (2 * depth)

mutual

/-- The text with every item on a line of its own. -/
def pretty (depth : Nat) : Json → String
  | array [] => "[]"
  | array items => "[" ++ prettyItems (depth + 1) items ++ newLine depth ++ "]"
  | object [] => "\x7b\x7d"
  | object fields => "\x7b" ++ prettyFields (depth + 1) fields ++ newLine depth ++ "\x7d"
  | value => scalarText value

/-- Items on their lines, separated by commas. -/
def prettyItems (depth : Nat) : List Json → String
  | [] => ""
  | [item] => newLine depth ++ pretty depth item
  | item :: rest => newLine depth ++ pretty depth item ++ "," ++ prettyItems depth rest

/-- Fields on their lines, separated by commas. -/
def prettyFields (depth : Nat) : List (String × Json) → String
  | [] => ""
  | [(name, value)] => newLine depth ++ quoted name ++ ": " ++ pretty depth value
  | (name, value) :: rest =>
    newLine depth ++ quoted name ++ ": " ++ pretty depth value ++ "," ++ prettyFields depth rest

end

end Json

end Stencil
