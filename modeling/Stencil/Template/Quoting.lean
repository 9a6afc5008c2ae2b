import Stencil.Text.Blank

/-! # Quotes and arguments

A quote opens a text that ends at the same quote; behind a backslash inside of it any character
stands for itself. Arguments are split at commas that stand neither in such a text nor in brackets.
-/
namespace Stencil.Template

/-- A character that opens and closes a quoted text. -/
def isQuote (c : Char) : Bool := c == '"' || c == '\'' || c == '\x60'

/-- Whether a place lies inside a quoted text. -/
inductive Quoting
  | outside
  | inside (quote : Char)
  /-- Behind a backslash inside a quoted text. -/
  | escaped (quote : Char)
  deriving DecidableEq, Repr, Inhabited

namespace Quoting

/-- Passes one character. -/
def step : Quoting → Char → Quoting
  | outside, c => if isQuote c then inside c else outside
  | inside q, c => if c == '\\' then escaped q else if c == q then outside else inside q
  | escaped q, _ => inside q

end Quoting

/-- A character that opens a bracket. -/
def opensBracket (c : Char) : Bool := c == '(' || c == '[' || c == '\x7b'

/-- A character that closes a bracket. -/
def closesBracket (c : Char) : Bool := c == ')' || c == ']' || c == '\x7d'

/-- The number of open brackets behind a character. -/
def depthBehind (depth : Nat) (c : Char) : Nat :=
  if opensBracket c then depth + 1 else if closesBracket c then depth - 1 else depth

/-- Splits arguments. `current` holds the characters of the open argument and `done` the arguments
before it, last first. -/
def splitArgumentsFrom (quoting : Quoting) (depth : Nat) (current : List Char)
    (done : List (List Char)) : List Char → List (List Char)
  | [] =>
    let last := trimChars current.reverse
    if last.isEmpty && done.isEmpty then [] else (last :: done).reverse
  | c :: cs =>
    if quoting = .outside then
      if c == ',' && depth == 0 then
        splitArgumentsFrom .outside 0 [] (trimChars current.reverse :: done) cs
      else
        splitArgumentsFrom (Quoting.outside.step c) (depthBehind depth c) (c :: current) done cs
    else splitArgumentsFrom (quoting.step c) depth (c :: current) done cs

/-- The arguments of a text, without the white space around them. A text of white space has no
arguments; else there is one more than there are commas between them. -/
def splitArguments (text : String) : List String :=
  (splitArgumentsFrom .outside 0 [] [] text.toList).map String.ofList

end Stencil.Template
