/-! # Escaping

Three ways to write a text so that it can stand inside another: in a double-quoted script literal
that a template's own text becomes, in markup, and inside a string literal of a script.
-/
namespace Stencil

/-- One character of template text inside a script literal. Line breaks are escaped as well, so
that a literal stays on one line. -/
def literalChar : Char → List Char
  | '\\' => ['\\', '\\']
  | '"' => ['\\', '"']
  | '\'' => ['\\', '\'']
  | '\x60' => ['\\', '\x60']
  | '\u2028' => ['\\', 'u', '2', '0', '2', '8']
  | '\u2029' => ['\\', 'u', '2', '0', '2', '9']
  | '\r' => ['\\', 'r']
  | '\n' => ['\\', 'n']
  | c => [c]

/-- Template text as the inside of a script literal. -/
def literalText (s : String) : String :=
  String.ofList (s.toList.flatMap literalChar)

/-- One character of text in markup. -/
def markupChar : Char → List Char
  | '<' => ['&', 'l', 't', ';']
  | '>' => ['&', 'g', 't', ';']
  | '"' => ['&', 'q', 'u', 'o', 't', ';']
  | '&' => ['&', 'a', 'm', 'p', ';']
  | c => [c]

/-- Text as it is written in markup. -/
def escapeMarkup (s : String) : String :=
  String.ofList (s.toList.flatMap markupChar)

/-- One character of a script's string literal. -/
def scriptChar : Char → List Char
  | '\\' => ['\\', '\\']
  | '"' => ['\\', '"']
  | '\'' => ['\\', '\'']
  | '\n' => ['\\', 'n']
  | '\r' => ['\\', 'r']
  | '\t' => ['\\', 't']
  | '\x0b' => ['\\', 'v']
  | '\x08' => ['\\', 'b']
  | '\x0c' => ['\\', 'f']
  | c => [c]

/-- Text as it is written between the quotes of a script's string literal. -/
def escapeScript (s : String) : String :=
  String.ofList (s.toList.flatMap scriptChar)

end Stencil
