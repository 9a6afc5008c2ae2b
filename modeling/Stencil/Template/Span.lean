import Stencil.Text.Position

/-! # Spans of templates

What the parts of a template's text are, and the stretches of text that have one meaning.
-/
namespace Stencil.Template

/-- The meaning of a stretch of text. -/
inductive Scope
  /-- Text that is written as it stands. -/
  | text
  /-- Statements inside a block. -/
  | block
  /-- The expression of an inline region. -/
  | inlineWrite
  | blockOpen
  | blockClose
  | inlineOpen
  | inlineClose
  | includeBegin
  | includeEnd
  /-- Text that counts for nothing. -/
  | delimiter
  deriving DecidableEq, Repr, Inhabited

namespace Scope

/-- Whether the text of the scope is kept. -/
def isContent : Scope → Bool
  | text | block | inlineWrite => true
  | _ => false

/-- The name of a scope. -/
def name : Scope → String
  | text => "text"
  | block => "block"
  | inlineWrite => "inlineWrite"
  | blockOpen => "blockOpen"
  | blockClose => "blockClose"
  | inlineOpen => "inlineOpen"
  | inlineClose => "inlineClose"
  | includeBegin => "includeBegin"
  | includeEnd => "includeEnd"
  | delimiter => "delimiter"

/-- All scopes. -/
def all : List Scope := [
  text, block, inlineWrite, blockOpen, blockClose, inlineOpen, inlineClose, includeBegin,
  includeEnd, delimiter]

/-- The scope of a name; an unknown name is taken for text. -/
def ofName (name : String) : Scope := (all.find? (·.name == name)).getD text

end Scope

/-- A stretch of text of one scope. Only content keeps its text. -/
structure Span where
  value : String
  scope : Scope
  start : Position
  stop : Position
  deriving DecidableEq, Repr, Inhabited

/-- A range of bytes of a text with its scope. -/
structure Classified where
  start : Nat
  stop : Nat
  scope : Scope
  deriving DecidableEq, Repr, Inhabited

/-- Gives the ranges of a text with their scopes. -/
abbrev Classifier := List Char → List Classified

end Stencil.Template
