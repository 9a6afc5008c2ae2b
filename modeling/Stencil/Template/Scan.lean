import Stencil.Text.Slice
import Stencil.Template.Span

/-! # Scanning

Turns the classified ranges of a text into spans. Text that no range covers is text; ranges of the
same scope that touch become one span, unless a range that counts for nothing lies between them.
-/
namespace Stencil.Template

/-- The state of scanning a text. -/
structure Scanner where
  /-- The spans so far, last first. -/
  spans : List Span
  /-- The byte behind the last span, while it may still grow. -/
  openEnd : Option Nat
  /-- The byte up to which the text is scanned. -/
  cursor : Nat
  deriving Repr, Inhabited

namespace Scanner

/-- A scanner at the beginning of a text. -/
def start : Scanner := ⟨[], none, 0⟩

variable (text : List Char) (index : LineIndex)

/-- A span of the bytes from `start` to `stop`. -/
def spanOf (value : String) (scope : Scope) (start stop : Nat) : Span :=
  ⟨value, scope, index.position start, index.position stop⟩

/-- Adds content, which the last span takes in if it can. Bytes that are no text add nothing. -/
def addContent (scope : Scope) (start stop : Nat) (s : Scanner) : Scanner :=
  match slice? text start stop with
  | none => s
  | some cs =>
    let value := String.ofList cs
    let grown := match s.spans with
      | last :: rest =>
        if s.openEnd = some start && last.scope = scope then
          { last with value := last.value ++ value, stop := index.position stop } :: rest
        else spanOf index value scope start stop :: s.spans
      | [] => [spanOf index value scope start stop]
    { s with spans := grown, openEnd := some stop }

/-- Adds a boundary, which keeps nothing but its place. -/
def addBoundary (scope : Scope) (start stop : Nat) (s : Scanner) : Scanner :=
  { s with spans := spanOf index "" scope start stop :: s.spans, openEnd := none }

/-- Adds what a range between two bytes stands for. -/
def addRange (scope : Scope) (start stop : Nat) (s : Scanner) : Scanner :=
  if scope = .delimiter then { s with openEnd := none }
  else if scope.isContent then
    if start < stop then s.addContent text index scope start stop else s
  else s.addBoundary index scope start stop

/-- Passes a classified range. The part of it that is already scanned does not count, and a range
that ends before the rest begins is left out. -/
def step (s : Scanner) (c : Classified) : Scanner :=
  let start := min (max c.start s.cursor) index.size
  let stop := min c.stop index.size
  if stop < start then s
  else
    let s := if s.cursor < start then s.addContent text index .text s.cursor start else s
    { s.addRange text index c.scope start stop with cursor := max stop s.cursor }

/-- The spans of the whole text. -/
def finish (s : Scanner) : List Span :=
  let s := if s.cursor < index.size then s.addContent text index .text s.cursor index.size else s
  s.spans.reverse

end Scanner

/-- The spans of a text whose classified ranges are given. -/
def scanRanges (text : List Char) (ranges : List Classified) : List Span :=
  let index := LineIndex.ofString (String.ofList text)
  (ranges.foldl (Scanner.step text index) .start).finish text index

/-- The spans of a text. -/
def scan (classifier : Classifier) (text : String) : List Span :=
  scanRanges text.toList (classifier text.toList)

end Stencil.Template
