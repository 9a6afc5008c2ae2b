/-! # Positions in a text

A position counts the line breaks before a place and the characters between the last of them and
the place; a line index finds the position of a byte offset without reading the text again. Only
the line feed breaks lines, and a column counts characters, whatever their length in bytes.
-/
namespace Stencil

/-- A place in a text, both numbers counted from zero. -/
structure Position where
  line : Nat
  column : Nat
  deriving DecidableEq, Repr, Inhabited

namespace Position

/-- The beginning of every text. -/
def origin : Position := ⟨0, 0⟩

/-- The position behind one more character. -/
def advance (p : Position) (c : Char) : Position :=
  if c = '\n' then ⟨p.line + 1, 0⟩ else ⟨p.line, p.column + 1⟩

/-- The position behind more text. -/
def after (p : Position) (cs : List Char) : Position :=
  cs.foldl advance p

@[simp] theorem after_nil (p : Position) : p.after [] = p := rfl

@[simp] theorem after_cons (p : Position) (c : Char) (cs : List Char) :
    p.after (c :: cs) = (p.advance c).after cs := rfl

theorem after_append (p : Position) (cs ds : List Char) :
    p.after (cs ++ ds) = (p.after cs).after ds :=
  List.foldl_append

end Position

/-- A place in a text as people count it, both numbers from one. -/
structure Mark where
  line : Nat
  column : Nat
  deriving DecidableEq, Repr, Inhabited

/-- The mark of a position. -/
def Position.mark (p : Position) : Mark := ⟨p.line + 1, p.column + 1⟩

namespace Mark

/-- The beginning of every text. -/
def origin : Mark := ⟨1, 1⟩

/-- The mark behind one more character. -/
def advance (m : Mark) (c : Char) : Mark :=
  if c = '\n' then ⟨m.line + 1, 1⟩ else ⟨m.line, m.column + 1⟩

/-- Marks are ordered by line and then by column. -/
def before (a b : Mark) : Bool :=
  a.line < b.line || (a.line == b.line && a.column < b.column)

/-- Whether `a` is `b` or stands before it. -/
def upTo (a b : Mark) : Bool := !b.before a

end Mark

/-! ## Line index -/

/-- One line of a text with the byte offset of its first character. The line break belongs to
the line that it ends. -/
structure Line where
  start : Nat
  chars : List Char
  deriving DecidableEq, Repr, Inhabited

/-- The lines of a text whose first byte has the offset `start`. `current` holds the characters
of the open line so far, last first. -/
def linesFrom (start : Nat) (current : List Char) (next : Nat) : List Char → List Line
  | [] => [⟨start, current.reverse⟩]
  | c :: cs =>
    if c = '\n' then
      ⟨start, (c :: current).reverse⟩ :: linesFrom (next + c.utf8Size) [] (next + c.utf8Size) cs
    else
      linesFrom start (c :: current) (next + c.utf8Size) cs

/-- The number of characters that take exactly `n` bytes at the start of a text; none when the
`n`-th byte lies inside a character or behind the text. -/
def charsInBytes? : List Char → Nat → Option Nat
  | _, 0 => some 0
  | [], _ + 1 => none
  | c :: cs, n + 1 =>
    if c.utf8Size ≤ n + 1 then (charsInBytes? cs (n + 1 - c.utf8Size)).map (· + 1) else none

/-- Lookup of positions by byte offset in one text. -/
structure LineIndex where
  /-- Length of the text in bytes. -/
  size : Nat
  lines : Array Line
  deriving Repr, Inhabited

namespace LineIndex

/-- The index of a text. -/
def ofString (text : String) : LineIndex :=
  ⟨text.utf8ByteSize, (linesFrom 0 [] 0 text.toList).toArray⟩

/-- The number of lines among the first `hi` that start at or before `offset`, when this is known
of the first `lo`. -/
def countStarts (lines : Array Line) (offset lo hi : Nat) : Nat :=
  if lo < hi then
    let mid := (lo + hi) / 2
    if (lines[mid]?.elim (offset + 1) Line.start) ≤ offset then
      countStarts lines offset (mid + 1) hi
    else
      countStarts lines offset lo mid
  else lo
termination_by hi - lo

/-- The position of a byte offset. An offset behind the end is taken for the end; inside a
character the column counts bytes. -/
def position (index : LineIndex) (offset : Nat) : Position :=
  let offset := min offset index.size
  let line := countStarts index.lines offset 0 index.lines.size - 1
  match index.lines[line]? with
  | some l => ⟨line, (charsInBytes? l.chars (offset - l.start)).getD (offset - l.start)⟩
  | none => .origin

end LineIndex

end Stencil
