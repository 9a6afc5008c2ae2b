import Stencil.Program
import Stencil.Proofs.Text.Mark

/-! # The characters of a program

What the code of a document is, character by character: which place of which file each one comes
from, where it stands in the code, and which occurrences of documents it lies in.  This is read off
the pieces of the document, and knows nothing of the records that weaving leaves behind; those are
measured against it.
-/
namespace Stencil

/-- A character of a program with what the template files say of it. -/
structure Emitted where
  char : Char
  origin : Origin
  /-- Whether the character itself stands at its origin. -/
  copied : Bool
  /-- The directives that it was inserted by, innermost first. -/
  around : List Origin
  deriving DecidableEq, Repr, Inhabited

namespace Emitted

/-- Text that comes from an origin as a whole. -/
def made (origin : Origin) (cs : List Char) : List Emitted :=
  cs.map fun c => ⟨c, origin, false, []⟩

/-- Text that stands behind an origin. -/
def copiedFrom (origin : Origin) : List Char → List Emitted
  | [] => []
  | c :: cs =>
    ⟨c, origin, true, []⟩ :: copiedFrom { origin with mark := origin.mark.advance c } cs

/-- A character that a directive inserts. -/
def within (directive : Origin) (e : Emitted) : Emitted :=
  { e with around := e.around ++ [directive] }

end Emitted

/-- A character of a program with its place in the code. -/
structure Cell where
  char : Char
  origin : Origin
  copied : Bool
  place : Mark
  /-- The occurrences that the character lies in, innermost first. -/
  stack : List Occurrence
  deriving Inhabited

namespace Cell

/-- The character of a cell, without its place. -/
def emitted (c : Cell) : Emitted := ⟨c.char, c.origin, c.copied, c.stack.map Occurrence.directive⟩

/-- A cell that lies in one more occurrence. -/
def under (o : Occurrence) (c : Cell) : Cell := { c with stack := c.stack ++ [o] }

/-- The cells of text that comes from an origin as a whole. -/
def made (origin : Origin) (place : Mark) : List Char → List Cell
  | [] => []
  | c :: cs => ⟨c, origin, false, place, []⟩ :: made origin (place.advance c) cs

/-- The cells of text that stands behind an origin. -/
def copiedFrom (origin : Origin) (place : Mark) : List Char → List Cell
  | [] => []
  | c :: cs =>
    ⟨c, origin, true, place, []⟩ ::
      copiedFrom { origin with mark := origin.mark.advance c } (place.advance c) cs

@[simp] theorem stack_under (o : Occurrence) (c : Cell) : (c.under o).stack = c.stack ++ [o] := rfl

theorem emitted_under (o : Occurrence) (c : Cell) :
    (c.under o).emitted = c.emitted.within o.directive := by
  simp [emitted, under, Emitted.within]

variable (origin : Origin) (place : Mark) (cs : List Char)

@[simp] theorem map_char_made : (made origin place cs).map char = cs := by
  induction cs generalizing place with
  | nil => rfl
  | cons c cs ih => rw [made, List.map_cons, ih]

@[simp] theorem map_char_copiedFrom : (copiedFrom origin place cs).map char = cs := by
  induction cs generalizing origin place with
  | nil => rfl
  | cons c cs ih => rw [copiedFrom, List.map_cons, ih]

theorem map_place_made : (made origin place cs).map Cell.place = place.along cs := by
  induction cs generalizing place with
  | nil => rfl
  | cons c cs ih => rw [made, List.map_cons, ih, Mark.along]

theorem map_place_copiedFrom : (copiedFrom origin place cs).map Cell.place = place.along cs := by
  induction cs generalizing origin place with
  | nil => rfl
  | cons c cs ih => rw [copiedFrom, List.map_cons, ih, Mark.along]

theorem map_emitted_made : (made origin place cs).map emitted = Emitted.made origin cs := by
  induction cs generalizing place with
  | nil => rfl
  | cons c cs ih => rw [made, List.map_cons, ih]; rfl

theorem map_emitted_copiedFrom :
    (copiedFrom origin place cs).map emitted = Emitted.copiedFrom origin cs := by
  induction cs generalizing origin place with
  | nil => rfl
  | cons c cs ih => rw [copiedFrom, List.map_cons, ih]; rfl

theorem stack_eq_nil_of_mem_made {c : Cell} (h : c ∈ made origin place cs) : c.stack = [] := by
  induction cs generalizing place with
  | nil => cases h
  | cons d cs ih =>
    rcases List.mem_cons.mp h with rfl | h
    · rfl
    · exact ih _ h

theorem stack_eq_nil_of_mem_copiedFrom {c : Cell} (h : c ∈ copiedFrom origin place cs) :
    c.stack = [] := by
  induction cs generalizing origin place with
  | nil => cases h
  | cons d cs ih =>
    rcases List.mem_cons.mp h with rfl | h
    · rfl
    · exact ih _ _ h

end Cell

/-! ## The cells of a document -/

/-- The occurrence of a document whose code begins at a place. -/
def Document.occurrenceAt (d : Document) (directive : Origin) (place : Mark) : Occurrence :=
  ⟨directive, d, ⟨place, place.after d.text.toList⟩⟩

mutual

/-- The cells of a piece that comes from `origin` and whose code begins at a place. -/
def Chunk.cells (origin : Option Origin) (place : Mark) : Chunk → List Cell
  | .code text => Cell.made (origin.getD default) place text.toList
  | .verbatim text => Cell.copiedFrom (origin.getD default) place text.toList
  | .gap _ => Cell.made (origin.getD default) place gapCode.toList
  | .fragment own chunks => cellsOfChunks (own <|> origin) place chunks
  | .inclusion directive document =>
    (document.cells place).map (Cell.under (document.occurrenceAt directive place))

/-- The cells of pieces. -/
def cellsOfChunks (origin : Option Origin) (place : Mark) : List Chunk → List Cell
  | [] => []
  | c :: cs => c.cells origin place ++ cellsOfChunks origin (place.after c.text.toList) cs

/-- The cells of a document. -/
def Document.cells (place : Mark) : Document → List Cell
  | .mk _ chunks => cellsOfChunks none place chunks

end

mutual

theorem Chunk.map_char_cells (origin : Option Origin) (place : Mark) :
    ∀ c : Chunk, (c.cells origin place).map Cell.char = c.text.toList
  | .code _ => by rw [Chunk.cells, Cell.map_char_made, Chunk.text]
  | .verbatim _ => by rw [Chunk.cells, Cell.map_char_copiedFrom, Chunk.text]
  | .gap _ => by rw [Chunk.cells, Cell.map_char_made, Chunk.text]
  | .fragment own chunks => by
    rw [Chunk.cells, map_char_cellsOfChunks, Chunk.text]
  | .inclusion _ document => by
    rw [Chunk.cells, List.map_map, Chunk.text, ← document.map_char_cells place]
    rfl

theorem map_char_cellsOfChunks (origin : Option Origin) (place : Mark) :
    ∀ cs : List Chunk,
      (cellsOfChunks origin place cs).map Cell.char = (textOfChunks cs).toList
  | [] => by simp [cellsOfChunks, textOfChunks]
  | c :: cs => by
    rw [cellsOfChunks, List.map_append, c.map_char_cells, map_char_cellsOfChunks _ _ cs,
      textOfChunks, String.toList_append]

/-- The code of a document is that of its cells. -/
theorem Document.map_char_cells (place : Mark) :
    ∀ d : Document, (d.cells place).map Cell.char = d.text.toList
  | .mk _ chunks => by rw [Document.cells, map_char_cellsOfChunks, Document.text]

end

mutual

theorem Chunk.map_place_cells (origin : Option Origin) (place : Mark) :
    ∀ c : Chunk, (c.cells origin place).map Cell.place = place.along c.text.toList
  | .code _ => by rw [Chunk.cells, Cell.map_place_made, Chunk.text]
  | .verbatim _ => by rw [Chunk.cells, Cell.map_place_copiedFrom, Chunk.text]
  | .gap _ => by rw [Chunk.cells, Cell.map_place_made, Chunk.text]
  | .fragment own chunks => by
    rw [Chunk.cells, map_place_cellsOfChunks, Chunk.text]
  | .inclusion _ document => by
    rw [Chunk.cells, List.map_map, Chunk.text, ← document.map_place_cells place]
    rfl

theorem map_place_cellsOfChunks (origin : Option Origin) (place : Mark) :
    ∀ cs : List Chunk,
      (cellsOfChunks origin place cs).map Cell.place = place.along (textOfChunks cs).toList
  | [] => by simp [cellsOfChunks, textOfChunks, Mark.along]
  | c :: cs => by
    rw [cellsOfChunks, List.map_append, c.map_place_cells, map_place_cellsOfChunks _ _ cs,
      textOfChunks, String.toList_append, Mark.along_append]

/-- The cells of a document stand one behind the other. -/
theorem Document.map_place_cells (place : Mark) :
    ∀ d : Document, (d.cells place).map Cell.place = place.along d.text.toList
  | .mk _ chunks => by rw [Document.cells, map_place_cellsOfChunks, Document.text]

end

end Stencil
