import Stencil.Program.Weave

/-! # Programs

A document with all that it includes as one text of code, which can be executed, and the records
that lead from a place in it back to the template files.
-/
namespace Stencil

/-- A failed directive and the place of the gap that it has left. -/
structure PlacedFailure where
  failure : Failure
  generated : Option Mark
  deriving DecidableEq, Repr, Inhabited

/-- The executable form of a document. -/
structure Program where
  code : String
  map : SourceMap
  /-- Where directives have put their documents; a document stands behind those in it. -/
  occurrences : List Occurrence
  failures : List PlacedFailure
  root : Document
  deriving Inhabited

/-- The program of a document. -/
def Document.program (root : Document) : Program :=
  let w := root.weave .start
  let map : SourceMap := ⟨w.mappings.reverse, w.place⟩
  { code := String.ofList w.code.reverse
    map
    occurrences := w.occurrences.reverse
    failures := w.failures.reverse.map fun f => ⟨f, (map.generatedFor f.origin).head?⟩
    root }

/-! ## Where documents stand -/

/-- The stretch of code that the first piece of the document takes; none for an empty document. -/
def Occurrence.firstRange? (o : Occurrence) : Option CodeRange :=
  o.document.chunks.head?.map fun c =>
    ⟨o.range.start, c.text.toList.foldl Mark.advance o.range.start⟩

/-- The stretches of code that the first piece of the document takes, wherever it is included. -/
def Program.firstRanges (p : Program) (o : Occurrence) : List CodeRange :=
  (p.occurrences.filter (·.document.number == o.document.number)).filterMap Occurrence.firstRange?

/-! ## Traces -/

/-- What is known of the place of an error: its origin, and the directives around it from the
inside out. -/
structure Diagnosis where
  frames : List Origin
  /-- Set if the place is only near the error. -/
  approximate : Bool
  deriving DecidableEq, Repr, Inhabited

/-- The diagnosis of an error without a place. -/
def Diagnosis.none : Diagnosis := ⟨[], false⟩

/-- The later of two occurrences by the start of their code; of two that start together the
second. -/
def laterStart (a b : Occurrence) : Occurrence :=
  if b.range.start.before a.range.start then a else b

namespace Program

/-- The innermost occurrence of a source whose code contains a place. -/
def containing? (p : Program) (source : String) (place : Mark) : Option Occurrence :=
  match p.occurrences.filter fun o => o.document.path == source && o.range.contains place with
  | [] => none
  | o :: rest => some (rest.foldl laterStart o)

/-- Climbs from a place in the code of a source through the directives around it, at most `steps`
of them. -/
def climb (p : Program) : (steps : Nat) → (source : String) → (place : Mark) → List Origin
  | 0, _, _ => []
  | steps + 1, source, place =>
    match p.containing? source place with
    | none => []
    | some o => o.directive :: p.climb steps o.directive.source o.range.start

/-- The trace of an error at a known origin and place. No directive is climbed through twice. -/
def trace (p : Program) (origin : Origin) (place : Mark) : List Origin :=
  origin :: p.climb p.occurrences.length origin.source place

/-- The diagnosis of an error at a place in the code. -/
def diagnose (p : Program) (place : Mark) : Diagnosis :=
  match p.map.origin? place with
  | none => .none
  | some found => ⟨p.trace found.origin place, found.approximate⟩

end Program

end Stencil
