import Stencil.Program.SourceMap

/-! # Weaving

Writes the code of a document, and of all that it includes, as one program, and records where each
place of it comes from and where each include directive has put its document.
-/
namespace Stencil

/-- The place in a program where a directive has put its document. -/
structure Occurrence where
  directive : Origin
  document : Document
  range : CodeRange
  deriving Inhabited

/-- A program under construction; lists hold the last item first. -/
structure Weaver where
  code : List Char
  /-- The place behind the code so far. -/
  place : Mark
  mappings : List Mapping
  occurrences : List Occurrence
  failures : List Failure
  /-- The numbers of the documents whose failures are recorded. -/
  seen : List Nat
  deriving Inhabited

namespace Weaver

/-- A program without code. -/
def start : Weaver := ⟨[], .origin, [], [], [], []⟩

/-- Maps the next character. What was mapped at the same place before gives way. -/
def map (w : Weaver) (origin : Origin) (verbatim : Bool) : Weaver :=
  let mapping : Mapping := ⟨w.place, origin, verbatim⟩
  match w.mappings with
  | last :: rest =>
    if last.generated = w.place then { w with mappings := mapping :: rest }
    else { w with mappings := mapping :: last :: rest }
  | [] => { w with mappings := [mapping] }

/-- Maps the next character as a whole to an origin, if there is one. -/
def mapTo (w : Weaver) : Option Origin → Weaver
  | some origin => w.map origin false
  | none => w

/-- Writes a character. -/
def put (w : Weaver) (c : Char) : Weaver :=
  { w with code := c :: w.code, place := w.place.advance c }

/-- Writes code that comes from an origin as a whole. Every line of it is mapped anew. -/
def putCode (origin : Option Origin) (w : Weaver) : List Char → Weaver
  | [] => w
  | c :: cs =>
    let w := w.put c
    putCode origin (if c = '\n' then w.mapTo origin else w) cs

/-- Writes copied text whose next line begins at column one of the line behind `origin`. -/
def putCopied (origin : Origin) (w : Weaver) : List Char → Weaver
  | [] => w
  | c :: cs =>
    let w := w.put c
    if c = '\n' then
      let next : Origin := { origin with mark := ⟨origin.mark.line + 1, 1⟩ }
      putCopied next (w.map next true) cs
    else putCopied origin w cs

/-- Writes copied text. Every line of it is mapped to its own beginning. -/
def putVerbatim (origin : Option Origin) (w : Weaver) (cs : List Char) : Weaver :=
  match origin with
  | some o => putCopied o (w.map o true) cs
  | none => putCode none w cs

/-- Records the failures of a document that is met for the first time. -/
def meet (w : Weaver) (d : Document) : Weaver :=
  if d.number ∈ w.seen then w
  else { w with seen := d.number :: w.seen, failures := d.failures.reverse ++ w.failures }

/-- Records a directive whose document fills the code from `start` on. -/
def occur (w : Weaver) (directive : Origin) (document : Document) (start : Mark) : Weaver :=
  { w with occurrences := ⟨directive, document, ⟨start, w.place⟩⟩ :: w.occurrences }

end Weaver

mutual

/-- Writes a piece that comes from `origin`. Behind a fragment and behind a document the code comes
from `origin` again. -/
def Chunk.weave (origin : Option Origin) (w : Weaver) : Chunk → Weaver
  | .code text => w.putCode origin text.toList
  | .verbatim text => w.putVerbatim origin text.toList
  | .gap _ => w.putCode origin gapCode.toList
  | .fragment own chunks => (weaveChunks (own <|> origin) (w.mapTo own) chunks).mapTo origin
  | .inclusion directive document =>
    ((document.weave w).occur directive document w.place).mapTo origin

/-- Writes pieces that come from `origin`. -/
def weaveChunks (origin : Option Origin) (w : Weaver) : List Chunk → Weaver
  | [] => w
  | c :: cs => weaveChunks origin (c.weave origin w) cs

/-- Writes a document. -/
def Document.weave (w : Weaver) : Document → Weaver
  | .mk stamp chunks => weaveChunks none (w.meet (.mk stamp chunks)) chunks

end

end Stencil
