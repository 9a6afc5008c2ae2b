import Stencil.Document

/-! # Source maps

Where the code of a program comes from. A mapping says this for the character at one place of the
code, and holds until the next mapping; along a line that was copied the column is counted on.
-/
namespace Stencil

/-- A stretch of code, from a place up to but without another one. -/
structure CodeRange where
  start : Mark
  stop : Mark
  deriving DecidableEq, Repr, Inhabited

/-- Whether a place lies in a stretch of code. -/
def CodeRange.contains (r : CodeRange) (place : Mark) : Bool :=
  r.start.upTo place && place.before r.stop

/-- The origin of one place in the code. -/
structure Mapping where
  generated : Mark
  origin : Origin
  /-- Whether the code is copied, so that its columns are those of the file. -/
  verbatim : Bool
  deriving DecidableEq, Repr, Inhabited

/-- The mappings of a program in the order of its code, and the place behind its end. -/
structure SourceMap where
  mappings : List Mapping
  stop : Mark
  deriving DecidableEq, Repr, Inhabited

/-- The origin that was found for a place. -/
structure Lookup where
  origin : Origin
  /-- Set if the place lies outside of the code, so that the nearest mapping was taken. -/
  approximate : Bool
  deriving DecidableEq, Repr, Inhabited

/-- The origin of a place on the line of a mapping, counted on from the mapping. -/
def Mapping.countOn (m : Mapping) (place : Mark) : Origin :=
  { m.origin with
    mark.column := m.origin.mark.column + (place.column - m.generated.column) }

namespace SourceMap

/-- The last mapping at or before a place. -/
def mappingAt? (s : SourceMap) (place : Mark) : Option Mapping :=
  (s.mappings.takeWhile fun m => m.generated.upTo place).getLast?

/-- The origin of a place in the code. -/
def origin? (s : SourceMap) (place : Mark) : Option Lookup :=
  match s.mappingAt? place with
  | some m =>
    if s.stop.upTo place then some ⟨m.origin, true⟩
    else if m.verbatim && m.generated.line == place.line then some ⟨m.countOn place, false⟩
    else some ⟨m.origin, false⟩
  | none => s.mappings.head?.map fun m => ⟨m.origin, true⟩

/-- The places in the code that are mapped to an origin. -/
def generatedFor (s : SourceMap) (origin : Origin) : List Mark :=
  (s.mappings.filter (·.origin = origin)).map Mapping.generated

/-- The source files, in the order in which they are first mapped. -/
def sources (s : SourceMap) : List String :=
  (s.mappings.map (·.origin.source)).foldl
    (fun seen x => if x ∈ seen then seen else seen ++ [x]) []

end SourceMap

end Stencil
