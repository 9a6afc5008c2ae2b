import Stencil.Template.Quoting
import Stencil.Template.Span

/-! # Trees of templates

Groups spans into texts, inline regions, blocks and include directives, in one pass from left to
right. A region without an end goes on to the end of the last span, and is reported.
-/
namespace Stencil.Template

/-- Where a node begins and ends. -/
structure Location where
  start : Position
  stop : Position
  deriving DecidableEq, Repr, Inhabited

/-- An include directive with the texts of its arguments. -/
structure Inclusion where
  location : Location
  arguments : List String
  deriving DecidableEq, Repr, Inhabited

/-- A part of a block. -/
inductive BlockPart
  | script (span : Span)
  | inclusion (inclusion : Inclusion)
  deriving DecidableEq, Repr, Inhabited

/-- A node of a template. -/
inductive Node
  | text (location : Location) (value : String)
  | inlineWrite (location : Location) (children : List Span)
  | block (location : Location) (children : List BlockPart)
  | inclusion (inclusion : Inclusion)
  deriving DecidableEq, Repr, Inhabited

/-- Where a node begins and ends. -/
def Node.location : Node → Location
  | .text l _ | .inlineWrite l _ | .block l _ => l
  | .inclusion i => i.location

/-- The kinds of regions. -/
inductive RegionKind
  | block
  | inlineWrite
  | inclusion
  deriving DecidableEq, Repr, Inhabited

/-- The name of a kind of regions. -/
def RegionKind.name : RegionKind → String
  | .block => "Block"
  | .inlineWrite => "InlineWrite"
  | .inclusion => "Include"

/-- A region without an end. -/
structure Malformed where
  kind : RegionKind
  start : Position
  deriving DecidableEq, Repr, Inhabited

/-- The report of a region without an end. -/
def Malformed.message (m : Malformed) : String :=
  let what := match m.kind with
    | .block => "block"
    | .inlineWrite => "inline-write"
    | .inclusion => "include"
  "unterminated " ++ what ++ " region opened at " ++ (m.start.line + 1).repr ++ ":" ++
    (m.start.column + 1).repr

/-- A region whose end is still to come, with its parts so far, last first. -/
inductive OpenRegion
  | block (start : Position) (parts : List BlockPart)
  | inlineWrite (start : Position) (children : List Span)
  deriving Repr, Inhabited

/-- An include directive whose end is still to come. -/
structure OpenInclusion where
  start : Position
  text : String
  deriving Repr, Inhabited

/-- The state of building a tree; lists hold the last item first. -/
structure Builder where
  nodes : List Node
  malformed : List Malformed
  region : Option OpenRegion
  inclusion : Option OpenInclusion
  deriving Repr, Inhabited

namespace Builder

/-- A builder before the first span. -/
def start : Builder := ⟨[], [], none, none⟩

/-- Reports a region without an end. -/
def report (b : Builder) (kind : RegionKind) (start : Position) : Builder :=
  { b with malformed := ⟨kind, start⟩ :: b.malformed }

/-- Adds a node. -/
def addNode (b : Builder) (node : Node) : Builder := { b with nodes := node :: b.nodes }

/-- Adds an include directive that ends at a position to the block around it, or to the nodes. -/
def endInclusion (b : Builder) (i : OpenInclusion) (stop : Position) : Builder :=
  let done : Inclusion := ⟨⟨i.start, stop⟩, splitArguments i.text⟩
  let b := { b with inclusion := none }
  match b.region with
  | some (.block start parts) =>
    { b with region := some (.block start (.inclusion done :: parts)) }
  | _ => b.addNode (.inclusion done)

/-- Adds the open region, which ends at a position. -/
def endRegion (b : Builder) (region : OpenRegion) (stop : Position) : Builder :=
  let b := { b with region := none }
  match region with
  | .block start parts => b.addNode (.block ⟨start, stop⟩ parts.reverse)
  | .inlineWrite start children => b.addNode (.inlineWrite ⟨start, stop⟩ children.reverse)

/-- Passes a span outside of all regions. Closers without a region count for nothing. -/
def stepOutside (b : Builder) (s : Span) : Builder :=
  match s.scope with
  | .blockOpen => { b with region := some (.block s.start []) }
  | .inlineOpen => { b with region := some (.inlineWrite s.start []) }
  | .includeBegin => { b with inclusion := some ⟨s.start, ""⟩ }
  | scope => if scope.isContent then b.addNode (.text ⟨s.start, s.stop⟩ s.value) else b

/-- Passes a span inside a block. -/
def stepBlock (b : Builder) (start : Position) (parts : List BlockPart) (s : Span) : Builder :=
  match s.scope with
  | .blockClose => b.endRegion (.block start parts) s.stop
  | .includeBegin => { b with inclusion := some ⟨s.start, ""⟩ }
  | scope =>
    if scope.isContent then { b with region := some (.block start (.script s :: parts)) } else b

/-- Passes a span inside an inline region. -/
def stepInline (b : Builder) (start : Position) (children : List Span) (s : Span) : Builder :=
  match s.scope with
  | .inlineClose => b.endRegion (.inlineWrite start children) s.stop
  | scope =>
    if scope.isContent then { b with region := some (.inlineWrite start (s :: children)) } else b

/-- Passes a span that is no part of an include directive. -/
def stepRegion (b : Builder) (s : Span) : Builder :=
  match b.region with
  | none => b.stepOutside s
  | some (.block start parts) => b.stepBlock start parts s
  | some (.inlineWrite start children) => b.stepInline start children s

/-- Passes a span. The closer of a block also ends a directive inside of it. -/
def step (b : Builder) (s : Span) : Builder :=
  match b.inclusion with
  | none => b.stepRegion s
  | some i =>
    match s.scope with
    | .includeEnd => b.endInclusion i s.stop
    | .blockClose => ((b.report .inclusion i.start).endInclusion i s.start).stepRegion s
    | scope =>
      if scope.isContent then { b with inclusion := some { i with text := i.text ++ s.value } }
      else b

/-- Ends what is still open at the end of the last span. -/
def finish (b : Builder) (stop : Position) : Builder :=
  let b := match b.inclusion with
    | some i => (b.report .inclusion i.start).endInclusion i stop
    | none => b
  match b.region with
  | some (.block start parts) => (b.report .block start).endRegion (.block start parts) stop
  | some (.inlineWrite start children) =>
    (b.report .inlineWrite start).endRegion (.inlineWrite start children) stop
  | none => b

end Builder

/-- A template: its nodes, and its regions without an end in the order in which that was found. -/
structure Tree where
  nodes : List Node
  malformed : List Malformed
  deriving DecidableEq, Repr, Inhabited

/-- The tree of spans. -/
def Tree.ofSpans (spans : List Span) : Tree :=
  let stop := (spans.getLast?.map Span.stop).getD .origin
  let b := (spans.foldl Builder.step .start).finish stop
  ⟨b.nodes.reverse, b.malformed.reverse⟩

end Stencil.Template
