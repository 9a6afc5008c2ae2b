import Stencil.Document.OfTree
import Stencil.Proofs.Template.Placement

/-! # Outlines

What a template is compiled to depends on the texts of its pieces alone, and not on the places where
they stand.  An outline is that code, with one symbol in the place of each directive.  It can be
read off the tree, but just as well be drawn up piece by piece, without spans and nodes: only a text
outside of all regions has to be complete before the statement is known that writes it.
-/
namespace Stencil.Template

/-- A character of code, or a directive. -/
inductive Symbol
  | char (c : Char)
  | directive (arguments : List String)
  deriving DecidableEq, Repr

/-- The symbols of some code. -/
def symbols (cs : List Char) : List Symbol := cs.map .char

@[simp] theorem symbols_nil : symbols [] = [] := rfl

@[simp] theorem symbols_append (cs ds : List Char) :
    symbols (cs ++ ds) = symbols cs ++ symbols ds := List.map_append

/-! ## Outlines of trees -/

/-- The outline of a part of a block. -/
def BlockPart.outline : BlockPart → List Symbol
  | .script span => symbols span.value.toList
  | .inclusion i => [.directive i.arguments]

/-- The symbols of copied spans. -/
def spanSymbols (children : List Span) : List Symbol :=
  children.flatMap fun s => symbols s.value.toList

/-- The outline of a node. -/
def Node.outline : Node → List Symbol
  | .text _ value => symbols (writeStatement value).toList
  | .inlineWrite _ children =>
    symbols ";write(".toList ++ spanSymbols children ++ symbols ");".toList
  | .block _ parts => parts.flatMap BlockPart.outline ++ symbols "\n".toList
  | .inclusion i => [.directive i.arguments]

/-- The outline of a tree. -/
def Tree.outline (tree : Tree) : List Symbol := tree.nodes.flatMap Node.outline

/-! ## Drafts -/

/-- The outline of the pieces so far. -/
structure Draft where
  done : List Symbol
  /-- The text outside of all regions that may still grow, with its scope. -/
  text : Option (Scope × List Char)
  region : Option RegionKind
  /-- The text of the arguments of the open directive. -/
  inclusion : Option (List Char)

namespace Draft

/-- A draft before the first piece. -/
def start : Draft := ⟨[], none, none, none⟩

variable (d : Draft)

/-- Adds symbols. -/
def add (new : List Symbol) : Draft := { d with done := d.done ++ new }

/-- Writes the text that is complete now. -/
def flush : Draft :=
  match d.text with
  | none => d
  | some (_, cs) =>
    { d with done := d.done ++ symbols (writeStatement (.ofList cs)).toList, text := none }

/-- Passes content. -/
def content (scope : Scope) (cs : List Char) : Draft :=
  match d.inclusion, d.region with
  | some i, _ => { d with inclusion := some (i ++ cs) }
  | none, some _ => d.add (symbols cs)
  | none, none =>
    match d.text with
    | none => { d with text := some (scope, cs) }
    | some (old, text) =>
      if old = scope then { d with text := some (scope, text ++ cs) }
      else { d.flush with text := some (scope, cs) }

/-- Ends the open directive, with arguments of the text `i`. -/
def endInclusion (i : List Char) : Draft :=
  { d with done := d.done ++ [.directive (splitArguments (.ofList i))], inclusion := none }

/-- Passes a boundary that is no part of a directive. -/
def stepRegion (scope : Scope) : Draft :=
  match d.region, scope with
  | none, .blockOpen => { d with region := some .block }
  | none, .inlineOpen => { d.add (symbols ";write(".toList) with region := some .inlineWrite }
  | none, .includeBegin => { d with inclusion := some [] }
  | some .block, .blockClose => { d.add (symbols "\n".toList) with region := none }
  | some .block, .includeBegin => { d with inclusion := some [] }
  | some .inlineWrite, .inlineClose => { d.add (symbols ");".toList) with region := none }
  | _, _ => d

/-- Passes a boundary. -/
def boundary (scope : Scope) : Draft :=
  match d.inclusion with
  | none => d.stepRegion scope
  | some i =>
    match scope with
    | .includeEnd => d.endInclusion i
    | .blockClose => (d.endInclusion i).stepRegion scope
    | _ => d

/-- Passes a piece. -/
def step (p : Piece) : Draft :=
  if p.scope = .delimiter then d.flush
  else if p.scope.isContent then if p.text = [] then d else d.content p.scope p.text
  else d.flush.boundary p.scope

/-- Passes some pieces. -/
def run (ps : List Piece) : Draft := ps.foldl step d

/-- Ends the open directive. -/
def close : Draft :=
  match d.inclusion with
  | none => d
  | some i => d.endInclusion i

/-- The outline, if there are no more pieces. -/
def outline : List Symbol :=
  d.flush.close.done ++
    match d.region with
    | some .block => symbols "\n".toList
    | some .inlineWrite => symbols ");".toList
    | _ => []

variable {d} {scope other : Scope} {cs ds : List Char}

@[simp] theorem text_flush : d.flush.text = none := by
  unfold flush
  split
  · assumption
  · rfl

theorem flush_of_text (h : d.text = none) : d.flush = d := by
  unfold flush
  rw [h]

@[simp] theorem region_flush : d.flush.region = d.region := by
  unfold flush
  split <;> rfl

theorem outline_flush : d.flush.outline = d.outline := by
  rw [outline, flush_of_text text_flush, region_flush]
  rfl

/-- Content may be passed in parts. -/
theorem content_append : (d.content scope cs).content scope ds = d.content scope (cs ++ ds) := by
  obtain ⟨done, text, region, inclusion⟩ := d
  cases inclusion with
  | some i => simp [content]
  | none =>
    cases region with
    | some kind => simp [content, add]
    | none =>
      cases text with
      | none => simp [content]
      | some t =>
        obtain ⟨old, text⟩ := t
        by_cases hold : old = scope
        · simp [content, hold]
        · simp [content, hold, flush]

/-- Content of another scope begins a text of its own. -/
theorem content_flush (h : d.text = none) (hne : other ≠ scope) :
    (d.content other cs).flush.content scope ds = (d.content other cs).content scope ds := by
  obtain ⟨done, text, region, inclusion⟩ := d
  obtain rfl : text = none := h
  cases inclusion with
  | some i => rfl
  | none =>
    cases region with
    | some kind => rfl
    | none => simp [content, flush, hne]

end Draft

/-! ## Drafts of builders -/

/-- The kind of an open region. -/
def OpenRegion.kind : OpenRegion → RegionKind
  | .block _ _ => .block
  | .inlineWrite _ _ => .inlineWrite

/-- The outline of an open region so far. -/
def OpenRegion.outline : OpenRegion → List Symbol
  | .block _ parts => parts.reverse.flatMap BlockPart.outline
  | .inlineWrite _ children => symbols ";write(".toList ++ spanSymbols children.reverse

namespace Builder

/-- The draft of what a builder holds. -/
def draft (b : Builder) : Draft where
  done := b.nodes.reverse.flatMap Node.outline ++ (b.region.map OpenRegion.outline).getD []
  text := none
  region := b.region.map OpenRegion.kind
  inclusion := b.inclusion.map fun i => i.text.toList

/-- No directive is open in an inline region. -/
def Regular (b : Builder) : Prop :=
  b.inclusion ≠ none → b.region.map OpenRegion.kind ≠ some .inlineWrite

variable {b : Builder} {s : Span}

theorem regular_start : Regular .start := fun h => absurd rfl h

/-- What a builder makes of content is known at once. -/
theorem draft_step_content (hs : s.scope.isContent = true) :
    (b.step s).draft = (b.draft.content s.scope s.value.toList).flush := by
  obtain ⟨nodes, malformed, region, inclusion⟩ := b
  obtain ⟨value, scope, start, stop⟩ := s
  cases inclusion with
  | some i => cases scope <;> simp_all [step, draft, Draft.content, Draft.flush, Scope.isContent]
  | none =>
    cases region with
    | none =>
      cases scope <;> simp_all [step, stepRegion, stepOutside, addNode, draft, Draft.content,
        Draft.flush, Scope.isContent, Node.outline]
    | some r =>
      cases r with
      | block start parts =>
        cases scope <;> simp_all [step, stepRegion, stepBlock, draft, Draft.content, Draft.add,
          Draft.flush, Scope.isContent, OpenRegion.outline, OpenRegion.kind, BlockPart.outline]
      | inlineWrite start children =>
        cases scope <;> simp_all [step, stepRegion, stepInline, draft, Draft.content, Draft.add,
          Draft.flush, Scope.isContent, OpenRegion.outline, OpenRegion.kind, spanSymbols]

/-- A directive that ends stands where it has been opened. -/
theorem draft_endInclusion (hregular : b.Regular) {i : OpenInclusion} (hi : b.inclusion = some i)
    (stop : Position) : (b.endInclusion i stop).draft = b.draft.endInclusion i.text.toList := by
  obtain ⟨nodes, malformed, region, inclusion⟩ := b
  obtain rfl : inclusion = some i := hi
  match region, hregular (by simp) with
  | none, _ =>
    simp [endInclusion, addNode, draft, Draft.endInclusion, Node.outline]
  | some (.block start parts), _ =>
    simp [endInclusion, draft, Draft.endInclusion, OpenRegion.outline, OpenRegion.kind,
      BlockPart.outline]
  | some (.inlineWrite start children), hinline => exact absurd rfl hinline

theorem draft_stepRegion (hi : b.inclusion = none) (hs : s.scope.isContent = false) :
    (b.stepRegion s).draft = b.draft.stepRegion s.scope := by
  obtain ⟨nodes, malformed, region, inclusion⟩ := b
  obtain rfl : inclusion = none := hi
  obtain ⟨value, scope, start, stop⟩ := s
  match region with
  | none =>
    cases scope <;> simp_all [stepRegion, stepOutside, draft, Draft.stepRegion, Draft.add,
      Scope.isContent, OpenRegion.outline, OpenRegion.kind, spanSymbols]
  | some (.block start parts) =>
    cases scope <;> simp_all [stepRegion, stepBlock, endRegion, addNode, draft, Draft.stepRegion,
      Draft.add, Scope.isContent, OpenRegion.outline, OpenRegion.kind, Node.outline]
  | some (.inlineWrite start children) =>
    cases scope <;> simp_all [stepRegion, stepInline, endRegion, addNode, draft, Draft.stepRegion,
      Draft.add, Scope.isContent, OpenRegion.outline, OpenRegion.kind, Node.outline]

/-- What a builder makes of a boundary. -/
theorem draft_step_boundary (hregular : b.Regular) (hs : s.scope.isContent = false) :
    (b.step s).draft = b.draft.boundary s.scope := by
  unfold step Draft.boundary
  cases hi : b.inclusion with
  | none =>
    have hdraft : b.draft.inclusion = none := by simp [draft, hi]
    rw [hdraft]
    exact draft_stepRegion hi hs
  | some i =>
    have hdraft : b.draft.inclusion = some i.text.toList := by simp [draft, hi]
    have hended : ∀ stop, ((b.report .inclusion i.start).endInclusion i stop).draft =
        b.draft.endInclusion i.text.toList := fun stop =>
      draft_endInclusion (b := b.report .inclusion i.start) hregular hi stop
    rw [hdraft]
    cases hscope : s.scope with
    | includeEnd => exact draft_endInclusion hregular hi s.stop
    | blockClose =>
      have hnone : ∀ (b : Builder) stop, (b.endInclusion i stop).inclusion = none := by
        intro b stop
        unfold endInclusion
        simp only
        split <;> rfl
      simp only
      rw [draft_stepRegion (hnone _ _) hs, hended, hscope]
    | _ => simp_all [Scope.isContent]

theorem inclusion_endInclusion (b : Builder) (i : OpenInclusion) (stop : Position) :
    (b.endInclusion i stop).inclusion = none := by
  unfold endInclusion
  simp only
  split <;> rfl

/-- Only outside of inline regions a directive is opened. -/
theorem regular_stepRegion (hi : b.inclusion = none) : (b.stepRegion s).Regular := by
  obtain ⟨nodes, malformed, region, inclusion⟩ := b
  obtain rfl : inclusion = none := hi
  obtain ⟨value, scope, start, stop⟩ := s
  unfold Regular
  match region with
  | none => cases scope <;> simp [stepRegion, stepOutside, addNode, Scope.isContent]
  | some (.block start parts) =>
    cases scope <;> simp [stepRegion, stepBlock, endRegion, addNode, Scope.isContent,
      OpenRegion.kind]
  | some (.inlineWrite start children) =>
    cases scope <;> simp [stepRegion, stepInline, endRegion, addNode, Scope.isContent]

theorem Regular.step (hb : b.Regular) : (b.step s).Regular := by
  unfold Builder.step
  split
  · rename_i hi
    exact regular_stepRegion hi
  · split
    · exact fun hopen => absurd (inclusion_endInclusion _ _ _) hopen
    · exact regular_stepRegion (inclusion_endInclusion _ _ _)
    · rename_i i hi _ _ _
      split
      · exact fun _ => hb (by simp [hi])
      · exact hb

theorem Regular.foldl (hb : b.Regular) (spans : List Span) : (spans.foldl Builder.step b).Regular := by
  induction spans generalizing b with
  | nil => exact hb
  | cons s spans ih => exact ih hb.step

/-- What is left open is ended in the same way. -/
theorem outline_finish (hb : b.Regular) (stop : Position) :
    (b.finish stop).nodes.reverse.flatMap Node.outline = b.draft.outline := by
  -- first the open directive, then the open region
  unfold finish
  extract_lets closed
  have hclosed : closed.draft = b.draft.close ∧ closed.region.map OpenRegion.kind =
      b.region.map OpenRegion.kind := by
    unfold closed Draft.close
    cases hi : b.inclusion with
    | none =>
      have hdraft : b.draft.inclusion = none := by simp [draft, hi]
      rw [hdraft]
      exact ⟨rfl, rfl⟩
    | some i =>
      have hdraft : b.draft.inclusion = some i.text.toList := by simp [draft, hi]
      have hended : ((b.report .inclusion i.start).endInclusion i stop).draft =
          b.draft.endInclusion i.text.toList :=
        draft_endInclusion (b := b.report .inclusion i.start) hb hi stop
      rw [hdraft]
      exact ⟨hended, congrArg Draft.region hended⟩
  have hflush : b.draft.flush = b.draft := Draft.flush_of_text rfl
  have hregion : b.draft.region = closed.region.map OpenRegion.kind := hclosed.2.symm
  unfold Draft.outline
  rw [hflush, ← hclosed.1, hregion]
  generalize closed = c
  obtain ⟨nodes, malformed, region, inclusion⟩ := c
  match region with
  | none => simp [draft]
  | some (.block start parts) =>
    simp [endRegion, report, addNode, draft, OpenRegion.outline, OpenRegion.kind, Node.outline]
  | some (.inlineWrite start children) =>
    simp [endRegion, report, addNode, draft, OpenRegion.outline, OpenRegion.kind, Node.outline]

end Builder

/-! ## Drafts of scanners -/

/-- The draft of the spans that a scanner has found, last first. -/
def draftOf (spans : List Span) : Draft := (spans.reverse.foldl Builder.step .start).draft

/-- A scanner that has passed the beginning of a text, and a draft of its pieces: if the last span
may still grow, so does what the draft makes of it. -/
structure Drafts (pre : List Char) (s : Scanner) (d : Draft) : Prop where
  cursor : s.cursor = utf8Length pre
  drafted : s.openEnd = none ∧ d = draftOf s.spans ∨
    s.openEnd = some (utf8Length pre) ∧ ∃ last rest, s.spans = last :: rest ∧
      last.scope.isContent = true ∧ d = (draftOf rest).content last.scope last.value.toList

section

variable {text pre piece post : List Char} {s : Scanner} {d : Draft}

theorem drafts_start : Drafts [] .start .start := ⟨rfl, .inl ⟨rfl, rfl⟩⟩

theorem regular_spans (spans : List Span) : (spans.reverse.foldl Builder.step .start).Regular :=
  Builder.regular_start.foldl _

theorem draftOf_content {x : Span} (hx : x.scope.isContent = true) (spans : List Span) :
    draftOf (x :: spans) = ((draftOf spans).content x.scope x.value.toList).flush := by
  unfold draftOf
  rw [List.reverse_cons, List.foldl_append]
  exact Builder.draft_step_content hx

theorem draftOf_boundary {x : Span} (hx : x.scope.isContent = false) (spans : List Span) :
    draftOf (x :: spans) = (draftOf spans).boundary x.scope := by
  unfold draftOf
  rw [List.reverse_cons, List.foldl_append]
  exact Builder.draft_step_boundary (regular_spans spans) hx

theorem text_draftOf (spans : List Span) : (draftOf spans).text = none := rfl

/-- All that a draft still holds back is the last span. -/
theorem Drafts.flush_eq (h : Drafts pre s d) : d.flush = draftOf s.spans := by
  rcases h.drafted with ⟨-, rfl⟩ | ⟨-, last, rest, hspans, hlast, rfl⟩
  · exact Draft.flush_of_text rfl
  · rw [hspans, draftOf_content hlast]

/-- Content is taken in by the last span, or becomes one of its own. -/
theorem Drafts.addContent (h : Drafts pre s d) (htext : text = pre ++ piece ++ post) {scope : Scope}
    (hscope : scope.isContent = true) :
    Drafts (pre ++ piece) { s.addContent text (.ofString (.ofList text)) scope (utf8Length pre)
      (utf8Length (pre ++ piece)) with cursor := utf8Length (pre ++ piece) }
      (d.content scope piece) := by
  have hslice : slice? text (utf8Length pre) (utf8Length (pre ++ piece)) = some piece := by
    rw [htext, slice?_utf8Length]
  obtain ⟨x, hx, hvalue, hxscope⟩ : ∃ x, x = Scanner.spanOf (.ofString (.ofList text))
      (String.ofList piece) scope (utf8Length pre) (utf8Length (pre ++ piece)) ∧
      x.value.toList = piece ∧ x.scope = scope :=
    ⟨_, rfl, by simp [Scanner.spanOf], rfl⟩
  unfold Scanner.addContent
  simp only [hslice, ← hx]
  refine ⟨rfl, .inr ⟨rfl, ?_⟩⟩
  rcases h.drafted with ⟨hopen, rfl⟩ | ⟨hopen, last, rest, hspans, hlast, rfl⟩
  · -- the last span may not grow
    refine ⟨x, s.spans, ?_, hxscope ▸ hscope, by rw [hvalue, hxscope]⟩
    cases s.spans with
    | nil => rfl
    | cons last rest => simp [hopen]
  · rw [hspans]
    by_cases hsame : last.scope = scope
    · subst hsame
      simp only [hopen, decide_true, Bool.and_self, if_true]
      refine ⟨_, rest, rfl, hlast, ?_⟩
      rw [Draft.content_append, String.toList_append, String.toList_ofList]
    · simp only [hopen, hsame, decide_true, decide_false, Bool.and_false, Bool.false_eq_true,
        if_false]
      refine ⟨x, last :: rest, rfl, hxscope ▸ hscope, ?_⟩
      rw [draftOf_content hlast, hvalue, hxscope,
        Draft.content_flush (text_draftOf rest) hsame]

/-- A scanner passes a piece as a draft does. -/
theorem Drafts.step (h : Drafts pre s d) {p : Piece} (htext : text = pre ++ p.text ++ post) :
    Drafts (pre ++ p.text) (s.step text (.ofString (.ofList text))
      ⟨utf8Length pre, utf8Length (pre ++ p.text), p.scope⟩) (d.step p) := by
  rw [Scanner.step_piece p.scope h.cursor htext]
  unfold Scanner.addRange Draft.step
  split
  · exact ⟨rfl, .inl ⟨rfl, h.flush_eq⟩⟩
  · cases hscope : p.scope.isContent with
    | true =>
      by_cases hempty : p.text = []
      · simp only [hempty, List.append_nil, Nat.lt_irrefl, if_false, if_true]
        exact ⟨rfl, h.drafted⟩
      · simp only [Scanner.utf8Length_lt_append hempty, hempty, if_false, if_true]
        exact h.addContent htext hscope
    | false =>
      refine ⟨rfl, .inl ⟨rfl, ?_⟩⟩
      rw [h.flush_eq]
      exact (draftOf_boundary (x := Scanner.spanOf _ "" p.scope _ _) hscope s.spans).symm

theorem Drafts.foldl {pieces : List Piece} (h : Drafts pre s d)
    (htext : text = pre ++ pieces.flatMap Piece.text ++ post) :
    Drafts (pre ++ pieces.flatMap Piece.text) ((rangesFrom (utf8Length pre) pieces).foldl
      (Scanner.step text (.ofString (.ofList text))) s) (d.run pieces) := by
  induction pieces generalizing pre s d with
  | nil => simpa [rangesFrom, Draft.run] using h
  | cons p pieces ih =>
    have hsplit : text = pre ++ p.text ++ (pieces.flatMap Piece.text ++ post) := by
      rw [htext, List.flatMap_cons]
      simp
    rw [rangesFrom, List.foldl_cons, ← utf8Length_append, List.flatMap_cons, ← List.append_assoc]
    refine ih (h.step hsplit) ?_
    rw [hsplit, List.append_assoc (pre ++ p.text)]

end

/-- **The outline of a template can be drawn up piece by piece.** -/
theorem outline_ofSpans_scan (s : Syntax) (text : String) :
    (Tree.ofSpans (scan s.classify text)).outline =
      (Draft.start.run (pieces s text.toList)).outline := by
  have hwhole : text.toList = [] ++ (pieces s text.toList).flatMap Piece.text ++ [] := by
    simp [flatMap_pieces]
  have hdrafts := drafts_start.foldl hwhole
  rw [List.nil_append, flatMap_pieces, utf8Length_nil] at hdrafts
  have hspans : scan s.classify text = ((rangesFrom 0 (pieces s text.toList)).foldl
      (Scanner.step text.toList (.ofString (.ofList text.toList))) .start).spans.reverse := by
    have hsize : (LineIndex.ofString (.ofList text.toList)).size = utf8Length text.toList :=
      utf8ByteSize_ofList_eq text.toList
    unfold scan scanRanges Scanner.finish
    simp only [Syntax.classify, hdrafts.cursor, hsize, Nat.lt_irrefl, if_false]
  rw [← Draft.outline_flush, hdrafts.flush_eq]
  unfold Tree.outline Tree.ofSpans
  simp only [hspans]
  exact Builder.outline_finish (regular_spans _) _

end Stencil.Template
