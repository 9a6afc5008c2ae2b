import Stencil.Proofs.Template.Building

/-! # Nesting of trees

A node begins where the span that opens it begins, and ends where a later span begins or ends.  So
where positions never decrease along the spans, a builder never has to look back: what it adds next
begins behind all that has ended, and ends behind all that it holds.
-/
namespace Stencil.Template

/-- Where a part of a block begins and ends. -/
def BlockPart.location : BlockPart → Location
  | .script s => ⟨s.start, s.stop⟩
  | .inclusion i => i.location

/-- Where the parts of a node begin and end. -/
def Node.parts : Node → List Location
  | .block _ parts => parts.map BlockPart.location
  | .inlineWrite _ children => children.map fun s => ⟨s.start, s.stop⟩
  | .text _ _ | .inclusion _ => []

/-- The nodes of a tree follow each other, and so do the parts of each node inside of it. -/
structure Tree.Nested (tree : Tree) : Prop where
  forward : ∀ n ∈ tree.nodes, n.location.start ≤ n.location.stop
  sorted : tree.nodes.Pairwise fun a b => a.location.stop ≤ b.location.start
  inside : ∀ n ∈ tree.nodes, ∀ l ∈ n.parts,
    n.location.start ≤ l.start ∧ l.start ≤ l.stop ∧ l.stop ≤ n.location.stop
  parts : ∀ n ∈ tree.nodes, n.parts.Pairwise fun a b => a.stop ≤ b.start

/-! ## Places between positions -/

/-- Places, last first, follow each other between two positions. -/
structure Between (start stop : Position) (places : List Location) : Prop where
  forward : start ≤ stop
  inside : ∀ l ∈ places, start ≤ l.start ∧ l.start ≤ l.stop ∧ l.stop ≤ stop
  sorted : places.Pairwise fun a b => b.stop ≤ a.start

namespace Between

variable {start stop : Position} {places : List Location}

theorem nil (h : start ≤ stop) : Between start stop [] := ⟨h, by simp, .nil⟩

theorem mono (h : Between start stop places) {later : Position} (hle : stop ≤ later) :
    Between start later places where
  forward := Position.le_trans h.forward hle
  inside l hl :=
    ⟨(h.inside l hl).1, (h.inside l hl).2.1, Position.le_trans (h.inside l hl).2.2 hle⟩
  sorted := h.sorted

/-- One more place behind the others. -/
theorem cons {l : Location} (h : Between start l.start places) (hl : l.start ≤ l.stop) :
    Between start l.stop (l :: places) where
  forward := Position.le_trans h.forward hl
  inside := List.forall_mem_cons.mpr ⟨⟨h.forward, hl, Position.le_refl _⟩, (h.mono hl).inside⟩
  sorted := List.pairwise_cons.mpr ⟨fun x hx => (h.inside x hx).2.2, h.sorted⟩

end Between

/-- The parts of a node lie in it. -/
def Node.Encloses (n : Node) : Prop := Between n.location.start n.location.stop n.parts.reverse

theorem encloses_block {start stop : Position} {parts : List BlockPart}
    (h : Between start stop (parts.map BlockPart.location)) :
    (Node.block ⟨start, stop⟩ parts.reverse).Encloses := by
  simpa [Node.Encloses, Node.parts, Node.location] using h

theorem encloses_inlineWrite {start stop : Position} {children : List Span}
    (h : Between start stop (children.map fun s => ⟨s.start, s.stop⟩)) :
    (Node.inlineWrite ⟨start, stop⟩ children.reverse).Encloses := by
  simpa [Node.Encloses, Node.parts, Node.location] using h

/-! ## Building -/

/-- Where the parts of an open region begin and end, last first. -/
def OpenRegion.parts : OpenRegion → List Location
  | .block _ parts => parts.map BlockPart.location
  | .inlineWrite _ children => children.map fun s => ⟨s.start, s.stop⟩

namespace Builder

/-- Where the parts of the open region have to end: an open directive comes behind them. -/
def edge (b : Builder) (reached : Position) : Position :=
  (b.inclusion.map OpenInclusion.start).getD reached

/-- Where the nodes have to end: an open region comes behind them. -/
def front (b : Builder) (reached : Position) : Position :=
  (b.region.map OpenRegion.start).getD (b.edge reached)

/-- All that a builder holds follows each other up to a position. -/
structure Nested (b : Builder) (reached : Position) : Prop where
  nodes : Between .origin (b.front reached) (b.nodes.map Node.location)
  encloses : ∀ n ∈ b.nodes, n.Encloses
  region : ∀ r ∈ b.region, Between r.start (b.edge reached) r.parts
  inclusion : b.edge reached ≤ reached

variable {b b' : Builder} {s : Span} {reached later : Position}

theorem edge_mono (h : reached ≤ later) : b.edge reached ≤ b.edge later := by
  obtain ⟨nodes, malformed, region, inclusion⟩ := b
  cases inclusion with
  | none => exact h
  | some i => exact Position.le_refl _

theorem front_mono (h : reached ≤ later) : b.front reached ≤ b.front later := by
  unfold front
  cases b.region with
  | none => exact edge_mono h
  | some r => exact Position.le_refl _

theorem Nested.mono (hb : b.Nested reached) (h : reached ≤ later) : b.Nested later where
  nodes := hb.nodes.mono (front_mono h)
  encloses := hb.encloses
  region r hr := (hb.region r hr).mono (edge_mono h)
  inclusion := by
    obtain ⟨nodes, malformed, region, inclusion⟩ := b
    cases inclusion with
    | none => exact Position.le_refl _
    | some i => exact Position.le_trans hb.inclusion h

/-- One more node behind the others. -/
theorem nested_addNode {n : Node} {nodes : List Node} {malformed : List Malformed}
    (hnodes : Between .origin n.location.start (nodes.map Node.location))
    (hencloses : ∀ x ∈ nodes, x.Encloses) (hn : n.Encloses) (h : n.location.stop ≤ later) :
    Nested ⟨n :: nodes, malformed, none, none⟩ later where
  nodes := (hnodes.cons hn.forward).mono h
  encloses := List.forall_mem_cons.mpr ⟨hn, hencloses⟩
  region r hr := by cases hr
  inclusion := Position.le_refl later

/-- A span that begins behind all that a builder holds is added behind it. -/
theorem Step.nested (h : Step s b b') (hb : b.Nested reached) (hreached : reached ≤ s.start)
    (hs : s.start ≤ s.stop) : b'.Nested s.stop := by
  replace hb := hb.mono hreached
  have hrefl := Position.le_refl s.stop
  obtain ⟨hnodes, hencloses, hregion, hinclusion⟩ := hb
  cases h with
  | skip => exact Nested.mono ⟨hnodes, hencloses, hregion, hinclusion⟩ hs
  | text => exact nested_addNode hnodes hencloses (.nil hs) hrefl
  | openBlock | openInline =>
    exact ⟨hnodes, hencloses, fun r hr => by cases hr; exact .nil hs, hrefl⟩
  | script | expression =>
    have hinner := Between.cons (l := ⟨s.start, s.stop⟩) (hregion _ rfl) hs
    exact ⟨hnodes, hencloses, fun r hr => by cases hr; exact hinner, hrefl⟩
  | closeBlock =>
    exact nested_addNode hnodes hencloses (encloses_block ((hregion _ rfl).mono hs)) hrefl
  | closeInline =>
    exact nested_addNode hnodes hencloses (encloses_inlineWrite ((hregion _ rfl).mono hs)) hrefl
  | openInclusion => exact ⟨hnodes, hencloses, by simp, hs⟩
  | openInner => exact ⟨hnodes, hencloses, hregion, hs⟩
  | argument => exact ⟨hnodes, hencloses, hregion, Position.le_trans hinclusion hs⟩
  | endInclusion =>
    exact nested_addNode hnodes hencloses (.nil (Position.le_trans hinclusion hs)) hrefl
  | @endInner _ _ _ _ i =>
    have hinner := Between.cons (l := ⟨i.start, s.stop⟩) (hregion _ rfl)
      (Position.le_trans hinclusion hs)
    exact ⟨hnodes, hencloses, fun r hr => by cases hr; exact hinner, hrefl⟩
  | cutOff => exact nested_addNode hnodes hencloses (.nil hinclusion) hs
  | @cutOffInner _ _ _ _ i =>
    have hinner := Between.cons (l := ⟨i.start, s.start⟩) (hregion _ rfl) hinclusion
    exact nested_addNode hnodes hencloses (encloses_block (hinner.mono hs)) hrefl

/-- Spans along which positions never decrease are passed in order. -/
theorem Nested.foldl (hb : b.Nested reached) (hregular : b.Regular) {spans : List Span}
    (hspans : Ascending spans) (hreached : ∀ s ∈ spans, reached ≤ s.start) :
    (spans.foldl Builder.step b).Nested ((spans.getLast?.map Span.stop).getD reached) := by
  induction spans generalizing b reached with
  | nil => exact hb
  | cons s rest ih =>
    obtain ⟨hs, hforward⟩ := List.forall_mem_cons.mp hspans.forward
    obtain ⟨hbehind, hsorted⟩ := List.pairwise_cons.mp hspans.sorted
    have hstep := hregular.step_cases.nested hb (hreached s List.mem_cons_self) hs
    have hend : ((s :: rest).getLast?.map Span.stop).getD reached =
        (rest.getLast?.map Span.stop).getD s.stop := by
      rw [List.getLast?_cons]
      cases rest.getLast? <;> rfl
    rw [hend]
    exact ih hstep hregular.step ⟨hforward, hsorted⟩ hbehind

/-- What is still open is added behind all other, as it ends. -/
theorem Nested.finish (hb : b.Nested reached) (hregular : b.Regular) :
    (b.finish reached).Nested reached := by
  have hrefl := Position.le_refl reached
  obtain ⟨hnodes, hencloses, hregion, hinclusion⟩ := hb
  obtain ⟨nodes, malformed, region, inclusion⟩ := b
  match region, inclusion, hregular with
  | none, none, _ => exact ⟨hnodes, hencloses, hregion, hinclusion⟩
  | some (.block _ _), none, _ =>
    exact nested_addNode hnodes hencloses (encloses_block (hregion _ rfl)) hrefl
  | some (.inlineWrite _ _), none, _ =>
    exact nested_addNode hnodes hencloses (encloses_inlineWrite (hregion _ rfl)) hrefl
  | none, some _, _ => exact nested_addNode hnodes hencloses (.nil hinclusion) hrefl
  | some (.block _ _), some i, _ =>
    have hinner := Between.cons (l := ⟨i.start, reached⟩) (hregion _ rfl) hinclusion
    exact nested_addNode hnodes hencloses (encloses_block hinner) hrefl
  | some (.inlineWrite _ _), some _, hregular =>
    exact absurd rfl (hregular (Option.some_ne_none _))

end Builder

/-- Where positions never decrease along the spans, the nodes of their tree follow each other. -/
theorem nested_ofSpans {spans : List Span} (h : Ascending spans) : (Tree.ofSpans spans).Nested := by
  have hstart : Builder.start.Nested .origin :=
    ⟨.nil (Position.le_refl _), by simp [Builder.start], by simp [Builder.start],
      Position.le_refl _⟩
  have hfold := hstart.foldl Builder.regular_start h fun s _ => Position.origin_le s.start
  have hend := hfold.finish (Builder.regular_start.foldl spans)
  have hencloses (n : Node) (hn : n ∈ (Tree.ofSpans spans).nodes) : n.Encloses :=
    hend.encloses n (List.mem_reverse.mp hn)
  exact
    { forward := fun n hn => (hencloses n hn).forward
      sorted := List.pairwise_reverse.mpr (List.pairwise_map.mp hend.nodes.sorted)
      inside := fun n hn l hl => (hencloses n hn).inside l (List.mem_reverse.mpr hl)
      parts := fun n hn => List.pairwise_reverse.mp (hencloses n hn).sorted }

/-! ## Trees of spans -/

/-- **A tree keeps all of its spans, and reports all that has no end**: directives as they are
found, and then the region that goes on to the end of the last span. -/
theorem complete_ofSpans (spans : List Span) :
    let tree := Tree.ofSpans spans
    let lost := (visits .outside spans).filterMap Visit.lost?
    tree.listing = (visits .outside spans).filterMap
        (Visit.listed? ((spans.getLast?.map Span.stop).getD .origin)) ∧
      tree.malformed = lost.filter (·.kind = .inclusion) ++ lost.filter (·.kind ≠ .inclusion) ∧
      (Ascending spans → tree.Nested) := by
  intro tree lost
  have hstart := Builder.regular_start
  have hend := hstart.foldl spans
  refine ⟨?_, ?_, nested_ofSpans⟩
  · let last := (spans.getLast?.map Span.stop).getD .origin
    calc tree.listing = (spans.foldl Builder.step .start).listing last [] :=
        hend.listing_finish last
      _ = (visits .outside spans).filterMap (Visit.listed? last) :=
        (hstart.foldl_visits (Builder.listing last) _ Builder.Step.listing spans).symm
  · have hreported := hstart.foldl_visits Builder.reported
      (fun v => v.lost?.filter (·.kind = .inclusion)) Builder.Step.reported spans
    have hunended := hstart.foldl_visits Builder.unended
      (fun v => v.lost?.filter (·.kind ≠ .inclusion)) Builder.Step.unended spans
    rw [List.filter_filterMap, List.filter_filterMap]
    exact (hend.malformed_finish _).trans (congrArg₂ (· ++ ·) hreported.symm hunended.symm)

/-- A block without an end behind a directive that a closer cuts off; other closers end nothing. -/
def unevenSpans : List Span :=
  [⟨"", .inlineClose, ⟨0, 0⟩, ⟨0, 2⟩⟩, ⟨"a", .text, ⟨0, 2⟩, ⟨0, 3⟩⟩,
    ⟨"", .includeBegin, ⟨0, 3⟩, ⟨0, 9⟩⟩, ⟨"b, ", .block, ⟨0, 9⟩, ⟨0, 12⟩⟩,
    ⟨"", .inlineOpen, ⟨0, 12⟩, ⟨0, 14⟩⟩, ⟨"c", .inlineWrite, ⟨0, 14⟩, ⟨0, 15⟩⟩,
    ⟨"", .blockClose, ⟨0, 15⟩, ⟨1, 0⟩⟩, ⟨"", .blockOpen, ⟨1, 0⟩, ⟨1, 2⟩⟩,
    ⟨"d", .block, ⟨1, 2⟩, ⟨1, 3⟩⟩, ⟨"", .includeBegin, ⟨1, 3⟩, ⟨1, 9⟩⟩,
    ⟨"", .includeEnd, ⟨1, 9⟩, ⟨1, 10⟩⟩, ⟨"e", .block, ⟨1, 10⟩, ⟨1, 11⟩⟩]

theorem complete_ofSpans_uneven : Ascending unevenSpans ∧
    (Tree.ofSpans unevenSpans).listing =
      [.text ⟨⟨0, 2⟩, ⟨0, 3⟩⟩ "a", .inclusion false ⟨⟨⟨0, 3⟩, ⟨0, 15⟩⟩, ["b", "c"]⟩,
        .block ⟨⟨1, 0⟩, ⟨1, 11⟩⟩, .script ⟨"d", .block, ⟨1, 2⟩, ⟨1, 3⟩⟩,
        .inclusion true ⟨⟨⟨1, 3⟩, ⟨1, 10⟩⟩, []⟩, .script ⟨"e", .block, ⟨1, 10⟩, ⟨1, 11⟩⟩] ∧
    (Tree.ofSpans unevenSpans).malformed = [⟨.inclusion, ⟨0, 3⟩⟩, ⟨.block, ⟨1, 0⟩⟩] ∧
    (Tree.ofSpans unevenSpans).Nested := by
  have hascending : Ascending unevenSpans := ⟨by decide, by decide⟩
  obtain ⟨hlisting, hmalformed, hnested⟩ := complete_ofSpans unevenSpans
  exact ⟨hascending, hlisting.trans (by decide), hmalformed.trans (by decide), hnested hascending⟩

end Stencil.Template
