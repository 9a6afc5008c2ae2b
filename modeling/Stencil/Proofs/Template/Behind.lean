import Stencil.Proofs.Template.Roundtrip

/-! # Templates that stand behind others

Where a part of a template ends with a mark, nothing of what stands behind it runs into it.  The
template behind the mark has the spans and the tree that it has alone, and only their positions are
counted from the mark on.
-/
namespace Stencil

/-- The position of a place in a text, if the text begins at `p` and the place has the position `q`
in it. -/
def Position.behind (p q : Position) : Position :=
  if q.line = 0 then ⟨p.line, p.column + q.column⟩ else ⟨p.line + q.line, q.column⟩

theorem Position.behind_advance (p q : Position) (c : Char) :
    p.behind (q.advance c) = (p.behind q).advance c := by
  unfold behind advance
  by_cases hc : c = '\n' <;> by_cases hq : q.line = 0 <;> simp [hc, hq, Nat.add_assoc]

theorem Position.behind_after (p q : Position) (cs : List Char) :
    p.behind (q.after cs) = (p.behind q).after cs := by
  induction cs generalizing q with
  | nil => rfl
  | cons c cs ih => rw [after_cons, ih, behind_advance, after_cons]

theorem Position.behind_origin (p : Position) : p.behind .origin = p := rfl

namespace Template

/-! ## Spans -/

/-- A span of a text that begins at `p`. -/
def Span.behind (p : Position) (s : Span) : Span :=
  { s with start := p.behind s.start, stop := p.behind s.stop }

namespace Scanner

/-- A scanner of a text behind `pre`, and one of the text alone, have passed the same beginning
`cs` of it.  The first one has found the spans `found` in front of the text. -/
structure Follows (pre cs : List Char) (found : List Span) (s t : Scanner) : Prop where
  spans : s.spans = t.spans.map (Span.behind (Position.origin.after pre)) ++ found
  openEnd : s.openEnd = t.openEnd.map (utf8Length pre + ·)
  cursor : s.cursor = utf8Length (pre ++ cs) ∧ t.cursor = utf8Length cs
  /-- Only spans of the text may grow. -/
  grows : t.spans = [] → t.openEnd = none

variable {pre cs piece post : List Char} {found : List Span} {s t : Scanner} {scope : Scope}

/-- The position of a place in a text is counted from the beginning of the text. -/
theorem position_ofString_behind (pre front back : List Char) :
    (LineIndex.ofString (.ofList (pre ++ (front ++ back)))).position (utf8Length (pre ++ front)) =
      (Position.origin.after pre).behind
        ((LineIndex.ofString (.ofList (front ++ back))).position (utf8Length front)) := by
  rw [position_of_append (pre ++ front) back (by simp), position_of_append front back rfl,
    Position.behind_after, Position.behind_origin, Position.after_append]

theorem spanOf_behind (pre cs piece post : List Char) (value : String) (scope : Scope) :
    spanOf (.ofString (.ofList (pre ++ (cs ++ piece ++ post)))) value scope (utf8Length (pre ++ cs))
        (utf8Length (pre ++ (cs ++ piece))) =
      Span.behind (Position.origin.after pre) (spanOf (.ofString (.ofList (cs ++ piece ++ post)))
        value scope (utf8Length cs) (utf8Length (cs ++ piece))) := by
  have hstart := position_ofString_behind pre cs (piece ++ post)
  rw [← List.append_assoc cs] at hstart
  simp only [spanOf, Span.behind, hstart, position_ofString_behind pre (cs ++ piece) post]

theorem Follows.addContent (h : Follows pre cs found s t) (piece post : List Char) :
    Follows pre (cs ++ piece) found
      { s.addContent (pre ++ (cs ++ piece ++ post))
          (.ofString (.ofList (pre ++ (cs ++ piece ++ post)))) scope (utf8Length (pre ++ cs))
          (utf8Length (pre ++ (cs ++ piece))) with
        cursor := utf8Length (pre ++ (cs ++ piece)) }
      { t.addContent (cs ++ piece ++ post) (.ofString (.ofList (cs ++ piece ++ post))) scope
          (utf8Length cs) (utf8Length (cs ++ piece)) with
        cursor := utf8Length (cs ++ piece) } := by
  have hslice : slice? (pre ++ (cs ++ piece ++ post)) (utf8Length (pre ++ cs))
      (utf8Length (pre ++ (cs ++ piece))) = some piece := by
    have hwhole := slice?_utf8Length (pre ++ cs) piece post
    simpa using hwhole
  have hlast := spanOf_behind pre cs piece post (.ofList piece) scope
  unfold Scanner.addContent
  rw [hslice, slice?_utf8Length cs piece post]
  obtain ⟨spans, openEnd, cursor⟩ := s
  obtain ⟨spans', openEnd', cursor'⟩ := t
  obtain rfl : spans = _ := h.spans
  obtain rfl : openEnd = _ := h.openEnd
  have hoffset : utf8Length (pre ++ (cs ++ piece)) = utf8Length pre + utf8Length (cs ++ piece) :=
    utf8Length_append ..
  cases spans' with
  | nil =>
    -- the span in front of the text may not grow
    obtain rfl : openEnd' = none := h.grows rfl
    refine ⟨?_, congrArg some hoffset, ⟨rfl, rfl⟩, fun hnil => by cases hnil⟩
    cases found <;> simp only [List.map_nil, List.nil_append, Option.map_none, reduceCtorEq,
      decide_false, Bool.false_and, Bool.false_eq_true, if_false, List.map_cons, List.cons_append,
      hlast]
  | cons last rest =>
    have hsame : (openEnd'.map (utf8Length pre + ·) = some (utf8Length (pre ++ cs))) =
        (openEnd' = some (utf8Length cs)) := by
      rw [utf8Length_append]
      cases openEnd' <;> simp
    have hscope : (Span.behind (Position.origin.after pre) last).scope = last.scope := rfl
    refine ⟨?_, congrArg some hoffset, ⟨rfl, rfl⟩, ?_⟩
    · simp only [List.map_cons, List.cons_append, hsame, hscope]
      by_cases hgrown : (decide (openEnd' = some (utf8Length cs)) && decide (last.scope = scope)) =
        true
      · rw [if_pos hgrown, if_pos hgrown, position_ofString_behind pre (cs ++ piece) post]
        rfl
      · rw [if_neg hgrown, if_neg hgrown, List.map_cons, hlast]
        rfl
    · intro hnil
      simp only at hnil
      split at hnil <;> cases hnil

/-- Both scanners pass the same piece. -/
theorem Follows.step (h : Follows pre cs found s t) (piece post : List Char) (scope : Scope) :
    Follows pre (cs ++ piece) found
      (s.step (pre ++ (cs ++ piece ++ post)) (.ofString (.ofList (pre ++ (cs ++ piece ++ post))))
        ⟨utf8Length (pre ++ cs), utf8Length (pre ++ (cs ++ piece)), scope⟩)
      (t.step (cs ++ piece ++ post) (.ofString (.ofList (cs ++ piece ++ post)))
        ⟨utf8Length cs, utf8Length (cs ++ piece), scope⟩) := by
  have hfirst : s.step (pre ++ (cs ++ piece ++ post))
      (.ofString (.ofList (pre ++ (cs ++ piece ++ post))))
      ⟨utf8Length (pre ++ cs), utf8Length (pre ++ cs ++ piece), scope⟩ = _ :=
    step_piece scope h.cursor.1 (show _ = pre ++ cs ++ piece ++ post by simp)
  rw [List.append_assoc pre cs piece] at hfirst
  rw [hfirst, step_piece scope h.cursor.2 rfl]
  unfold addRange
  split
  · exact ⟨h.spans, rfl, ⟨rfl, rfl⟩, fun _ => rfl⟩
  · split
    · by_cases hpiece : piece = []
      · subst hpiece
        simp only [List.append_nil, Nat.lt_irrefl, if_false]
        exact ⟨h.spans, h.openEnd, ⟨rfl, rfl⟩, h.grows⟩
      · have hlt : utf8Length (pre ++ cs) < utf8Length (pre ++ (cs ++ piece)) := by
          rw [← List.append_assoc]
          exact utf8Length_lt_append hpiece
        rw [if_pos hlt, if_pos (utf8Length_lt_append hpiece)]
        exact h.addContent piece post
    · unfold addBoundary
      refine ⟨?_, rfl, ⟨rfl, rfl⟩, fun hnil => by cases hnil⟩
      rw [spanOf_behind, h.spans]
      rfl

theorem Follows.pass (h : Follows pre cs found s t) (ps : List Piece) {rest : List Char}
    (hrest : rest = cs ++ ps.flatMap Piece.text ++ post) :
    Follows pre (cs ++ ps.flatMap Piece.text) found
      (s.pass (pre ++ rest) (pre ++ cs) ps) (t.pass rest cs ps) := by
  induction ps generalizing cs s t with
  | nil => simpa [Scanner.pass, rangesFrom] using h
  | cons p ps ih =>
    have hsplit : rest = cs ++ p.text ++ (ps.flatMap Piece.text ++ post) := by
      rw [hrest, List.flatMap_cons]
      simp
    have hmore : rest = cs ++ p.text ++ ps.flatMap Piece.text ++ post := by
      rw [hsplit, List.append_assoc (cs ++ p.text)]
    have hstep := h.step p.text (ps.flatMap Piece.text ++ post) p.scope
    rw [← hsplit] at hstep
    have hpass := ih hstep hmore
    rw [List.flatMap_cons, ← List.append_assoc, pass_cons, pass_cons, List.append_assoc pre]
    exact hpass

end Scanner

/-- **The spans of a template behind a mark**, if what stands in front is taken apart alone. -/
theorem scan_behind {front : List Piece} {pre rest : List Char}
    (hpieces : defaultPieces (pre ++ rest) = front ++ defaultPieces rest)
    (hpre : front.flatMap Piece.text = pre)
    (hmark : (Scanner.start.pass (pre ++ rest) [] front).openEnd = none)
    (hcursor : (Scanner.start.pass (pre ++ rest) [] front).cursor = utf8Length pre) :
    scan Syntax.default.classify (.ofList (pre ++ rest)) =
      (Scanner.start.pass (pre ++ rest) [] front).spans.reverse ++
        (scan Syntax.default.classify (.ofList rest)).map
          (Span.behind (Position.origin.after pre)) := by
  have hflat : (defaultPieces rest).flatMap Piece.text = rest := flatMap_classifyFrom ..
  have hbegin : Scanner.Follows pre [] (Scanner.start.pass (pre ++ rest) [] front).spans
      (Scanner.start.pass (pre ++ rest) [] front) .start :=
    ⟨rfl, hmark, ⟨by rw [hcursor, List.append_nil], rfl⟩, fun _ => rfl⟩
  have hwhole : rest = [] ++ (defaultPieces rest).flatMap Piece.text ++ [] := by simp [hflat]
  have hfollows := hbegin.pass (defaultPieces rest) hwhole
  rw [hflat, List.nil_append, List.append_nil] at hfollows
  have hpass : Scanner.start.pass (pre ++ rest) [] (pieces .default (pre ++ rest)) =
      (Scanner.start.pass (pre ++ rest) [] front).pass (pre ++ rest) pre (defaultPieces rest) := by
    rw [pieces_default, hpieces, Scanner.pass_append, hpre, List.nil_append]
  have halone : scan Syntax.default.classify (.ofList rest) =
      (Scanner.start.pass rest [] (defaultPieces rest)).spans.reverse := by
    refine scan_of_pass ?_ ?_
    · rw [pieces_default, List.reverse_reverse]
    · rw [pieces_default]
      exact hfollows.cursor.2
  rw [halone]
  refine scan_of_pass ?_ ?_
  · rw [hpass, hfollows.spans]
    simp
  · rw [hpass]
    exact hfollows.cursor.1

/-! ## Trees -/

section
variable (p : Position)

def Location.behind (l : Location) : Location := ⟨p.behind l.start, p.behind l.stop⟩

def Inclusion.behind (i : Inclusion) : Inclusion := { i with location := i.location.behind p }

def BlockPart.behind : BlockPart → BlockPart
  | .script s => .script (s.behind p)
  | .inclusion i => .inclusion (i.behind p)

/-- A node of a template that begins at `p`. -/
def Node.behind : Node → Node
  | .text l value => .text (l.behind p) value
  | .inlineWrite l children => .inlineWrite (l.behind p) (children.map (Span.behind p))
  | .block l children => .block (l.behind p) (children.map (BlockPart.behind p))
  | .inclusion i => .inclusion (i.behind p)

def Malformed.behind (m : Malformed) : Malformed := { m with start := p.behind m.start }

def OpenRegion.behind : OpenRegion → OpenRegion
  | .block start parts => .block (p.behind start) (parts.map (BlockPart.behind p))
  | .inlineWrite start children => .inlineWrite (p.behind start) (children.map (Span.behind p))

def OpenInclusion.behind (i : OpenInclusion) : OpenInclusion := { i with start := p.behind i.start }

/-- A builder of a template that begins at `p`, behind some nodes. -/
def Builder.behind (nodes : List Node) (b : Builder) : Builder where
  nodes := b.nodes.map (Node.behind p) ++ nodes
  malformed := b.malformed.map (Malformed.behind p)
  region := b.region.map (OpenRegion.behind p)
  inclusion := b.inclusion.map (OpenInclusion.behind p)

end

namespace Builder

variable (p : Position) (nodes : List Node) (b : Builder) (s : Span)

theorem endInclusion_behind (i : OpenInclusion) (stop : Position) :
    (b.behind p nodes).endInclusion (i.behind p) (p.behind stop) =
      (b.endInclusion i stop).behind p nodes := by
  obtain ⟨done, malformed, region, inclusion⟩ := b
  rcases region with - | ⟨start, parts⟩ | ⟨start, children⟩ <;> rfl

theorem endRegion_behind (r : OpenRegion) (stop : Position) :
    (b.behind p nodes).endRegion (r.behind p) (p.behind stop) =
      (b.endRegion r stop).behind p nodes := by
  cases r with
  | block start parts =>
    simp [endRegion, behind, OpenRegion.behind, addNode, Node.behind, Location.behind]
  | inlineWrite start children =>
    simp [endRegion, behind, OpenRegion.behind, addNode, Node.behind, Location.behind]

theorem stepRegion_behind :
    (b.behind p nodes).stepRegion (s.behind p) = (b.stepRegion s).behind p nodes := by
  obtain ⟨done, malformed, region, inclusion⟩ := b
  obtain ⟨value, scope, start, stop⟩ := s
  have hend (r : OpenRegion) := endRegion_behind p nodes ⟨done, malformed, some r, inclusion⟩ r stop
  rcases region with - | ⟨start, parts⟩ | ⟨start, children⟩
  · cases scope <;> rfl
  · cases scope with
    | blockClose => exact hend (.block start parts)
    | _ => rfl
  · cases scope with
    | inlineClose => exact hend (.inlineWrite start children)
    | _ => rfl

/-- What a builder makes of a span does not depend on where the template begins. -/
theorem step_behind : (b.behind p nodes).step (s.behind p) = (b.step s).behind p nodes := by
  obtain ⟨done, malformed, region, inclusion⟩ := b
  cases inclusion with
  | none => exact stepRegion_behind p nodes _ s
  | some i =>
    obtain ⟨value, scope, start, stop⟩ := s
    cases scope with
    | includeEnd => exact endInclusion_behind p nodes _ i stop
    | blockClose =>
      have hended := endInclusion_behind p nodes
        (report ⟨done, malformed, region, some i⟩ .inclusion i.start) i start
      have hstep := stepRegion_behind p nodes
        ((report ⟨done, malformed, region, some i⟩ .inclusion i.start).endInclusion i start)
        ⟨value, .blockClose, start, stop⟩
      rw [← hended] at hstep
      exact hstep
    | _ => rfl

theorem foldl_step_behind (spans : List Span) :
    (spans.map (Span.behind p)).foldl step (b.behind p nodes) =
      (spans.foldl step b).behind p nodes := by
  induction spans generalizing b with
  | nil => rfl
  | cons s spans ih => rw [List.map_cons, List.foldl_cons, step_behind, ih, List.foldl_cons]

/-- At the end the open directive ends first. -/
theorem finish_of_inclusion {i : OpenInclusion} (hi : b.inclusion = some i) (stop : Position) :
    b.finish stop = ((b.report .inclusion i.start).endInclusion i stop).finish stop := by
  rw [finish, finish, hi, inclusion_endInclusion]

theorem finish_behind_of_none (stop : Position) (hb : b.inclusion = none) :
    (b.behind p nodes).finish (p.behind stop) = (b.finish stop).behind p nodes := by
  obtain ⟨done, malformed, region, inclusion⟩ := b
  obtain rfl : inclusion = none := hb
  rcases region with - | ⟨start, parts⟩ | ⟨start, children⟩
  · rfl
  · exact endRegion_behind p nodes (report ⟨done, malformed, _, none⟩ .block start)
      (.block start parts) stop
  · exact endRegion_behind p nodes (report ⟨done, malformed, _, none⟩ .inlineWrite start)
      (.inlineWrite start children) stop

theorem finish_behind (stop : Position) :
    (b.behind p nodes).finish (p.behind stop) = (b.finish stop).behind p nodes := by
  cases hi : b.inclusion with
  | none => exact finish_behind_of_none p nodes b stop hi
  | some i =>
    have hi' : (b.behind p nodes).inclusion = some (i.behind p) := by rw [behind, hi]; rfl
    have hended : ((b.behind p nodes).report .inclusion (i.behind p).start).endInclusion
        (i.behind p) (p.behind stop) =
          ((b.report .inclusion i.start).endInclusion i stop).behind p nodes :=
      endInclusion_behind p nodes (b.report .inclusion i.start) i stop
    rw [finish_of_inclusion b hi, finish_of_inclusion _ hi', hended,
      finish_behind_of_none p nodes _ stop (inclusion_endInclusion _ i stop)]

end Builder

/-- **The tree of a template behind nodes that are complete.** -/
theorem ofSpans_behind {front : List Span} {nodes : List Node}
    (hfront : front.foldl Builder.step .start = ⟨nodes, [], none, none⟩) (p : Position)
    (spans : List Span) :
    Tree.ofSpans (front ++ spans.map (Span.behind p)) =
      ⟨nodes.reverse ++ (Tree.ofSpans spans).nodes.map (Node.behind p),
        (Tree.ofSpans spans).malformed.map (Malformed.behind p)⟩ := by
  have hbuilt : (front ++ spans.map (Span.behind p)).foldl Builder.step .start =
      (spans.foldl Builder.step .start).behind p nodes := by
    rw [List.foldl_append, hfront]
    exact Builder.foldl_step_behind p nodes .start spans
  have hfinished : ((spans.foldl Builder.step .start).behind p nodes).finish
      (((front ++ spans.map (Span.behind p)).getLast?.map Span.stop).getD .origin) =
        ((spans.foldl Builder.step .start).finish
          ((spans.getLast?.map Span.stop).getD .origin)).behind p nodes := by
    cases hlast : spans.getLast? with
    | none =>
      -- without spans there is nothing to end
      obtain rfl := List.getLast?_eq_none_iff.mp hlast
      rfl
    | some last =>
      have hstop : (front ++ spans.map (Span.behind p)).getLast? = some (last.behind p) := by
        rw [List.getLast?_append, List.getLast?_map, hlast]
        rfl
      rw [hstop]
      exact Builder.finish_behind p nodes _ last.stop
  unfold Tree.ofSpans
  simp only [hbuilt, hfinished]
  simp [Builder.behind]

end Template

end Stencil
