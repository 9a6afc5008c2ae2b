import Stencil.Proofs.Template.Segment

/-! # Printing and parsing

The tree of a template that is written as segments has one node for each of them.  The scanner takes
the lines of a text together again, and closes a span at each mark, so that every segment has spans
of its own; the tree builder makes one node of these, and has no region open between them.
-/
namespace Stencil.Template

/-! ## Trees of segments -/

/-- The span of what stands in a region behind a place, if anything does. -/
def bodySpans (inline : Bool) (items : List Item) (p : Position) : List Span :=
  if bodyText items = [] then []
  else [⟨.ofList (bodyText items), bodyScope inline, p, p.after (bodyText items)⟩]

namespace Segment

/-- The node of a segment behind a place: a text, a block with a script, or an inline region with
its expression. -/
def node (p : Position) : Segment → Node
  | text value => .text ⟨p, p.after value.toList⟩ value
  | region inline items =>
    let location : Location := ⟨p, p.after (region inline items).print⟩
    let children := bodySpans inline items (p.after (opener inline))
    if inline then .inlineWrite location children else .block location (children.map .script)

/-- The spans of a segment behind a place. -/
def spans (p : Position) : Segment → List Span
  | text value => [⟨value, .text, p, p.after value.toList⟩]
  | region inline items =>
    let inside := p.after (opener inline)
    let behind := inside.after (bodyText items)
    ⟨"", openScope inline, p, inside⟩ :: (bodySpans inline items inside ++
      [⟨"", closeScope inline, behind, behind.after Syntax.default.closer.toList⟩])

end Segment

/-- The nodes of segments that follow each other behind a place. -/
def nodesFrom (p : Position) : List Segment → List Node
  | [] => []
  | s :: segments => s.node p :: nodesFrom (p.after s.print) segments

/-- The spans of segments that follow each other behind a place. -/
def spansFrom (p : Position) : List Segment → List Span
  | [] => []
  | s :: segments => s.spans p ++ spansFrom (p.after s.print) segments

/-! ## Building -/

/-- A builder outside of all regions makes one node of the spans of a segment. -/
theorem Builder.foldl_spans (nodes : List Node) (malformed : List Malformed) (s : Segment)
    (p : Position) :
    (s.spans p).foldl Builder.step ⟨nodes, malformed, none, none⟩ =
      ⟨s.node p :: nodes, malformed, none, none⟩ := by
  cases s with
  | text value => rfl
  | region inline items =>
    have hend : p.after (Segment.region inline items).print =
        ((p.after (opener inline)).after (bodyText items)).after Syntax.default.closer.toList := by
      rw [Segment.print, Position.after_append, Position.after_append]
    rw [Segment.node, hend]
    unfold Segment.spans bodySpans
    by_cases hempty : bodyText items = []
    · cases inline <;> simp [hempty, step, stepRegion, stepOutside, stepBlock, stepInline,
        endRegion, addNode, openScope, closeScope]
    · cases inline <;> simp [hempty, step, stepRegion, stepOutside, stepBlock, stepInline,
        endRegion, addNode, openScope, closeScope, bodyScope, Scope.isContent]

theorem Builder.foldl_spansFrom (nodes : List Node) (segments : List Segment) (p : Position) :
    (spansFrom p segments).foldl Builder.step ⟨nodes, [], none, none⟩ =
      ⟨(nodesFrom p segments).reverse ++ nodes, [], none, none⟩ := by
  induction segments generalizing p nodes with
  | nil => rfl
  | cons s segments ih =>
    rw [spansFrom, List.foldl_append, foldl_spans, ih, nodesFrom, List.reverse_cons,
      List.append_assoc, List.singleton_append]

/-- The tree of the spans of segments. -/
theorem ofSpans_spansFrom (segments : List Segment) (p : Position) :
    Tree.ofSpans (spansFrom p segments) = ⟨nodesFrom p segments, []⟩ := by
  unfold Tree.ofSpans
  simp only
  rw [Builder.start, Builder.foldl_spansFrom]
  simp [Builder.finish]

/-! ## Scanning -/

theorem ne_nil_of_mem_linePieces {scope : Scope} {cs : List Char} :
    ∀ p ∈ linePieces scope cs, p.text ≠ [] := by
  have hlines : ∀ done, ∀ line ∈ splitLines done cs, line ≠ [] := by
    induction cs with
    | nil =>
      intro done line hline
      rw [splitLines] at hline
      split at hline
      · cases hline
      · rename_i hdone
        obtain rfl := List.mem_singleton.mp hline
        simpa using hdone
    | cons c cs ih =>
      intro done line hline
      rw [splitLines] at hline
      split at hline
      · rcases List.mem_cons.mp hline with rfl | hline
        · simp
        · exact ih [] line hline
      · exact ih (c :: done) line hline
  intro p hp
  obtain ⟨line, hline, rfl⟩ := List.mem_map.mp hp
  exact hlines [] line hline

namespace Scanner

variable {text pre piece post : List Char} {s : Scanner} {scope : Scope}

/-- Passes pieces of a text that follow each other behind its beginning `pre`. -/
def pass (text pre : List Char) (pieces : List Piece) (s : Scanner) : Scanner :=
  (rangesFrom (utf8Length pre) pieces).foldl (Scanner.step text (.ofString (.ofList text))) s

theorem pass_cons (p : Piece) (pieces : List Piece) :
    s.pass text pre (p :: pieces) =
      pass text (pre ++ p.text) pieces (s.step text (.ofString (.ofList text))
        ⟨utf8Length pre, utf8Length (pre ++ p.text), p.scope⟩) := by
  rw [pass, rangesFrom, List.foldl_cons, ← utf8Length_append]
  rfl

theorem pass_append (ps qs : List Piece) :
    s.pass text pre (ps ++ qs) =
      (s.pass text pre ps).pass text (pre ++ ps.flatMap Piece.text) qs := by
  induction ps generalizing pre s with
  | nil => simp [pass, rangesFrom]
  | cons p ps ih =>
    rw [List.cons_append, pass_cons, pass_cons, ih, List.flatMap_cons, List.append_assoc]

section
variable (htext : text = pre ++ piece ++ post)
include htext

theorem slice?_piece : slice? text (utf8Length pre) (utf8Length (pre ++ piece)) = some piece := by
  rw [htext, slice?_utf8Length]

theorem position_before : (LineIndex.ofString (.ofList text)).position (utf8Length pre) =
    Position.origin.after pre :=
  position_of_append pre (piece ++ post) (by rw [htext, List.append_assoc])

theorem position_behind : (LineIndex.ofString (.ofList text)).position (utf8Length (pre ++ piece)) =
    Position.origin.after (pre ++ piece) :=
  position_of_append (pre ++ piece) post htext

/-- A mark is a span of its own, behind which no other one grows. -/
theorem step_mark (hcursor : s.cursor = utf8Length pre) (hdelimiter : scope ≠ .delimiter)
    (hcontent : scope.isContent = false) :
    s.step text (.ofString (.ofList text)) ⟨utf8Length pre, utf8Length (pre ++ piece), scope⟩ =
      ⟨⟨"", scope, Position.origin.after pre, Position.origin.after (pre ++ piece)⟩ :: s.spans,
        none, utf8Length (pre ++ piece)⟩ := by
  rw [step_piece scope hcursor htext, addRange, if_neg hdelimiter, hcontent,
    if_neg Bool.false_ne_true, addBoundary, spanOf, position_before htext, position_behind htext]

/-- Content is a span of its own if no span may grow. -/
theorem step_new (hcursor : s.cursor = utf8Length pre) (hopen : s.openEnd = none)
    (hcontent : scope.isContent = true) (hpiece : piece ≠ []) :
    s.step text (.ofString (.ofList text)) ⟨utf8Length pre, utf8Length (pre ++ piece), scope⟩ =
      ⟨⟨.ofList piece, scope, Position.origin.after pre, Position.origin.after (pre ++ piece)⟩ ::
        s.spans, some (utf8Length (pre ++ piece)), utf8Length (pre ++ piece)⟩ := by
  have hdelimiter : scope ≠ .delimiter := by
    rintro rfl
    cases hcontent
  rw [step_piece scope hcursor htext, addRange, if_neg hdelimiter, if_pos hcontent,
    if_pos (utf8Length_lt_append hpiece), addContent, slice?_piece htext]
  simp only [spanOf, position_before htext, position_behind htext, hopen]
  cases s.spans <;> simp

/-- Content of the same scope makes the last span longer if it may grow. -/
theorem step_grown {last : Span} {spans : List Span} (hcontent : last.scope.isContent = true)
    (hpiece : piece ≠ []) :
    step text (.ofString (.ofList text)) ⟨last :: spans, some (utf8Length pre), utf8Length pre⟩
        ⟨utf8Length pre, utf8Length (pre ++ piece), last.scope⟩ =
      ⟨{ last with
          value := last.value ++ .ofList piece
          stop := Position.origin.after (pre ++ piece) } :: spans,
        some (utf8Length (pre ++ piece)), utf8Length (pre ++ piece)⟩ := by
  have hdelimiter : last.scope ≠ .delimiter := fun hscope => by
    rw [hscope] at hcontent
    cases hcontent
  rw [step_piece _ rfl htext, addRange, if_neg hdelimiter, if_pos hcontent,
    if_pos (utf8Length_lt_append hpiece), addContent, slice?_piece htext]
  simp only [position_behind htext, decide_true, Bool.and_self, if_true]

end

theorem pass_grown {last : Span} {spans : List Span} {pieces : List Piece}
    (htext : text = pre ++ pieces.flatMap Piece.text ++ post)
    (hcontent : last.scope.isContent = true)
    (hpieces : ∀ p ∈ pieces, p.scope = last.scope ∧ p.text ≠ [])
    (hstop : last.stop = Position.origin.after pre) :
    pass text pre pieces ⟨last :: spans, some (utf8Length pre), utf8Length pre⟩ =
      ⟨{ last with
          value := last.value ++ .ofList (pieces.flatMap Piece.text)
          stop := Position.origin.after (pre ++ pieces.flatMap Piece.text) } :: spans,
        some (utf8Length (pre ++ pieces.flatMap Piece.text)),
        utf8Length (pre ++ pieces.flatMap Piece.text)⟩ := by
  induction pieces generalizing pre last with
  | nil => simp [pass, rangesFrom, ← hstop]
  | cons p pieces ih =>
    obtain ⟨⟨hscope, hne⟩, hpieces⟩ := List.forall_mem_cons.mp hpieces
    have hsplit : text = pre ++ p.text ++ (pieces.flatMap Piece.text ++ post) := by
      rw [htext, List.flatMap_cons]
      simp
    have hrest : text = pre ++ p.text ++ pieces.flatMap Piece.text ++ post := by
      rw [hsplit, List.append_assoc (pre ++ p.text)]
    let grown : Span := ⟨last.value ++ .ofList p.text, last.scope, last.start,
      Position.origin.after (pre ++ p.text)⟩
    have hgrown := ih hrest (show grown.scope.isContent = true from hcontent) hpieces rfl
    rw [pass_cons, hscope, step_grown hsplit hcontent hne]
    refine hgrown.trans ?_
    simp [grown, List.flatMap_cons, String.append_assoc]

/-- The lines of a text are taken together again. -/
theorem pass_linePieces {cs : List Char} (hcursor : s.cursor = utf8Length pre)
    (hopen : s.openEnd = none) (htext : text = pre ++ cs ++ post) (hcontent : scope.isContent = true)
    (hcs : cs ≠ []) :
    s.pass text pre (linePieces scope cs) =
      ⟨⟨.ofList cs, scope, Position.origin.after pre, Position.origin.after (pre ++ cs)⟩ ::
        s.spans, some (utf8Length (pre ++ cs)), utf8Length (pre ++ cs)⟩ := by
  have hpieces : ∀ p ∈ linePieces scope cs, p.scope = scope ∧ p.text ≠ [] := fun p hp =>
    ⟨scope_of_mem_linePieces p hp, ne_nil_of_mem_linePieces p hp⟩
  have hflat := flatMap_linePieces scope cs
  cases hlines : linePieces scope cs with
  | nil =>
    rw [hlines] at hflat
    exact absurd hflat.symm hcs
  | cons p pieces =>
    rw [hlines] at hpieces hflat
    obtain ⟨⟨hscope, hne⟩, hpieces⟩ := List.forall_mem_cons.mp hpieces
    rw [List.flatMap_cons] at hflat
    subst hflat
    have hrest : text = pre ++ p.text ++ pieces.flatMap Piece.text ++ post := by simpa using htext
    have hfirst : text = pre ++ p.text ++ (pieces.flatMap Piece.text ++ post) := by
      simpa using htext
    rw [pass_cons, hscope, step_new hfirst hcursor hopen hcontent hne]
    refine (pass_grown hrest hcontent hpieces rfl).trans ?_
    simp

/-- What stands in a region is one span, if anything does. -/
theorem pass_body (inline : Bool) {items : List Item} (hcursor : s.cursor = utf8Length pre)
    (hopen : s.openEnd = none) (htext : text = pre ++ bodyText items ++ post) :
    let s' := s.pass text pre (linePieces (bodyScope inline) (bodyText items))
    s'.spans = (bodySpans inline items (Position.origin.after pre)).reverse ++ s.spans ∧
      s'.cursor = utf8Length (pre ++ bodyText items) := by
  unfold bodySpans
  by_cases hempty : bodyText items = []
  · rw [hempty, if_pos rfl, List.append_nil]
    exact ⟨rfl, hcursor⟩
  · have hcontent : (bodyScope inline).isContent = true := by cases inline <;> rfl
    rw [pass_linePieces hcursor hopen htext hcontent hempty, if_neg hempty, Position.after_append]
    exact ⟨rfl, rfl⟩

/-- A scanner finds the spans of a segment, and a mark at its end if it is a region. -/
theorem pass_segment {x : Segment} (hx : x.WellFormed) (hcursor : s.cursor = utf8Length pre)
    (hopen : x.isText = true → s.openEnd = none) (htext : text = pre ++ x.print ++ post) :
    let s' := s.pass text pre x.pieces
    s'.spans = (x.spans (Position.origin.after pre)).reverse ++ s.spans ∧
      s'.cursor = utf8Length (pre ++ x.print) ∧ (x.isText = false → s'.openEnd = none) := by
  cases x with
  | text value =>
    have hne : value.toList ≠ [] := fun hnil => hx.1 (String.toList_eq_nil_iff.mp hnil)
    rw [Segment.print] at htext
    rw [Segment.pieces, pass_linePieces hcursor (hopen rfl) htext rfl hne, String.ofList_toList,
      Position.after_append]
    exact ⟨rfl, rfl, fun hisText => by cases hisText⟩
  | region inline items =>
    have hopenMark : openScope inline ≠ .delimiter ∧ (openScope inline).isContent = false := by
      cases inline <;> decide
    have hcloseMark : closeScope inline ≠ .delimiter ∧ (closeScope inline).isContent = false := by
      cases inline <;> decide
    have hfirst : text = pre ++ opener inline ++
        (bodyText items ++ Syntax.default.closer.toList ++ post) := by
      rw [htext, Segment.print]
      simp
    have hbody : text = pre ++ opener inline ++ bodyText items ++
        (Syntax.default.closer.toList ++ post) := by
      rw [hfirst]
      simp
    have hlast : text = pre ++ opener inline ++ bodyText items ++ Syntax.default.closer.toList ++
        post := by
      rw [hbody]
      simp
    have hend : pre ++ (Segment.region inline items).print =
        pre ++ opener inline ++ bodyText items ++ Syntax.default.closer.toList := by
      simp [Segment.print]
    dsimp only
    rw [Segment.pieces, pass_cons, step_mark hfirst hcursor hopenMark.1 hopenMark.2, pass_append,
      flatMap_linePieces]
    obtain ⟨hspans, hcursor⟩ := pass_body inline
      (s := ⟨⟨"", openScope inline, Position.origin.after pre,
        Position.origin.after (pre ++ opener inline)⟩ :: s.spans, none,
        utf8Length (pre ++ opener inline)⟩) rfl rfl hbody
    rw [pass_cons, step_mark hlast hcursor hcloseMark.1 hcloseMark.2, hend, hspans]
    refine ⟨?_, rfl, fun _ => rfl⟩
    simp [pass, rangesFrom, Segment.spans, Position.after_append]

/-- A scanner finds the spans of segments that can be told apart. -/
theorem pass_segments {segments : List Segment} (h : Legible segments)
    (hcursor : s.cursor = utf8Length pre)
    (hopen : ∀ x ∈ segments.head?, x.isText = true → s.openEnd = none)
    (htext : text = pre ++ print segments ++ post) :
    let s' := s.pass text pre (segments.flatMap Segment.pieces)
    s'.spans = (spansFrom (Position.origin.after pre) segments).reverse ++ s.spans ∧
      s'.cursor = utf8Length (pre ++ print segments) := by
  induction segments generalizing pre s with
  | nil =>
    have hnil : pre ++ print [] = pre := List.append_nil pre
    rw [hnil]
    exact ⟨rfl, hcursor⟩
  | cons x segments ih =>
    have hx := h.wellFormed x List.mem_cons_self
    have hprint : print (x :: segments) = x.print ++ print segments := rfl
    have hfirst : text = pre ++ x.print ++ (print segments ++ post) := by
      rw [htext, hprint]
      simp
    obtain ⟨hspans, hcursor, hclosed⟩ := pass_segment hx hcursor
      (fun hisText => hopen x rfl hisText) hfirst
    have hflat : x.pieces.flatMap Piece.text = x.print := by
      cases x with
      | text value => exact flatMap_linePieces _ _
      | region inline items => simp [Segment.pieces, Segment.print, flatMap_linePieces]
    -- behind a text there is no other one, and behind a region no span may grow
    have hnext : ∀ y ∈ segments.head?, y.isText = true →
        (s.pass text pre x.pieces).openEnd = none := by
      intro y hy hisText
      obtain ⟨more, rfl⟩ := List.head?_eq_some_iff.mp hy
      refine hclosed ((List.isChain_cons_cons.mp h.apart).1.resolve_right fun hfalse => ?_)
      cases hisText.symm.trans hfalse
    have hrest := ih ⟨fun y hy => h.wellFormed y (List.mem_cons_of_mem _ hy), h.apart.of_cons⟩
      hcursor hnext (by rw [hfirst]; simp)
    rw [List.flatMap_cons, pass_append, hflat, spansFrom, hprint]
    refine ⟨?_, by rw [hrest.2, List.append_assoc]⟩
    rw [hrest.1, hspans, Position.after_append, List.reverse_append, List.append_assoc]

end Scanner

/-- The spans of a text are those that its pieces leave behind, if these reach to its end. -/
theorem scan_of_pass {text : List Char} {spans : List Span}
    (hspans : (Scanner.start.pass text [] (pieces .default text)).spans = spans.reverse)
    (hcursor : (Scanner.start.pass text [] (pieces .default text)).cursor = utf8Length text) :
    scan Syntax.default.classify (.ofList text) = spans := by
  have hsize : (LineIndex.ofString (.ofList text)).size = utf8Length text :=
    utf8ByteSize_ofList_eq _
  rw [Scanner.pass, utf8Length_nil] at hspans hcursor
  unfold scan scanRanges Scanner.finish Syntax.classify
  rw [String.toList_ofList]
  simp only [hcursor, hsize, Nat.lt_irrefl, if_false, hspans, List.reverse_reverse]

/-- The spans of a text that is written as segments. -/
theorem scan_print {segments : List Segment} (h : Legible segments) :
    scan Syntax.default.classify (.ofList (print segments)) = spansFrom .origin segments := by
  have hwhole : print segments = [] ++ print segments ++ [] := by simp
  obtain ⟨hspans, hcursor⟩ := Scanner.pass_segments (s := .start) h rfl (fun _ _ _ => rfl) hwhole
  have hpieces : pieces .default (print segments) = segments.flatMap Segment.pieces := by
    rw [pieces_default, defaultPieces_print h]
  refine scan_of_pass ?_ ?_
  · rw [hpieces, hspans]
    exact List.append_nil _
  · rw [hpieces, hcursor, List.nil_append]

/-- **Printing and parsing templates round-trips.**  A template that is written as texts and regions
which can be told apart has exactly these nodes, each with its text and in its place, and no
malformed region. -/
theorem ofSpans_scan_print {segments : List Segment} (h : Legible segments) :
    Tree.ofSpans (scan Syntax.default.classify (.ofList (print segments))) =
      ⟨nodesFrom .origin segments, []⟩ := by
  rw [scan_print h, ofSpans_spansFrom]

/-- Two lines of text, a block with a closer in a quoted text, an empty inline region, and a text.
-/
def mixedSegments : List Segment :=
  [.text "a\n<",
    .region false [.char ' ' (by decide), .literal '\'' (by decide)
      [.escaped '\'', .plain '?' (by decide), .plain '>' (by decide)], .char '?' (by decide)],
    .region true [],
    .text "c"]

theorem ofSpans_scan_print_mixed :
    String.ofList (print mixedSegments) = "a\n<<?exp '\\'?>'??><?e=?>c" ∧
    Tree.ofSpans (scan Syntax.default.classify (.ofList (print mixedSegments))) =
      ⟨[.text ⟨⟨0, 0⟩, ⟨1, 1⟩⟩ "a\n<",
        .block ⟨⟨1, 1⟩, ⟨1, 16⟩⟩ [.script ⟨" '\\'?>'?", .block, ⟨1, 6⟩, ⟨1, 14⟩⟩],
        .inlineWrite ⟨⟨1, 16⟩, ⟨1, 22⟩⟩ [],
        .text ⟨⟨1, 22⟩, ⟨1, 23⟩⟩ "c"], []⟩ := by
  have hlegible : Legible mixedSegments := by
    refine ⟨?_, ?_⟩
    · unfold mixedSegments
      decide +kernel
    · unfold mixedSegments
      decide
  refine ⟨by decide +kernel, (ofSpans_scan_print hlegible).trans ?_⟩
  decide +kernel

end Stencil.Template
