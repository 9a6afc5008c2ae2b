import Stencil.Proofs.Template.Copied
import Stencil.Proofs.Text.Search
import Stencil.Template.Syntax

/-! # Plain texts

A text in which no opener of a syntax occurs has no regions.  It is taken apart into its lines,
which follow each other without a gap, so that the scanner puts them together again: the template is
one text, the whole of it.
-/
namespace Stencil.Template

/-! ## Openers -/

/-- No opener of a syntax occurs in a text: where one is written, it runs on into a longer word. -/
def Syntax.IsPlain (s : Syntax) (cs : List Char) : Prop :=
  ∀ opener ∈ s.blockOpeners ++ s.inlineOpeners, opener ≠ "" →
    ∀ before rest, cs = before ++ opener.toList ++ rest → endsWord opener.toList rest = false

theorem Syntax.mem_openers {s : Syntax} {cs : List Char} : cs ∈ s.openers ↔
    ∃ opener ∈ s.blockOpeners ++ s.inlineOpeners, opener ≠ "" ∧ opener.toList = cs := by
  simp only [openers, List.mem_map, List.mem_mergeSort, List.mem_filter, and_assoc]
  simp

theorem openerAt?_eq_none_iff {openers : List (List Char)} {cs : List Char} :
    openerAt? openers cs = none ↔
      ∀ opener ∈ openers, ∀ rest, cs = opener ++ rest → endsWord opener rest = false := by
  unfold openerAt?
  rw [List.findSome?_eq_none_iff]
  refine forall₂_congr fun opener _ => ?_
  cases hstrip : stripStart? opener cs with
  | none =>
    refine iff_of_true rfl fun rest hrest => ?_
    rw [stripStart?_eq_some_iff.mpr hrest] at hstrip
    cases hstrip
  | some rest =>
    obtain rfl := stripStart?_eq_some_iff.mp hstrip
    simp

theorem findOpener?_eq_none_iff {openers : List (List Char)} {before cs : List Char} :
    findOpener? openers before cs = none ↔
      ∀ passed ahead, cs = passed ++ ahead → ahead ≠ [] → openerAt? openers ahead = none := by
  induction cs generalizing before with
  | nil => simp [findOpener?]
  | cons c cs ih =>
    rw [findOpener?]
    cases hopener : openerAt? openers (c :: cs) with
    | some found =>
      refine iff_of_false (by simp) fun h => ?_
      rw [h [] (c :: cs) rfl (List.cons_ne_nil c cs)] at hopener
      cases hopener
    | none =>
      refine ih.trans ⟨fun h passed ahead hsplit hahead => ?_, fun h passed ahead hsplit => ?_⟩
      · cases passed with
        | nil => rwa [← show c :: cs = ahead from hsplit]
        | cons p passed => exact h passed ahead (List.cons.inj hsplit).2 hahead
      · exact h (c :: passed) ahead (congrArg (c :: ·) hsplit)

/-- A text is plain if no opener is found in it. -/
theorem Syntax.isPlain_iff {s : Syntax} {cs : List Char} :
    s.IsPlain cs ↔ findOpener? s.openers [] cs = none := by
  rw [findOpener?_eq_none_iff]
  constructor
  · intro h passed ahead hsplit hahead
    rw [openerAt?_eq_none_iff]
    intro opener hopener rest hrest
    obtain ⟨o, ho, hne, rfl⟩ := mem_openers.mp hopener
    exact h o ho hne passed rest (by rw [hsplit, hrest, List.append_assoc])
  · intro h o ho hne before rest hcs
    have hopener : o.toList ∈ s.openers := mem_openers.mpr ⟨o, ho, hne, rfl⟩
    have hahead : o.toList ++ rest ≠ [] := by simp [hne]
    have hnone := h before (o.toList ++ rest) (by rw [hcs, List.append_assoc]) hahead
    exact openerAt?_eq_none_iff.mp hnone o.toList hopener rest rfl

/-! ## Pieces -/

theorem flatten_splitLines (done cs : List Char) :
    (splitLines done cs).flatten = done.reverse ++ cs := by
  induction cs generalizing done with
  | nil =>
    cases done with
    | nil => rfl
    | cons c done => simp [splitLines]
  | cons c cs ih =>
    rw [splitLines]
    split
    · simp [ih]
    · simp [ih]

/-- The lines of a text make up the text. -/
theorem flatMap_linePieces (scope : Scope) (cs : List Char) :
    (linePieces scope cs).flatMap Piece.text = cs := by
  rw [linePieces, List.flatMap_map, List.flatMap_id']
  exact flatten_splitLines [] cs

/-- A plain text is taken apart into its lines. -/
theorem Syntax.IsPlain.pieces_eq {s : Syntax} {cs : List Char} (h : s.IsPlain cs) :
    pieces s cs = linePieces .text cs := by
  rw [isPlain_iff] at h
  rw [pieces, classifyFrom]
  split
  · rfl
  · rename_i hsome
    rw [h] at hsome
    cases hsome

/-! ## Scanning -/

namespace Scanner

/-- A scanner that has come to a place passes the range of the next piece of the text as a
whole. -/
theorem step_piece {text pre piece post : List Char} {s : Scanner} (scope : Scope)
    (hcursor : s.cursor = utf8Length pre) (htext : text = pre ++ piece ++ post) :
    s.step text (.ofString (.ofList text)) ⟨utf8Length pre, utf8Length (pre ++ piece), scope⟩ =
      { s.addRange text (.ofString (.ofList text)) scope (utf8Length pre)
          (utf8Length (pre ++ piece)) with
        cursor := utf8Length (pre ++ piece) } := by
  have hsize : (LineIndex.ofString (.ofList text)).size = utf8Length text :=
    utf8ByteSize_ofList_eq text
  have hpre : utf8Length pre ≤ utf8Length (pre ++ piece) := by
    rw [utf8Length_append]
    omega
  have hstop : utf8Length (pre ++ piece) ≤ utf8Length text := by
    rw [htext, utf8Length_append (pre ++ piece)]
    omega
  have hstart : min (max (utf8Length pre) (utf8Length pre)) (utf8Length text) = utf8Length pre := by
    omega
  unfold Scanner.step
  simp only [hsize, hcursor, hstart, Nat.min_eq_left hstop, Nat.not_lt.mpr hpre, if_false,
    Nat.lt_irrefl, Nat.max_eq_left hpre]

/-- A piece that is not empty takes up bytes. -/
theorem utf8Length_lt_append {pre piece : List Char} (h : piece ≠ []) :
    utf8Length pre < utf8Length (pre ++ piece) := by
  obtain ⟨c, cs, rfl⟩ := List.exists_cons_of_ne_nil h
  have := c.utf8Size_pos
  rw [utf8Length_append, utf8Length_cons]
  omega

/-- A scanner that has passed the beginning of a text, and found nothing but text there. -/
structure Solid (text pre : List Char) (s : Scanner) : Prop where
  cursor : s.cursor = utf8Length pre
  empty : pre = [] → s.spans = []
  whole : pre ≠ [] → s.openEnd = some (utf8Length pre) ∧
    ∃ start stop, s.spans = [⟨String.ofList pre, .text, start, stop⟩]

theorem solid_start (text : List Char) : Solid text [] .start :=
  ⟨rfl, fun _ => rfl, fun h => absurd rfl h⟩

variable {text pre piece post : List Char} {s : Scanner}

/-- A scanner of a text passes the next piece of it by taking it in, unless it is empty. -/
theorem Solid.step_eq (h : Solid text pre s) (htext : text = pre ++ piece ++ post) :
    s.step text (.ofString (.ofList text)) ⟨utf8Length pre, utf8Length (pre ++ piece), .text⟩ =
      { (if piece = [] then s else s.addContent text (.ofString (.ofList text)) .text
          (utf8Length pre) (utf8Length (pre ++ piece))) with
        cursor := utf8Length (pre ++ piece) } := by
  rw [step_piece .text h.cursor htext, addRange]
  by_cases hpiece : piece = []
  · simp [hpiece, Scope.isContent]
  · simp only [reduceCtorEq, if_false, Scope.isContent, if_true,
      if_pos (utf8Length_lt_append hpiece), if_neg hpiece]

/-- A piece that is not empty makes the one span of a scanner longer, or becomes its first one. -/
theorem Solid.addContent (h : Solid text pre s) (htext : text = pre ++ piece ++ post) :
    let s' := s.addContent text (.ofString (.ofList text)) .text (utf8Length pre)
      (utf8Length (pre ++ piece))
    s'.openEnd = some (utf8Length (pre ++ piece)) ∧
      ∃ start stop, s'.spans = [⟨String.ofList (pre ++ piece), .text, start, stop⟩] := by
  have hslice : slice? text (utf8Length pre) (utf8Length (pre ++ piece)) = some piece := by
    rw [htext, slice?_utf8Length]
  unfold Scanner.addContent
  simp only [hslice, true_and]
  by_cases hpre : pre = []
  · subst hpre
    rw [h.empty rfl]
    exact ⟨_, _, rfl⟩
  · obtain ⟨hopen, start, stop, hspans⟩ := h.whole hpre
    simp [hspans, hopen]

/-- A scanner takes in the piece that follows. -/
theorem Solid.step (h : Solid text pre s) (htext : text = pre ++ piece ++ post) :
    Solid text (pre ++ piece) (s.step text (.ofString (.ofList text))
      ⟨utf8Length pre, utf8Length (pre ++ piece), .text⟩) := by
  rw [h.step_eq htext]
  by_cases hpiece : piece = []
  · subst hpiece
    rw [if_pos rfl, List.append_nil]
    exact ⟨rfl, h.empty, h.whole⟩
  · rw [if_neg hpiece]
    refine ⟨rfl, fun hnil => ?_, fun _ => h.addContent htext⟩
    exact absurd (List.append_eq_nil_iff.mp hnil).2 hpiece

/-- A scanner takes in pieces of text that follow each other without a gap. -/
theorem Solid.foldl {pieces : List Piece} (h : Solid text pre s)
    (hscope : ∀ p ∈ pieces, p.scope = .text)
    (htext : text = pre ++ pieces.flatMap Piece.text ++ post) :
    Solid text (pre ++ pieces.flatMap Piece.text)
      ((rangesFrom (utf8Length pre) pieces).foldl
        (Scanner.step text (.ofString (.ofList text))) s) := by
  induction pieces generalizing pre s with
  | nil => simpa [rangesFrom] using h
  | cons p pieces ih =>
    have hsplit : text = pre ++ p.text ++ (pieces.flatMap Piece.text ++ post) := by
      rw [htext, List.flatMap_cons, List.append_assoc, List.append_assoc, List.append_assoc]
    have hstep := h.step hsplit
    rw [rangesFrom, List.foldl_cons, hscope p List.mem_cons_self, ← utf8Length_append,
      List.flatMap_cons, ← List.append_assoc]
    refine ih hstep (fun q hq => hscope q (List.mem_cons_of_mem p hq)) ?_
    rw [hsplit, List.append_assoc (pre ++ p.text)]

end Scanner

/-- A plain text is one span of text, or none if it is empty. -/
theorem scan_of_isPlain {s : Syntax} {text : String} (h : s.IsPlain text.toList) :
    text = "" ∧ scan s.classify text = [] ∨
      text ≠ "" ∧ ∃ start stop, scan s.classify text = [⟨text, .text, start, stop⟩] := by
  have hscope : ∀ p ∈ linePieces .text text.toList, p.scope = .text := by
    intro p hp
    obtain ⟨line, -, rfl⟩ := List.mem_map.mp hp
    rfl
  have hlines := flatMap_linePieces .text text.toList
  have hranges : s.classify text.toList = rangesFrom 0 (linePieces .text text.toList) := by
    rw [Syntax.classify, h.pieces_eq]
  have hwhole : text.toList = [] ++ (linePieces .text text.toList).flatMap Piece.text ++ [] := by
    simp [hlines]
  have hsolid := (Scanner.solid_start text.toList).foldl hscope hwhole
  rw [List.nil_append, hlines, utf8Length_nil, ← hranges] at hsolid
  have hspans : scan s.classify text = ((s.classify text.toList).foldl
      (Scanner.step text.toList (.ofString (.ofList text.toList))) .start).spans.reverse := by
    have hsize : (LineIndex.ofString (.ofList text.toList)).size = utf8Length text.toList :=
      utf8ByteSize_ofList_eq text.toList
    unfold scan scanRanges Scanner.finish
    simp only [hsolid.cursor, hsize, Nat.lt_irrefl, if_false]
  by_cases hempty : text.toList = []
  · rw [hspans, hsolid.empty hempty]
    exact .inl ⟨String.toList_eq_nil_iff.mp hempty, rfl⟩
  · obtain ⟨-, start, stop, hone⟩ := hsolid.whole hempty
    rw [hspans, hone, String.ofList_toList]
    exact .inr ⟨fun hnil => hempty (String.toList_eq_nil_iff.mpr hnil), start, stop, rfl⟩

/-- A tree that is nothing but a text. -/
def Tree.IsText (tree : Tree) (text : String) : Prop :=
  text = "" ∧ tree.nodes = [] ∨ text ≠ "" ∧ ∃ location, tree.nodes = [.text location text]

/-- **The tree of a plain text is nothing but the text**, all of it. -/
theorem isText_of_isPlain {s : Syntax} {text : String} (h : s.IsPlain text.toList) :
    (Tree.ofSpans (scan s.classify text)).IsText text := by
  rcases scan_of_isPlain h with ⟨hempty, hscan⟩ | ⟨hne, start, stop, hscan⟩
  · rw [hscan]
    exact .inl ⟨hempty, rfl⟩
  · rw [hscan]
    exact .inr ⟨hne, ⟨start, stop⟩, rfl⟩

end Stencil.Template
