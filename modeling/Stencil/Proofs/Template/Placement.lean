import Mathlib.Data.List.Pairwise
import Stencil.Proofs.Template.Plain
import Stencil.Proofs.Text.Mark

/-! # Where directives stand

The pieces that a syntax takes a text apart into make up the text, and what opens a region or a
directive is not empty.  So the scanner finds the spans one behind the other, and the place where a
directive begins is its own: no other node begins there, and no copied character stands there.  A
classifier of another kind may report ranges that are empty, and has no such law.
-/
namespace Stencil.Template

/-! ## The pieces of a text make up the text -/

theorem readArguments_append (closer : List Char) (quoting : Quoting) (depth : Nat)
    (done cs : List Char) :
    let l := readArguments closer quoting depth done cs
    l.text ++ (if l.closed then [')'] else []) ++ l.rest = done.reverse ++ cs := by
  induction cs generalizing quoting depth done with
  | nil => simp [readArguments]
  | cons c cs ih =>
    rw [readArguments]
    split
    · split
      · simp
      · split
        · rename_i hclose
          obtain ⟨rfl, -⟩ : c = ')' ∧ depth = 0 := by simpa using hclose
          simp
        · exact (ih _ _ _).trans (by simp)
    · exact (ih _ _ _).trans (by simp)

theorem includeHead?_append {keyword cs head rest : List Char} {before : Option Char}
    (h : includeHead? keyword before cs = some (head, rest)) : head ≠ [] ∧ cs = head ++ rest := by
  unfold includeHead? at h
  split at h
  · cases h
  · split at h
    · cases h
    · rename_i behind hbehind
      obtain rfl := stripStart?_eq_some_iff.mp hbehind
      simp only at h
      split at h
      · rename_i rest' hrest
        obtain ⟨rfl, rfl⟩ := Prod.mk.inj (Option.some.inj h)
        have hsplit := List.takeWhile_append_dropWhile (p := fun c => c == ' ' || c == '\t')
          (l := behind)
        rw [hrest] at hsplit
        refine ⟨by simp, ?_⟩
        simpa using hsplit.symm
      · cases h

/-- What is read of a directive, and what is left, make up the text. -/
theorem readDirective_append (closer head : List Char) (scope : Scope) (inner : List Char) :
    let d := readDirective closer head scope inner
    d.pieces.flatMap Piece.text ++ d.rest = head ++ inner := by
  have hread := readArguments_append closer .outside 0 [] inner
  unfold readDirective
  generalize readArguments closer .outside 0 [] inner = list at hread ⊢
  obtain ⟨text, closed, rest⟩ := list
  simp only [List.reverse_nil, List.nil_append] at hread ⊢
  split
  · rename_i hopen
    obtain rfl : closed = false := by simpa using hopen
    simpa [flatMap_linePieces] using hread
  · rename_i hclosed
    obtain rfl : closed = true := by simpa using hclosed
    split
    · rename_i hsemicolon
      obtain ⟨more, rfl⟩ := List.head?_eq_some_iff.mp hsemicolon
      simpa [flatMap_linePieces] using hread
    · simpa [flatMap_linePieces] using hread

/-- What is read of a region, with its closer and what stands behind it, makes up the text. -/
theorem readBody_append (s : Syntax) (scope : Scope) (includes : Bool) (before : Option Char)
    (quoting : Quoting) (chunk cs : List Char) :
    let body := readBody s scope includes before quoting chunk cs
    body.pieces.flatMap Piece.text ++
        (body.rest?.elim [] fun behind => s.closer.toList ++ behind) = chunk.reverse ++ cs := by
  fun_induction readBody s scope includes before quoting chunk cs with
  | case1 => simp [flatMap_linePieces]
  | case2 before quoting chunk c rest hquoting ih => exact ih.trans (by simp)
  | case3 before quoting chunk c rest hquoting behind hclose =>
    rw [stripStart?_eq_some_iff] at hclose
    simp [flatMap_linePieces, hclose]
  | case4 before quoting chunk c rest hquoting hclose hplain ih => exact ih.trans (by simp)
  | case5 before quoting chunk c rest hquoting hclose hplain hhead ih => exact ih.trans (by simp)
  | case6 before quoting chunk c rest hquoting hclose hplain head inner hhead d more ih =>
    have hdirective := readDirective_append s.closer.toList head scope inner
    obtain ⟨-, hsplit⟩ := includeHead?_append hhead
    simp only [List.flatMap_append, flatMap_linePieces]
    rw [hsplit, ← hdirective, List.append_assoc, ← List.append_assoc chunk.reverse]
    exact congrArg (chunk.reverse ++ d.pieces.flatMap Piece.text ++ ·) ih

theorem openerAt?_append {openers : List (List Char)} {cs opener rest : List Char}
    (h : openerAt? openers cs = some (opener, rest)) : cs = opener ++ rest := by
  obtain ⟨o, -, ho⟩ := List.exists_of_findSome?_eq_some h
  split at ho
  · rename_i behind hbehind
    split at ho
    · obtain ⟨rfl, rfl⟩ := Prod.mk.inj (Option.some.inj ho)
      exact stripStart?_eq_some_iff.mp hbehind
    · cases ho
  · cases ho

theorem findOpener?_append {openers : List (List Char)} {before cs b opener rest : List Char}
    (h : findOpener? openers before cs = some (b, opener, rest)) :
    b ++ opener ++ rest = before.reverse ++ cs := by
  induction cs generalizing before with
  | nil => cases h
  | cons c cs ih =>
    rw [findOpener?] at h
    split at h
    · rename_i opener' rest' hopener
      simp only [Option.some.injEq, Prod.mk.injEq] at h
      obtain ⟨rfl, rfl, rfl⟩ := h
      rw [openerAt?_append hopener, List.append_assoc]
    · exact (ih h).trans (by simp)

/-- **The pieces of a text make up the text.** -/
theorem flatMap_classifyFrom (s : Syntax) (openers : List (List Char))
    (hne : ∀ o ∈ openers, o ≠ []) (cs : List Char) :
    (classifyFrom s openers hne cs).flatMap Piece.text = cs := by
  fun_induction classifyFrom s openers hne cs with
  | case1 cs hnone => exact flatMap_linePieces .text cs
  | case2 cs before opener inner hopener inline body region hrest =>
    have hbody : body.pieces.flatMap Piece.text ++ _ = inner := readBody_append s _ _ _ _ _ _
    have hsplit : before ++ opener ++ inner = cs := findOpener?_append hopener
    rw [hrest, Option.elim_none, List.append_nil] at hbody
    rw [List.flatMap_append, flatMap_linePieces, List.flatMap_cons, hbody, ← List.append_assoc]
    exact hsplit
  | case3 cs before opener inner hopener inline body region behind hrest ih =>
    have hbody : body.pieces.flatMap Piece.text ++ _ = inner := readBody_append s _ _ _ _ _ _
    have hsplit : before ++ opener ++ inner = cs := findOpener?_append hopener
    rw [hrest, Option.elim_some] at hbody
    rw [List.flatMap_append, List.flatMap_append, flatMap_linePieces, List.flatMap_cons,
      List.flatMap_cons, ih, ← hsplit, ← hbody]
    simp

/-- The parts of a text that an opener is found in. -/
theorem classifyFrom_of_some {s : Syntax} {openers : List (List Char)}
    {hne : ∀ o ∈ openers, o ≠ []} {cs before opener inner : List Char}
    (h : findOpener? openers [] cs = some (before, opener, inner)) {body : Body}
    (hbody : readBody s (if s.isInline opener then .inlineWrite else .block)
      (!s.isInline opener) opener.getLast? .outside [] inner = body) :
    classifyFrom s openers hne cs = linePieces .text before ++
      ⟨if s.isInline opener then .inlineOpen else .blockOpen, opener⟩ :: body.pieces ++
        (match body.rest? with
        | none => []
        | some behind => ⟨if s.isInline opener then .inlineClose else .blockClose,
            s.closer.toList⟩ :: classifyFrom s openers hne behind) := by
  fun_cases classifyFrom s openers hne cs with
  | case1 hnone =>
    rw [h] at hnone
    cases hnone
  | case2 _ _ _ hsome _ _ _ hrest =>
    obtain ⟨rfl, rfl, rfl⟩ : before = _ ∧ opener = _ ∧ inner = _ := by simpa [h] using hsome
    subst hbody
    rw [hrest]
    exact (List.append_nil _).symm
  | case3 _ _ _ hsome _ _ _ behind hrest =>
    obtain ⟨rfl, rfl, rfl⟩ : before = _ ∧ opener = _ ∧ inner = _ := by simpa [h] using hsome
    subst hbody
    rw [hrest]

theorem flatMap_pieces (s : Syntax) (cs : List Char) : (pieces s cs).flatMap Piece.text = cs :=
  flatMap_classifyFrom s _ _ cs

/-! ## What opens is not empty -/

/-- A scope that begins a region or a directive. -/
def Scope.opens : Scope → Bool
  | blockOpen | inlineOpen | includeBegin => true
  | _ => false

/-- A piece that begins a region or a directive is not empty. -/
def Piece.Solid (p : Piece) : Prop := p.scope.opens = true → p.text ≠ []

theorem solid_of_mem_linePieces {scope : Scope} (h : scope.opens = false) {cs : List Char} :
    ∀ p ∈ linePieces scope cs, p.Solid := by
  intro p hp hopens
  obtain ⟨line, -, rfl⟩ := List.mem_map.mp hp
  rw [h] at hopens
  cases hopens

theorem solid_of_mem_readBody {s : Syntax} {scope : Scope} (hscope : scope.opens = false)
    (includes : Bool) (before : Option Char) (quoting : Quoting) (chunk cs : List Char) :
    ∀ p ∈ (readBody s scope includes before quoting chunk cs).pieces, p.Solid := by
  fun_induction readBody s scope includes before quoting chunk cs with
  | case1 => exact solid_of_mem_linePieces hscope
  | case2 before quoting chunk c rest hquoting ih => exact ih
  | case3 before quoting chunk c rest hquoting behind hclose =>
    exact solid_of_mem_linePieces hscope
  | case4 before quoting chunk c rest hquoting hclose hplain ih => exact ih
  | case5 before quoting chunk c rest hquoting hclose hplain hhead ih => exact ih
  | case6 before quoting chunk c rest hquoting hclose hplain head inner hhead d more ih =>
    have hdirective : ∀ p ∈ d.pieces, p.Solid := by
      have hbegin : (⟨.includeBegin, head⟩ : Piece).Solid := fun _ => (includeHead?_append hhead).1
      have harguments : ∀ p ∈ linePieces scope
          (readArguments s.closer.toList .outside 0 [] inner).text, p.Solid :=
        solid_of_mem_linePieces hscope
      have hend : ∀ p ∈ [⟨.includeEnd, [')']⟩, (⟨.delimiter, [';']⟩ : Piece)], p.Solid := by
        simp [Piece.Solid, Scope.opens]
      unfold d readDirective
      simp only
      split
      · exact List.forall_mem_cons.mpr ⟨hbegin, harguments⟩
      · split
        · exact List.forall_mem_append.mpr ⟨List.forall_mem_cons.mpr ⟨hbegin, harguments⟩, hend⟩
        · refine List.forall_mem_append.mpr ⟨List.forall_mem_cons.mpr ⟨hbegin, harguments⟩, ?_⟩
          exact fun p hp => hend p (List.mem_of_mem_take (i := 1) hp)
    simp only [List.forall_mem_append]
    exact ⟨⟨solid_of_mem_linePieces hscope, hdirective⟩, ih⟩

/-- The opener of a region and what stands in the region are solid. -/
theorem solid_of_mem_region {s : Syntax} {openers : List (List Char)}
    (hne : ∀ o ∈ openers, o ≠ []) {cs before opener inner : List Char}
    (hopener : findOpener? openers [] cs = some (before, opener, inner)) (inline : Bool) :
    ∀ p ∈ (⟨if inline then .inlineOpen else .blockOpen, opener⟩ : Piece) ::
      (readBody s (if inline then .inlineWrite else .block) (!inline) opener.getLast? .outside []
        inner).pieces, p.Solid := by
  have hscope : Scope.opens (if inline then .inlineWrite else .block) = false := by
    cases inline <;> rfl
  refine List.forall_mem_cons.mpr ⟨fun _ => ?_, solid_of_mem_readBody hscope _ _ _ _ _⟩
  exact hne opener (findOpener?_length hopener).1

theorem solid_of_mem_classifyFrom {s : Syntax} {openers : List (List Char)}
    (hne : ∀ o ∈ openers, o ≠ []) (cs : List Char) :
    ∀ p ∈ classifyFrom s openers hne cs, p.Solid := by
  fun_induction classifyFrom s openers hne cs with
  | case1 cs hnone => exact solid_of_mem_linePieces rfl
  | case2 cs before opener inner hopener inline body region hrest =>
    exact List.forall_mem_append.mpr
      ⟨solid_of_mem_linePieces rfl, solid_of_mem_region hne hopener inline⟩
  | case3 cs before opener inner hopener inline body region behind hrest ih =>
    have hclose : Piece.Solid
        ⟨if inline then .inlineClose else .blockClose, s.closer.toList⟩ := by
      have hscope : Scope.opens (if inline then .inlineClose else .blockClose) = false := by
        split <;> rfl
      exact fun hopens => by cases hscope.symm.trans hopens
    exact List.forall_mem_append.mpr ⟨List.forall_mem_append.mpr
      ⟨solid_of_mem_linePieces rfl, solid_of_mem_region hne hopener inline⟩,
      List.forall_mem_cons.mpr ⟨hclose, ih⟩⟩

/-- No piece of a text that begins a region or a directive is empty. -/
theorem solid_of_mem_pieces (s : Syntax) (cs : List Char) : ∀ p ∈ pieces s cs, p.Solid :=
  solid_of_mem_classifyFrom _ cs

/-! ## Scanning -/

/-- A span that does not end before it begins. Content takes up its own text, and what begins a
region or a directive is not empty. -/
structure Span.Fits (x : Span) : Prop where
  forward : x.start.mark.upTo x.stop.mark = true
  solid : x.scope.opens = true → x.start.mark.before x.stop.mark = true
  content : x.scope.isContent = true → x.value.toList ≠ [] ∧ x.stop = x.start.after x.value.toList

/-- Spans that stand one behind the other. -/
structure InOrder (spans : List Span) : Prop where
  fits : ∀ x ∈ spans, x.Fits
  sorted : spans.Pairwise fun a b => a.stop.mark.upTo b.start.mark = true

namespace Scanner

/-- A scanner that has passed the beginning `pre` of a text, and whose spans stand one behind the
other, the last one first. -/
structure Orderly (pre : List Char) (s : Scanner) : Prop where
  cursor : s.cursor = utf8Length pre
  fits : ∀ x ∈ s.spans, x.Fits
  sorted : s.spans.Pairwise fun a b => b.stop.mark.upTo a.start.mark = true
  bounded : ∀ x ∈ s.spans, x.stop.mark.upTo (Position.origin.after pre).mark = true
  grows : ∀ stop, s.openEnd = some stop →
    ∃ last rest, s.spans = last :: rest ∧ last.stop = Position.origin.after pre

theorem orderly_start : Orderly [] .start :=
  ⟨rfl, by simp [start], by simp [start], by simp [start], fun stop h => by cases h⟩

variable {text pre piece post : List Char} {s : Scanner}

theorem upTo_mark_after (p : Position) (cs : List Char) :
    p.mark.upTo (p.after cs).mark = true := by
  rw [Position.mark_after]
  exact Mark.upTo_after _ _

theorem before_mark_after (p : Position) {cs : List Char} (h : cs ≠ []) :
    p.mark.before (p.after cs).mark = true := by
  obtain ⟨c, cs, rfl⟩ := List.exists_cons_of_ne_nil h
  rw [Position.mark_after, Mark.after_cons]
  exact Mark.before_of_before_of_upTo (Mark.before_advance _ c) (Mark.upTo_after _ cs)

/-- All spans so far end at or before the place behind more text. -/
theorem Orderly.bounded_append (h : Orderly pre s) (piece : List Char) :
    ∀ x ∈ s.spans, x.stop.mark.upTo (Position.origin.after (pre ++ piece)).mark = true := by
  intro x hx
  rw [Position.after_append]
  exact Mark.upTo_trans (h.bounded x hx) (upTo_mark_after _ piece)

/-- A span of the next piece of the text stands behind all others. -/
theorem Orderly.cons (h : Orderly pre s) {x : Span} (hx : x.Fits)
    (hstart : x.start = Position.origin.after pre)
    (hstop : x.stop = Position.origin.after (pre ++ piece)) {openEnd : Option Nat} :
    Orderly (pre ++ piece) ⟨x :: s.spans, openEnd, utf8Length (pre ++ piece)⟩ where
  cursor := rfl
  fits := List.forall_mem_cons.mpr ⟨hx, h.fits⟩
  sorted := List.pairwise_cons.mpr ⟨fun y hy => hstart ▸ h.bounded y hy, h.sorted⟩
  bounded := List.forall_mem_cons.mpr ⟨hstop ▸ Mark.upTo_refl _, h.bounded_append piece⟩
  grows _ _ := ⟨x, s.spans, rfl, hstop⟩

/-- Content that follows is a span of its own, or makes the last one longer. -/
theorem Orderly.addContent (h : Orderly pre s) {scope : Scope} (hscope : scope.isContent = true)
    (hopens : scope.opens = false) (htext : text = pre ++ piece ++ post) (hpiece : piece ≠ []) :
    Orderly (pre ++ piece) { s.addContent text (.ofString (.ofList text)) scope (utf8Length pre)
      (utf8Length (pre ++ piece)) with cursor := utf8Length (pre ++ piece) } := by
  have hslice : slice? text (utf8Length pre) (utf8Length (pre ++ piece)) = some piece := by
    rw [htext, slice?_utf8Length]
  have hstart : (LineIndex.ofString (.ofList text)).position (utf8Length pre) =
      Position.origin.after pre :=
    position_of_append pre (piece ++ post) (by rw [htext, List.append_assoc])
  have hstop : (LineIndex.ofString (.ofList text)).position (utf8Length (pre ++ piece)) =
      Position.origin.after (pre ++ piece) :=
    position_of_append (pre ++ piece) post htext
  let span := spanOf (.ofString (.ofList text)) (String.ofList piece) scope (utf8Length pre)
    (utf8Length (pre ++ piece))
  have hspan : span.Fits := by
    refine ⟨?_, fun hsolid => ?_, fun _ => ⟨by simpa [span, spanOf] using hpiece, ?_⟩⟩
    · rw [show span.start = _ from hstart, show span.stop = _ from hstop, Position.after_append]
      exact upTo_mark_after _ piece
    · cases hopens.symm.trans hsolid
    · rw [show span.start = _ from hstart, show span.stop = _ from hstop, Position.after_append]
      exact congrArg _ String.toList_ofList.symm
  have hnew : Orderly (pre ++ piece)
      ⟨span :: s.spans, some (utf8Length (pre ++ piece)), utf8Length (pre ++ piece)⟩ :=
    h.cons hspan hstart hstop
  unfold Scanner.addContent
  simp only [hslice]
  split
  · rename_i last rest hspans
    split
    · -- the last span ends where the piece begins, and ends behind the piece now
      rename_i hgrow
      obtain ⟨hopen, rfl⟩ : s.openEnd = some (utf8Length pre) ∧ last.scope = scope := by
        simpa using hgrow
      obtain ⟨last', rest', hspans', hend⟩ := h.grows _ hopen
      obtain ⟨rfl, rfl⟩ := List.cons.inj (hspans.symm.trans hspans')
      have hlast := h.fits last (hspans ▸ List.mem_cons_self)
      obtain ⟨hvalue, hafter⟩ := hlast.content hscope
      have hall := h.fits
      have hsorted := h.sorted
      have hbounded := h.bounded_append piece
      rw [hspans] at hall hsorted hbounded
      have hgrown : ({ last with
          value := last.value ++ String.ofList piece
          stop := Position.origin.after (pre ++ piece) } : Span).Fits := by
        refine ⟨?_, fun hsolid => ?_, fun _ => ⟨by simp [hpiece], ?_⟩⟩
        · show last.start.mark.upTo (Position.origin.after (pre ++ piece)).mark = true
          rw [Position.after_append, ← hend]
          exact Mark.upTo_trans hlast.forward (upTo_mark_after _ piece)
        · cases hopens.symm.trans hsolid
        · rw [Position.after_append, ← hend, hafter]
          simp [Position.after_append]
      rw [hstop]
      refine ⟨rfl, List.forall_mem_cons.mpr ⟨hgrown, (List.forall_mem_cons.mp hall).2⟩, ?_, ?_, ?_⟩
      · exact List.pairwise_cons.mpr (List.pairwise_cons.mp hsorted)
      · exact List.forall_mem_cons.mpr ⟨Mark.upTo_refl _, (List.forall_mem_cons.mp hbounded).2⟩
      · exact fun _ _ => ⟨_, _, rfl, rfl⟩
    · exact hnew
  · rename_i hspans
    rw [hspans] at hnew
    exact hnew

/-- A scanner passes the next piece of the text. -/
theorem Orderly.step (h : Orderly pre s) {scope : Scope}
    (hsolid : scope.opens = true → piece ≠ []) (htext : text = pre ++ piece ++ post) :
    Orderly (pre ++ piece) (s.step text (.ofString (.ofList text))
      ⟨utf8Length pre, utf8Length (pre ++ piece), scope⟩) := by
  rw [step_piece scope h.cursor htext, addRange]
  -- what is left out leaves the spans alone
  have hpassed {openEnd : Option Nat} (hopen : piece ≠ [] → openEnd = none)
      (hkept : openEnd = none ∨ openEnd = s.openEnd) :
      Orderly (pre ++ piece) ⟨s.spans, openEnd, utf8Length (pre ++ piece)⟩ := by
    refine ⟨rfl, h.fits, h.sorted, h.bounded_append piece, fun stop hstop => ?_⟩
    by_cases hpiece : piece = []
    · subst hpiece
      rw [List.append_nil]
      rcases hkept with rfl | rfl
      · cases hstop
      · exact h.grows stop hstop
    · cases (hopen hpiece).symm.trans hstop
  by_cases hdelimiter : scope = .delimiter
  · rw [if_pos hdelimiter]
    exact hpassed (fun _ => rfl) (.inl rfl)
  rw [if_neg hdelimiter]
  by_cases hcontent : scope.isContent = true
  · rw [if_pos hcontent]
    by_cases hpiece : piece = []
    · subst hpiece
      have hkept : Orderly (pre ++ []) ⟨s.spans, s.openEnd, utf8Length (pre ++ [])⟩ :=
        hpassed (fun hne => absurd rfl hne) (.inr rfl)
      rw [List.append_nil] at hkept ⊢
      rwa [if_neg (Nat.lt_irrefl _)]
    · rw [if_pos (utf8Length_lt_append hpiece)]
      exact h.addContent hcontent (by cases scope <;> first | rfl | cases hcontent) htext hpiece
  · rw [if_neg hcontent, addBoundary]
    have hstart : (LineIndex.ofString (.ofList text)).position (utf8Length pre) =
        Position.origin.after pre :=
      position_of_append pre (piece ++ post) (by rw [htext, List.append_assoc])
    have hstop : (LineIndex.ofString (.ofList text)).position (utf8Length (pre ++ piece)) =
        Position.origin.after (pre ++ piece) :=
      position_of_append (pre ++ piece) post htext
    refine h.cons ⟨?_, fun hopens => ?_, fun hscope => absurd hscope hcontent⟩ hstart hstop
    · rw [spanOf, hstart, hstop, Position.after_append]
      exact upTo_mark_after _ piece
    · rw [spanOf, hstart, hstop, Position.after_append]
      exact before_mark_after _ (hsolid hopens)

/-- A scanner passes pieces of the text that follow each other without a gap. -/
theorem Orderly.foldl {pieces : List Piece} (h : Orderly pre s) (hsolid : ∀ p ∈ pieces, p.Solid)
    (htext : text = pre ++ pieces.flatMap Piece.text ++ post) :
    Orderly (pre ++ pieces.flatMap Piece.text) ((rangesFrom (utf8Length pre) pieces).foldl
      (Scanner.step text (.ofString (.ofList text))) s) := by
  induction pieces generalizing pre s with
  | nil => simpa [rangesFrom] using h
  | cons p pieces ih =>
    have hsplit : text = pre ++ p.text ++ (pieces.flatMap Piece.text ++ post) := by
      rw [htext, List.flatMap_cons]
      simp only [List.append_assoc]
    have hstep := h.step (hsolid p List.mem_cons_self) hsplit
    rw [rangesFrom, List.foldl_cons, ← utf8Length_append, List.flatMap_cons, ← List.append_assoc]
    refine ih hstep (fun q hq => hsolid q (List.mem_cons_of_mem p hq)) ?_
    rw [hsplit, List.append_assoc (pre ++ p.text)]

end Scanner

/-- **The spans of a text stand one behind the other**, if a syntax takes it apart. -/
theorem inOrder_scan (s : Syntax) (text : String) : InOrder (scan s.classify text) := by
  have hwhole : text.toList = [] ++ (pieces s text.toList).flatMap Piece.text ++ [] := by
    simp [flatMap_pieces]
  have horderly := Scanner.orderly_start.foldl (solid_of_mem_pieces s text.toList) hwhole
  rw [List.nil_append, flatMap_pieces, utf8Length_nil] at horderly
  have hsize : (LineIndex.ofString (.ofList text.toList)).size = utf8Length text.toList :=
    utf8ByteSize_ofList_eq text.toList
  have hspans : scan s.classify text = ((s.classify text.toList).foldl
      (Scanner.step text.toList (.ofString (.ofList text.toList))) .start).spans.reverse := by
    unfold scan scanRanges Scanner.finish Syntax.classify
    simp only [horderly.cursor, hsize, Nat.lt_irrefl, if_false]
  rw [hspans]
  refine ⟨fun x hx => horderly.fits x (List.mem_reverse.mp hx), ?_⟩
  exact List.pairwise_reverse.mpr horderly.sorted

/-! ## Building trees -/

/-- Directives begin where `directive` says, and all other nodes where `other` says. -/
def Node.Begins (directive other : Position → Prop) : Node → Prop
  | .text location _ | .inlineWrite location _ => other location.start
  | .block location parts =>
    other location.start ∧ ∀ i, .inclusion i ∈ parts → directive i.location.start
  | .inclusion i => directive i.location.start

/-- The same of a region that is still open. -/
def OpenRegion.Begins (directive other : Position → Prop) : OpenRegion → Prop
  | .block start parts => other start ∧ ∀ i, .inclusion i ∈ parts → directive i.location.start
  | .inlineWrite start _ => other start

namespace Builder

/-- All nodes of a builder, and those to come of what is open, begin where they may. -/
structure Begins (directive other : Position → Prop) (b : Builder) : Prop where
  nodes : ∀ n ∈ b.nodes, n.Begins directive other
  region : ∀ r, b.region = some r → r.Begins directive other
  inclusion : ∀ i, b.inclusion = some i → directive i.start

/-- A span may begin what it begins. -/
def Admits (directive other : Position → Prop) (s : Span) : Prop :=
  if s.scope = .includeBegin then directive s.start
  else s.scope.opens = true ∨ s.scope.isContent = true → other s.start

variable {directive other : Position → Prop} {b : Builder}

theorem Begins.report (hb : Begins directive other b) (kind : RegionKind) (start : Position) :
    Begins directive other (b.report kind start) := ⟨hb.nodes, hb.region, hb.inclusion⟩

theorem Begins.endInclusion (hb : Begins directive other b) {i : OpenInclusion}
    (hi : directive i.start) (stop : Position) :
    Begins directive other (b.endInclusion i stop) := by
  unfold Builder.endInclusion
  simp only
  split
  · rename_i start parts hregion
    obtain ⟨hstart, hparts⟩ := hb.region _ hregion
    refine ⟨hb.nodes, fun r hr => ?_, by simp⟩
    obtain rfl := Option.some.inj hr
    refine ⟨hstart, fun j hj => ?_⟩
    rcases List.mem_cons.mp hj with hj | hj
    · obtain rfl := BlockPart.inclusion.inj hj
      exact hi
    · exact hparts j hj
  · exact ⟨List.forall_mem_cons.mpr ⟨hi, hb.nodes⟩, hb.region, fun _ h => nomatch h⟩

theorem Begins.endRegion (hb : Begins directive other b) {region : OpenRegion}
    (hr : region.Begins directive other) (stop : Position) :
    Begins directive other (b.endRegion region stop) := by
  unfold Builder.endRegion
  cases region with
  | block start parts =>
    refine ⟨List.forall_mem_cons.mpr ⟨⟨hr.1, fun i hi => ?_⟩, hb.nodes⟩,
      (fun _ h => nomatch h), hb.inclusion⟩
    exact hr.2 i (List.mem_reverse.mp hi)
  | inlineWrite start children =>
    exact ⟨List.forall_mem_cons.mpr ⟨hr, hb.nodes⟩, (fun _ h => nomatch h), hb.inclusion⟩

/-- An open region is another one now. -/
theorem Begins.withRegion (hb : Begins directive other b) {region : OpenRegion}
    (hr : region.Begins directive other) :
    Begins directive other { b with region := some region } :=
  ⟨hb.nodes, fun _ h => Option.some.inj h ▸ hr, hb.inclusion⟩

/-- A directive begins. -/
theorem Begins.withInclusion (hb : Begins directive other b) {i : OpenInclusion}
    (hi : directive i.start) : Begins directive other { b with inclusion := some i } :=
  ⟨hb.nodes, hb.region, fun _ h => Option.some.inj h ▸ hi⟩

theorem Begins.stepRegion (hb : Begins directive other b) {s : Span}
    (hs : Admits directive other s) : Begins directive other (b.stepRegion s) := by
  have hdirective (hscope : s.scope = .includeBegin) : directive s.start := by
    rwa [Admits, if_pos hscope] at hs
  have hother (hscope : s.scope ≠ .includeBegin)
      (hbegins : s.scope.opens = true ∨ s.scope.isContent = true) : other s.start := by
    rw [Admits, if_neg hscope] at hs
    exact hs hbegins
  unfold Builder.stepRegion
  split
  · unfold Builder.stepOutside
    split
    · rename_i hscope
      have hopened : (OpenRegion.block s.start []).Begins directive other :=
        ⟨hother (by simp [hscope]) (.inl (by simp [hscope, Scope.opens])), by simp⟩
      exact hb.withRegion hopened
    · rename_i hscope
      have hopened : (OpenRegion.inlineWrite s.start []).Begins directive other :=
        hother (by simp [hscope]) (.inl (by simp [hscope, Scope.opens]))
      exact hb.withRegion hopened
    · rename_i hscope
      exact hb.withInclusion (hdirective hscope)
    · rename_i hinclude
      split
      · rename_i hcontent
        exact ⟨List.forall_mem_cons.mpr ⟨hother hinclude (.inr hcontent), hb.nodes⟩, hb.region,
          hb.inclusion⟩
      · exact hb
  · rename_i start parts hregion
    obtain ⟨hstart, hparts⟩ := hb.region _ hregion
    unfold Builder.stepBlock
    split
    · exact hb.endRegion (hb.region _ hregion) _
    · rename_i hscope
      exact hb.withInclusion (hdirective hscope)
    · split
      · have hkept : (OpenRegion.block start (.script s :: parts)).Begins directive other :=
          ⟨hstart, fun i hi => hparts i ((List.mem_cons.mp hi).resolve_left (by simp))⟩
        exact hb.withRegion hkept
      · exact hb
  · rename_i start children hregion
    have hstart := hb.region _ hregion
    unfold Builder.stepInline
    split
    · exact hb.endRegion hstart _
    · split
      · have hkept : (OpenRegion.inlineWrite start (s :: children)).Begins directive other := hstart
        exact hb.withRegion hkept
      · exact hb

theorem Begins.step (hb : Begins directive other b) {s : Span} (hs : Admits directive other s) :
    Begins directive other (b.step s) := by
  unfold Builder.step
  split
  · exact hb.stepRegion hs
  · rename_i i hopen
    have hi := hb.inclusion i hopen
    split
    · exact hb.endInclusion hi _
    · exact ((hb.report _ _).endInclusion hi _).stepRegion hs
    · split
      · exact hb.withInclusion hi
      · exact hb

theorem Begins.finish (hb : Begins directive other b) (stop : Position) :
    Begins directive other (b.finish stop) := by
  unfold Builder.finish
  extract_lets closed
  have hclosed : Begins directive other closed := by
    unfold closed
    split
    · rename_i i hopen
      exact (hb.report _ _).endInclusion (hb.inclusion i hopen) _
    · exact hb
  split
  · rename_i hregion
    exact (hclosed.report _ _).endRegion (hclosed.region _ hregion) _
  · rename_i hregion
    exact (hclosed.report _ _).endRegion (hclosed.region _ hregion) _
  · exact hclosed

theorem Begins.foldl (hb : Begins directive other b) {spans : List Span}
    (hs : ∀ s ∈ spans, Admits directive other s) :
    Begins directive other (spans.foldl Builder.step b) := by
  induction spans generalizing b with
  | nil => exact hb
  | cons s spans ih =>
    exact ih (hb.step (hs s List.mem_cons_self)) fun x hx => hs x (List.mem_cons_of_mem _ hx)

end Builder

/-- The nodes of a tree begin where spans do: a directive where one begins a directive, any other
node where one begins a region or is content. -/
theorem Tree.begins_ofSpans (spans : List Span) : ∀ n ∈ (Tree.ofSpans spans).nodes,
    n.Begins (fun p => ∃ s ∈ spans, s.scope = .includeBegin ∧ s.start = p)
      fun p => ∃ s ∈ spans, s.scope ≠ .includeBegin ∧
        (s.scope.opens = true ∨ s.scope.isContent = true) ∧ s.start = p := by
  have hspans : ∀ s ∈ spans, Builder.Admits
      (fun p => ∃ s ∈ spans, s.scope = .includeBegin ∧ s.start = p)
      (fun p => ∃ s ∈ spans, s.scope ≠ .includeBegin ∧
        (s.scope.opens = true ∨ s.scope.isContent = true) ∧ s.start = p) s := by
    intro s hs
    unfold Builder.Admits
    split
    · rename_i hscope
      exact ⟨s, hs, hscope, rfl⟩
    · rename_i hscope
      exact fun hbegins => ⟨s, hs, hscope, hbegins, rfl⟩
  have hstart : Builder.Begins (fun p => ∃ s ∈ spans, s.scope = .includeBegin ∧ s.start = p)
      (fun p => ∃ s ∈ spans, s.scope ≠ .includeBegin ∧
        (s.scope.opens = true ∨ s.scope.isContent = true) ∧ s.start = p) .start :=
    ⟨by simp [Builder.start], by simp [Builder.start], by simp [Builder.start]⟩
  intro n hn
  exact ((hstart.foldl hspans).finish _).nodes n (by simpa [Tree.ofSpans] using hn)

/-! ## The places of directives -/

/-- A node that does not begin at one of the reserved places, unless it is a directive, and copies
no character that stands at one. -/
structure Node.Avoids (reserved : Mark → Prop) (n : Node) : Prop where
  begins : (∀ i, n ≠ .inclusion i) → ¬ reserved n.location.start.mark
  copies : ∀ s ∈ n.spans, ∀ m ∈ s.start.mark.along s.value.toList, ¬ reserved m

/-- A directive begins at a place. -/
def BeginsDirective (spans : List Span) (m : Mark) : Prop :=
  ∃ s ∈ spans, s.scope = .includeBegin ∧ s.start.mark = m

namespace InOrder

variable {spans : List Span}

/-- Of two spans one ends before the other one begins. -/
theorem upTo_or_upTo (h : InOrder spans) {a b : Span} (ha : a ∈ spans) (hb : b ∈ spans)
    (hne : a ≠ b) :
    a.stop.mark.upTo b.start.mark = true ∨ b.stop.mark.upTo a.start.mark = true := by
  have hsymm : Std.Symm fun a b : Span =>
      a.stop.mark.upTo b.start.mark = true ∨ b.stop.mark.upTo a.start.mark = true :=
    ⟨fun _ _ => Or.symm⟩
  have hboth : spans.Pairwise fun a b =>
      a.stop.mark.upTo b.start.mark = true ∨ b.stop.mark.upTo a.start.mark = true :=
    h.sorted.imp Or.inl
  exact hboth.forall ha hb hne

/-- Where a directive begins no other span has a place. -/
theorem not_beginsDirective (h : InOrder spans) {b : Span} (hb : b ∈ spans)
    (hscope : b.scope ≠ .includeBegin) {m : Mark} (hle : b.start.mark.upTo m = true)
    (hlt : m.before b.stop.mark = true) : ¬ BeginsDirective spans m := by
  rintro ⟨a, ha, hbegins, rfl⟩
  have hsolid := (h.fits a ha).solid (by rw [hbegins]; rfl)
  rcases h.upTo_or_upTo ha hb (fun heq => hscope (heq ▸ hbegins)) with hab | hba
  · exact Mark.not_upTo_iff.mpr (Mark.before_of_before_of_upTo hsolid hab) hle
  · exact Mark.not_before_iff.mpr hba hlt

end InOrder

/-- **A directive has its place for itself** in the tree of spans that stand one behind the
other. -/
theorem InOrder.avoids_ofSpans {spans : List Span} (h : InOrder spans) :
    ∀ n ∈ (Tree.ofSpans spans).nodes, n.Avoids (BeginsDirective spans) := by
  intro n hn
  refine ⟨fun hother => ?_, ?_⟩
  · have hstart : ∃ s ∈ spans, s.scope ≠ .includeBegin ∧
        (s.scope.opens = true ∨ s.scope.isContent = true) ∧ s.start = n.location.start := by
      have hbegins := Tree.begins_ofSpans spans n hn
      cases n with
      | text | inlineWrite => exact hbegins
      | block => exact hbegins.1
      | inclusion i => exact absurd rfl (hother i)
    obtain ⟨s, hs, hscope, hopens, hstart⟩ := hstart
    rw [← hstart]
    refine h.not_beginsDirective hs hscope (Mark.upTo_refl _) ?_
    rcases hopens with hopens | hcontent
    · exact (h.fits s hs).solid hopens
    · obtain ⟨hvalue, hstop⟩ := (h.fits s hs).content hcontent
      rw [hstop]
      exact Scanner.before_mark_after _ hvalue
  · suffices hspans : ∀ s ∈ spans, s.scope.isContent →
        ∀ m ∈ s.start.mark.along s.value.toList, ¬ BeginsDirective spans m from
      Tree.forall_spans_ofSpans hspans n hn
    intro s hs hcontent m hm
    obtain ⟨hle, hlt⟩ := Mark.mem_along hm
    rw [← Position.mark_after, ← ((h.fits s hs).content hcontent).2] at hlt
    have hother : s.scope ≠ .includeBegin := fun hscope => by
      rw [hscope] at hcontent
      cases hcontent
    exact h.not_beginsDirective hs hother hle hlt

end Stencil.Template
