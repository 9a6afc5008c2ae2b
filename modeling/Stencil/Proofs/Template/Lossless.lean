import Mathlib.Data.List.Chain
import Stencil.Proofs.Template.Copied
import Stencil.Proofs.Text.Mark

/-! # Scanning loses nothing

A classifier may report any ranges: in any order, overlapping, empty, or behind the end of the text.
The scanner passes them with a cursor that only moves forward.  So a byte belongs to the first range
that reaches past it, and it is text if that range begins behind it or if there is none.  This is
all that the spans depend on: each of them takes up bytes of its own, the text of content is exactly
what stands there, and no byte is left out but those of marks and of ranges that count for nothing.
-/
namespace Stencil.Template

/-! ## The range of a byte -/

/-- A range reaches past a byte of a text of `size` bytes. One that ends before it begins does so
only if it ends behind the text. -/
def Classified.reaches (c : Classified) (size b : Nat) : Bool :=
  b < c.stop && (c.start ≤ c.stop || size ≤ c.stop)

/-- From a cursor on, a range reaches past the bytes up to its end, if it does not end before what
is left of it begins. -/
theorem Classified.reaches_iff {c : Classified} {size cursor b : Nat} (hcursor : cursor ≤ b)
    (hb : b < size) : c.reaches size b = true ↔
      min (max c.start cursor) size ≤ min c.stop size ∧ b < min c.stop size := by
  simp only [reaches, Bool.and_eq_true, Bool.or_eq_true, decide_eq_true_eq]
  omega

/-- The range that a byte belongs to: the first one that reaches past the byte, if the byte does not
stand in front of it. -/
def rangeOf? (ranges : List Classified) (size b : Nat) : Option Classified :=
  (ranges.find? (·.reaches size b)).filter (·.start ≤ b)

/-- The scope of a byte, which is text if it belongs to no range. -/
def scopeOf (ranges : List Classified) (size b : Nat) : Scope :=
  ((rangeOf? ranges size b).map Classified.scope).getD .text

section
variable {passed rest ranges : List Classified} {c : Classified} {size b : Nat}

/-- Behind ranges that do not reach past a byte, the next one decides if it does. -/
theorem rangeOf?_of_reaches (hpassed : ∀ x ∈ passed, x.reaches size b = false)
    (hc : c.reaches size b = true) :
    rangeOf? (passed ++ c :: rest) size b = if c.start ≤ b then some c else none := by
  have hnone : passed.find? (·.reaches size b) = none :=
    List.find?_eq_none.mpr fun x hx => by simp [hpassed x hx]
  rw [rangeOf?, List.find?_append, hnone, Option.none_or, List.find?_cons, hc, Option.filter_some]
  simp

theorem scopeOf_before (hpassed : ∀ x ∈ passed, x.reaches size b = false)
    (hc : c.reaches size b = true) (hb : b < c.start) :
    scopeOf (passed ++ c :: rest) size b = .text := by
  rw [scopeOf, rangeOf?_of_reaches hpassed hc, if_neg (Nat.not_le.mpr hb)]
  rfl

theorem scopeOf_within (hpassed : ∀ x ∈ passed, x.reaches size b = false)
    (hc : c.reaches size b = true) (hb : c.start ≤ b) :
    scopeOf (passed ++ c :: rest) size b = c.scope := by
  rw [scopeOf, rangeOf?_of_reaches hpassed hc, if_pos hb]
  rfl

theorem scopeOf_behind (h : ∀ x ∈ ranges, x.reaches size b = false) :
    scopeOf ranges size b = .text := by
  have hnone : ranges.find? (·.reaches size b) = none :=
    List.find?_eq_none.mpr fun x hx => by simp [h x hx]
  rw [scopeOf, rangeOf?, hnone]
  rfl

/-- A byte that stands in no range is text. -/
theorem scopeOf_unclassified (h : ∀ x ∈ ranges, ¬ (x.start ≤ b ∧ b < x.stop)) :
    scopeOf ranges size b = .text := by
  have hnone : rangeOf? ranges size b = none := by
    rw [rangeOf?, Option.filter_eq_none_iff]
    intro x hx hstart
    have hreaches := List.find?_some hx
    simp only [Classified.reaches, Bool.and_eq_true, decide_eq_true_eq] at hreaches hstart
    exact h x (List.mem_of_find?_eq_some hx) ⟨hstart, hreaches.1⟩
  rw [scopeOf, hnone]
  rfl

/-- The scope of a byte is no content if and only if it belongs to a range of such a scope. -/
theorem isContent_scopeOf : (scopeOf ranges size b).isContent = false ↔
    ∃ c, rangeOf? ranges size b = some c ∧ c.scope.isContent = false := by
  rw [scopeOf]
  cases rangeOf? ranges size b with
  | none => simp [Scope.isContent]
  | some c => simp

end

/-- A range that counts for nothing is reported at a byte, behind ranges that reach no further. -/
def DelimitedAt (ranges : List Classified) (size b : Nat) : Prop :=
  ∃ before d behind, ranges = before ++ d :: behind ∧ d.scope = .delimiter ∧
    d.start ≤ b ∧ d.stop = b ∧ ∀ c ∈ before, c.reaches size b = false

/-! ## Offsets -/

/-- An offset does not cut a character: it is a boundary of the text, or stands behind its end. -/
def Cuts (text : List Char) (n : Nat) : Prop := IsBoundary text n ∨ utf8Length text ≤ n

instance (text : List Char) (n : Nat) : Decidable (Cuts text n) :=
  inferInstanceAs (Decidable (_ ∨ _))

theorem Cuts.min_max {text : List Char} {m n : Nat} (hm : Cuts text m) (hn : IsBoundary text n) :
    IsBoundary text (min (max m n) (utf8Length text)) := by
  have hle := hn.le_length
  rcases Nat.le_total m n with h | h
  · rwa [Nat.max_eq_right h, Nat.min_eq_left hle]
  · rw [Nat.max_eq_left h]
    rcases hm with hm | hm
    · rwa [Nat.min_eq_left hm.le_length]
    · rw [Nat.min_eq_right hm]
      exact isBoundary_length text

theorem Cuts.min {text : List Char} {n : Nat} (hn : Cuts text n) :
    IsBoundary text (min n (utf8Length text)) := by
  have hmax := hn.min_max (isBoundary_zero text)
  rwa [Nat.max_eq_left (Nat.zero_le n)] at hmax

/-! ## Places of spans -/

/-- A span with the bytes that it takes up. -/
structure Placed where
  span : Span
  start : Nat
  stop : Nat

namespace Placed

/-- A byte is one of those that a span takes up. -/
def Holds (p : Placed) (b : Nat) : Prop := p.start ≤ b ∧ b < p.stop

/-- A span has the text and the positions of its bytes in a text. -/
structure Fits (text : List Char) (p : Placed) : Prop where
  forward : p.start ≤ p.stop
  boundaries : IsBoundary text p.start ∧ IsBoundary text p.stop
  positions : p.span.start = (LineIndex.ofString (.ofList text)).position p.start ∧
    p.span.stop = (LineIndex.ofString (.ofList text)).position p.stop
  content : p.span.scope.isContent = true →
    p.start < p.stop ∧ slice? text p.start p.stop = some p.span.value.toList
  mark : p.span.scope.isContent = false → p.span.scope ≠ .delimiter ∧ p.span.value = ""

end Placed

theorem slice?_append {text value more : List Char} {start middle stop : Nat}
    (h : slice? text start middle = some value) (h' : slice? text middle stop = some more) :
    slice? text start stop = some (value ++ more) := by
  obtain ⟨pre, post, htext, rfl, rfl⟩ := eq_append_of_slice? h
  obtain ⟨pre', post', htext', hlength, rfl⟩ := eq_append_of_slice? h'
  obtain rfl : pre' = pre ++ value := by
    rw [htext', List.append_assoc] at htext
    exact Scanner.prefix_eq_of_utf8Length htext hlength
  rw [htext', List.append_assoc pre, slice?_utf8Length]

/-- Positions of boundaries never decrease. -/
theorem position_le_of_le {text : List Char} {m n : Nat} (hm : IsBoundary text m)
    (hn : IsBoundary text n) (h : m ≤ n) :
    (LineIndex.ofString (.ofList text)).position m ≤
      (LineIndex.ofString (.ofList text)).position n := by
  obtain ⟨pre, value, post, htext, rfl, rfl⟩ := hm.exists_eq_append hn h
  rw [Scanner.position_of_append (pre ++ value) post htext,
    Scanner.position_of_append pre (value ++ post) (by rw [htext, List.append_assoc]),
    Position.after_append]
  exact Position.le_after _ value

/-! ## Scanning -/

namespace Scanner

/-- The spans of a scanner that has passed a text up to a byte, with their places, last first. They
take up the bytes that are not of ranges that count for nothing, each byte by a span of its scope;
and a span that may not grow although it ends there is followed by such a range. -/
structure Covers (text : List Char) (ranges : List Classified) (cursor : Nat)
    (placed : List Placed) (s : Scanner) : Prop where
  spans : placed.map Placed.span = s.spans
  boundary : IsBoundary text cursor
  fits : ∀ p ∈ placed, p.Fits text ∧ p.stop ≤ cursor
  disjoint : placed.Pairwise fun p q => q.stop ≤ p.start
  scope : ∀ p ∈ placed, ∀ b, p.Holds b → scopeOf ranges (utf8Length text) b = p.span.scope
  held : ∀ b < cursor, scopeOf ranges (utf8Length text) b ≠ .delimiter → ∃ p ∈ placed, p.Holds b
  grows : ∀ stop, s.openEnd = some stop → stop = cursor ∧
    ∃ last rest, placed = last :: rest ∧ last.stop = stop
  closed : s.openEnd = none → ∀ last ∈ placed.head?, last.span.scope.isContent = true →
    last.stop = cursor → cursor < utf8Length text → DelimitedAt ranges (utf8Length text) cursor
  apart : placed.IsChain fun p q => p.span.scope.isContent = true → q.span.scope = p.span.scope →
    q.stop = p.start → DelimitedAt ranges (utf8Length text) p.start

variable {text : List Char} {ranges : List Classified} {cursor stop : Nat} {placed : List Placed}
  {s : Scanner}

theorem covers_start : Covers text ranges 0 [] .start where
  spans := rfl
  boundary := isBoundary_zero text
  fits := by simp
  disjoint := .nil
  scope := by simp
  held b hb := absurd hb (Nat.not_lt_zero b)
  grows stop h := by cases h
  closed _ last h := by cases h
  apart := .nil

/-- The cursor that a scanner keeps does not matter. -/
theorem Covers.moveTo (h : Covers text ranges cursor placed s) (place : Nat) :
    Covers text ranges cursor placed { s with cursor := place } :=
  ⟨h.spans, h.boundary, h.fits, h.disjoint, h.scope, h.held, h.grows, h.closed, h.apart⟩

/-- A byte in front of a place stands in front of the cursor or between the two. -/
theorem Covers.held_append (h : Covers text ranges cursor placed s) {more : List Placed}
    (hmore : ∀ p ∈ placed, ∀ b, p.Holds b → ∃ q ∈ more, q.Holds b)
    (hnew : ∀ b, cursor ≤ b → b < stop → scopeOf ranges (utf8Length text) b ≠ .delimiter →
      ∃ q ∈ more, q.Holds b) :
    ∀ b < stop, scopeOf ranges (utf8Length text) b ≠ .delimiter → ∃ q ∈ more, q.Holds b := by
  intro b hb hscope
  rcases Nat.lt_or_ge b cursor with hlt | hge
  · obtain ⟨p, hp, hholds⟩ := h.held b hlt hscope
    exact hmore p hp b hholds
  · exact hnew b hge hb hscope

/-- A span of its own takes up the bytes from the cursor on. -/
theorem Covers.push (h : Covers text ranges cursor placed s) {p : Placed} (hp : p.Fits text)
    (hstart : p.start = cursor)
    (hscope : ∀ b, p.Holds b → scopeOf ranges (utf8Length text) b = p.span.scope)
    (hapart : ∀ last ∈ placed.head?, p.span.scope.isContent = true →
      last.span.scope = p.span.scope → last.stop = p.start →
        DelimitedAt ranges (utf8Length text) p.start) (place : Nat) :
    Covers text ranges p.stop (p :: placed) ⟨p.span :: s.spans,
      if p.span.scope.isContent then some p.stop else none, place⟩ where
  spans := by rw [List.map_cons, h.spans]
  boundary := hp.boundaries.2
  fits := by
    refine List.forall_mem_cons.mpr ⟨⟨hp, Nat.le_refl _⟩, fun q hq => ?_⟩
    have hforward := hp.forward
    have hbefore := (h.fits q hq).2
    exact ⟨(h.fits q hq).1, by omega⟩
  disjoint := List.pairwise_cons.mpr ⟨fun q hq => hstart ▸ (h.fits q hq).2, h.disjoint⟩
  scope := List.forall_mem_cons.mpr ⟨hscope, h.scope⟩
  held := h.held_append (fun q hq b hb => ⟨q, List.mem_cons_of_mem p hq, hb⟩) fun b hge hlt _ =>
    ⟨p, List.mem_cons_self, hstart ▸ hge, hlt⟩
  grows stop hopen := by
    split at hopen
    · exact ⟨(Option.some.inj hopen).symm, p, placed, rfl, Option.some.inj hopen⟩
    · cases hopen
  closed hopen last hlast hcontent := by
    obtain rfl : p = last := Option.some.inj hlast
    simp [hcontent] at hopen
  apart := List.isChain_cons.mpr ⟨hapart, h.apart⟩

/-- The last span takes in the bytes from the cursor on. -/
theorem Covers.grow {last : Placed} {rest : List Placed}
    (h : Covers text ranges cursor (last :: rest) s) (hlast : last.stop = cursor)
    (hcontent : last.span.scope.isContent = true) (hstop : IsBoundary text stop)
    (hlt : cursor < stop) {cs : List Char} (hslice : slice? text cursor stop = some cs)
    (hscope : ∀ b, cursor ≤ b → b < stop →
      scopeOf ranges (utf8Length text) b = last.span.scope) (place : Nat) :
    let span : Span := { last.span with
      value := last.span.value ++ .ofList cs
      stop := (LineIndex.ofString (.ofList text)).position stop }
    Covers text ranges stop (⟨span, last.start, stop⟩ :: rest)
      ⟨span :: rest.map Placed.span, some stop, place⟩ := by
  intro span
  obtain ⟨⟨hfits, -⟩, hrest⟩ := List.forall_mem_cons.mp h.fits
  have hforward := hfits.forward
  have hslices := slice?_append (hfits.content hcontent).2 (hlast ▸ hslice)
  refine ⟨rfl, hstop, List.forall_mem_cons.mpr ⟨⟨?_, Nat.le_refl _⟩, fun q hq => ?_⟩, ?_, ?_, ?_,
    ?_, ?_, ?_⟩
  · refine ⟨by show last.start ≤ stop; omega, ⟨hfits.boundaries.1, hstop⟩, ⟨hfits.positions.1, rfl⟩,
      fun _ => ⟨by show last.start < stop; omega, ?_⟩, fun hmark => ?_⟩
    · simpa [span] using hslices
    · cases hcontent.symm.trans hmark
  · exact ⟨(hrest q hq).1, Nat.le_trans (hrest q hq).2 (Nat.le_of_lt hlt)⟩
  · exact List.pairwise_cons.mpr (List.pairwise_cons.mp h.disjoint)
  · refine List.forall_mem_cons.mpr ⟨fun b hb => ?_, (List.forall_mem_cons.mp h.scope).2⟩
    rcases Nat.lt_or_ge b cursor with hbefore | hbehind
    · exact h.scope last List.mem_cons_self b ⟨hb.1, hlast ▸ hbefore⟩
    · exact hscope b hbehind hb.2
  · refine h.held_append ?_ fun b hge hb _ =>
      ⟨_, List.mem_cons_self, by show last.start ≤ b; omega, hb⟩
    refine List.forall_mem_cons.mpr ⟨fun b hb => ?_, fun q hq b hb => ?_⟩
    · have hend := hb.2
      exact ⟨_, List.mem_cons_self, hb.1, by show b < stop; omega⟩
    · exact ⟨q, List.mem_cons_of_mem _ hq, hb⟩
  · exact fun end' hopen => ⟨(Option.some.inj hopen).symm, _, rest, rfl, Option.some.inj hopen⟩
  · exact fun hopen => by cases hopen
  · exact List.isChain_cons.mpr (List.isChain_cons.mp h.apart)

/-- Content from the cursor on becomes a span of its own, or makes the last one longer. -/
theorem Covers.addContent (h : Covers text ranges cursor placed s) {scope : Scope}
    (hcontent : scope.isContent = true) (hstop : IsBoundary text stop) (hlt : cursor < stop)
    (hscope : ∀ b, cursor ≤ b → b < stop → scopeOf ranges (utf8Length text) b = scope) :
    ∃ placed', Covers text ranges stop placed'
      (s.addContent text (.ofString (.ofList text)) scope cursor stop) := by
  obtain ⟨pre, cs, post, htext, hpre, hcs⟩ := h.boundary.exists_eq_append hstop (Nat.le_of_lt hlt)
  have hslice : slice? text cursor stop = some cs := by
    rw [← hpre, ← hcs, htext, slice?_utf8Length]
  let span := spanOf (.ofString (.ofList text)) (.ofList cs) scope cursor stop
  have hfits : Placed.Fits text ⟨span, cursor, stop⟩ :=
    ⟨Nat.le_of_lt hlt, ⟨h.boundary, hstop⟩, ⟨rfl, rfl⟩,
      fun _ => ⟨hlt, by simpa [span, spanOf] using hslice⟩,
      fun hmark => by cases hcontent.symm.trans hmark⟩
  -- a span of its own, if there is nothing that may grow
  have hnew (hopen : s.openEnd = none ∨ ∀ last ∈ placed.head?, last.span.scope ≠ scope)
      (place : Nat) : Covers text ranges stop (⟨span, cursor, stop⟩ :: placed)
        ⟨span :: s.spans, some stop, place⟩ := by
    have hpush := h.push hfits rfl (fun b hb => hscope b hb.1 hb.2) (fun last hlast _ hsame hend =>
      hopen.elim (fun hnone => h.closed hnone last hlast (by rw [hsame]; exact hcontent) hend
        (Nat.lt_of_lt_of_le hlt hstop.le_length)) fun hne => absurd hsame (hne last hlast)) place
    simpa [span, spanOf, hcontent] using hpush
  unfold Scanner.addContent
  simp only [hslice]
  cases placed with
  | nil =>
    rw [← h.spans]
    exact ⟨_, by simpa [← h.spans] using hnew (.inr (by simp)) s.cursor⟩
  | cons last rest =>
    have hspans := h.spans
    rw [List.map_cons] at hspans
    rw [← hspans]
    by_cases hgrow : (decide (s.openEnd = some cursor) && decide (last.span.scope = scope)) = true
    · obtain ⟨hopen, rfl⟩ : s.openEnd = some cursor ∧ last.span.scope = scope := by
        simpa using hgrow
      obtain ⟨-, last', rest', hcons, hlast⟩ := h.grows cursor hopen
      obtain ⟨rfl, rfl⟩ := List.cons.inj hcons
      simp only [hopen, decide_true, Bool.and_self, if_true]
      exact ⟨_, h.grow hlast hcontent hstop hlt hslice hscope s.cursor⟩
    · simp only [hgrow]
      refine ⟨⟨span, cursor, stop⟩ :: last :: rest, ?_⟩
      rw [hspans]
      refine hnew ?_ s.cursor
      cases hopen : s.openEnd with
      | none => exact .inl rfl
      | some place =>
        obtain ⟨rfl, -⟩ := h.grows place hopen
        refine .inr fun x hx => ?_
        obtain rfl : last = x := Option.some.inj hx
        simpa [hopen] using hgrow

/-- A boundary from the cursor on is a span of its own. -/
theorem Covers.addBoundary (h : Covers text ranges cursor placed s) {scope : Scope}
    (hmark : scope.isContent = false) (hdelimiter : scope ≠ .delimiter)
    (hstop : IsBoundary text stop) (hle : cursor ≤ stop)
    (hscope : ∀ b, cursor ≤ b → b < stop → scopeOf ranges (utf8Length text) b = scope) :
    ∃ placed', Covers text ranges stop placed'
      (s.addBoundary (.ofString (.ofList text)) scope cursor stop) := by
  let span := spanOf (.ofString (.ofList text)) "" scope cursor stop
  have hfits : Placed.Fits text ⟨span, cursor, stop⟩ :=
    ⟨hle, ⟨h.boundary, hstop⟩, ⟨rfl, rfl⟩,
      fun hcontent => Bool.noConfusion (hmark.symm.trans hcontent),
      fun _ => ⟨hdelimiter, rfl⟩⟩
  have hpush := h.push hfits rfl (fun b hb => hscope b hb.1 hb.2)
    (fun _ _ hcontent => by cases hmark.symm.trans hcontent) s.cursor
  rw [show span.scope.isContent = false from hmark, if_neg Bool.false_ne_true] at hpush
  exact ⟨_, hpush⟩

/-- A range that counts for nothing takes up its bytes without a span. -/
theorem Covers.skip (h : Covers text ranges cursor placed s) (hstop : IsBoundary text stop)
    (hle : cursor ≤ stop)
    (hscope : ∀ b, cursor ≤ b → b < stop → scopeOf ranges (utf8Length text) b = .delimiter)
    (hdelimited : cursor = stop → stop < utf8Length text →
      DelimitedAt ranges (utf8Length text) stop) :
    Covers text ranges stop placed { s with openEnd := none } where
  spans := h.spans
  boundary := hstop
  fits p hp := ⟨(h.fits p hp).1, Nat.le_trans (h.fits p hp).2 hle⟩
  disjoint := h.disjoint
  scope := h.scope
  held := h.held_append (fun p hp b hb => ⟨p, hp, hb⟩) fun b hge hlt hne =>
    absurd (hscope b hge hlt) hne
  grows _ hopen := by cases hopen
  closed _ last hlast _ hend hlt := by
    have hbefore := (h.fits last (List.mem_of_mem_head? hlast)).2
    exact hdelimited (by omega) hlt
  apart := h.apart

/-- A range takes up the bytes from the cursor on, if there are any. -/
theorem Covers.addRange (h : Covers text ranges cursor placed s) {scope : Scope}
    (hstop : IsBoundary text stop) (hle : cursor ≤ stop)
    (hscope : ∀ b, cursor ≤ b → b < stop → scopeOf ranges (utf8Length text) b = scope)
    (hdelimited : scope = .delimiter → cursor = stop → stop < utf8Length text →
      DelimitedAt ranges (utf8Length text) stop) :
    ∃ placed', Covers text ranges stop placed'
      (s.addRange text (.ofString (.ofList text)) scope cursor stop) := by
  unfold Scanner.addRange
  by_cases hdelimiter : scope = .delimiter
  · subst hdelimiter
    exact ⟨placed, h.skip hstop hle hscope (hdelimited rfl)⟩
  · rw [if_neg hdelimiter]
    cases hcontent : scope.isContent with
    | false => exact h.addBoundary hcontent hdelimiter hstop hle hscope
    | true =>
      rcases Nat.eq_or_lt_of_le hle with rfl | hlt
      · exact ⟨placed, by simpa using h⟩
      · simpa [hlt] using h.addContent hcontent hstop hlt hscope

/-- No range so far reaches past a byte from the cursor on. -/
def Unreached (text : List Char) (passed : List Classified) (cursor : Nat) : Prop :=
  ∀ c ∈ passed, ∀ b, cursor ≤ b → b < utf8Length text → c.reaches (utf8Length text) b = false

theorem cursor_addContent (index : LineIndex) (scope : Scope) (start stop : Nat) :
    (s.addContent text index scope start stop).cursor = s.cursor := by
  unfold Scanner.addContent
  split <;> rfl

/-- The text between the cursor and the beginning of a range. -/
theorem Covers.addGap (h : Covers text ranges s.cursor placed s) {start : Nat}
    (hstart : IsBoundary text start) (hle : s.cursor ≤ start)
    (hscope : ∀ b, s.cursor ≤ b → b < start → scopeOf ranges (utf8Length text) b = .text) :
    ∃ placed' gap, gap = (if s.cursor < start then
        s.addContent text (.ofString (.ofList text)) .text s.cursor start else s) ∧
      gap.cursor = s.cursor ∧ Covers text ranges start placed' gap := by
  rcases Nat.eq_or_lt_of_le hle with heq | hlt
  · exact ⟨placed, s, by rw [if_neg (by omega)], rfl, heq ▸ h⟩
  · obtain ⟨placed', hcovers⟩ := h.addContent rfl hstart hlt hscope
    exact ⟨placed', _, by rw [if_pos hlt], cursor_addContent _ _ _ _, hcovers⟩

/-- A scanner passes the next range. -/
theorem Covers.step (h : Covers text ranges s.cursor placed s) {passed rest : List Classified}
    {c : Classified} (hranges : ranges = passed ++ c :: rest)
    (hpassed : Unreached text passed s.cursor) (hstart : Cuts text c.start)
    (hstop : Cuts text c.stop) :
    let s' := s.step text (.ofString (.ofList text)) c
    ∃ placed', Covers text ranges s'.cursor placed' s' ∧
      Unreached text (passed ++ [c]) s'.cursor := by
  intro s'
  have hsize : (LineIndex.ofString (.ofList text)).size = utf8Length text :=
    utf8ByteSize_ofList_eq text
  have hcursor := h.boundary.le_length
  have hreaches (b : Nat) (hb : s.cursor ≤ b) (hlt : b < utf8Length text) :=
    Classified.reaches_iff (c := c) hb hlt
  have hfrom := hstart.min_max h.boundary
  have hto := hstop.min
  unfold s' Scanner.step
  simp only [hsize]
  generalize hstart' : min (max c.start s.cursor) (utf8Length text) = start at hreaches hfrom ⊢
  generalize hstop' : min c.stop (utf8Length text) = stop at hreaches hto ⊢
  -- no range reaches past a byte behind the end of this one
  have hunreached (cursor : Nat) (hle : s.cursor ≤ cursor) (hend : start ≤ stop → stop ≤ cursor) :
      Unreached text (passed ++ [c]) cursor := by
    intro x hx b hb hlt
    rcases List.mem_append.mp hx with hx | hx
    · exact hpassed x hx b (by omega) hlt
    · obtain rfl := List.mem_singleton.mp hx
      rw [← Bool.not_eq_true, hreaches b (by omega) hlt]
      omega
  by_cases hskipped : stop < start
  · rw [if_pos hskipped]
    exact ⟨placed, h, hunreached s.cursor (Nat.le_refl _) (by omega)⟩
  · rw [if_neg hskipped]
    have hle : start ≤ stop := Nat.le_of_not_lt hskipped
    have hlength := hto.le_length
    have hnone (b : Nat) (hb : s.cursor ≤ b) (hlt : b < stop) :
        ∀ x ∈ passed, x.reaches (utf8Length text) b = false :=
      fun x hx => hpassed x hx b hb (by omega)
    -- first the text in front of the range, then the range itself
    obtain ⟨placed', gap, hgap, hkept, hcovers⟩ := h.addGap hfrom (by omega) fun b hb hlt => by
      rw [hranges]
      exact scopeOf_before (hnone b hb (by omega))
        ((hreaches b hb (by omega)).mpr ⟨hle, by omega⟩) (by omega)
    have hwithin (b : Nat) (hb : start ≤ b) (hlt : b < stop) :
        scopeOf ranges (utf8Length text) b = c.scope := by
      rw [hranges]
      exact scopeOf_within (hnone b (by omega) hlt)
        ((hreaches b (by omega) (by omega)).mpr ⟨hle, hlt⟩) (by omega)
    obtain ⟨placed', hrange⟩ := hcovers.addRange hto hle hwithin
      fun hdelimiter hempty hlt => ⟨passed, c, rest, hranges, hdelimiter, by omega, by omega,
        fun x hx => hpassed x hx stop (by omega) hlt⟩
    rw [← hgap, hkept, Nat.max_eq_left (by omega)]
    exact ⟨placed', hrange.moveTo stop, hunreached stop (by omega) fun _ => Nat.le_refl _⟩

/-- A scanner passes all ranges. -/
theorem Covers.foldl (rest : List Classified) {passed : List Classified}
    (hranges : ranges = passed ++ rest)
    (hcuts : ∀ c ∈ rest, Cuts text c.start ∧ Cuts text c.stop)
    (hpassed : Unreached text passed s.cursor) (h : Covers text ranges s.cursor placed s) :
    let s' := rest.foldl (Scanner.step text (.ofString (.ofList text))) s
    ∃ placed', Covers text ranges s'.cursor placed' s' ∧ Unreached text ranges s'.cursor := by
  induction rest generalizing passed placed s with
  | nil =>
    rw [List.append_nil] at hranges
    exact ⟨placed, h, hranges ▸ hpassed⟩
  | cons c rest ih =>
    obtain ⟨⟨hstart, hstop⟩, hrest⟩ := List.forall_mem_cons.mp hcuts
    obtain ⟨placed', hstep, hpassed'⟩ := h.step hranges hpassed hstart hstop
    exact ih (by rw [hranges, List.append_assoc, List.singleton_append]) hrest hpassed' hstep

/-- Behind all ranges there is nothing but text. -/
theorem Covers.finish (h : Covers text ranges s.cursor placed s)
    (hpassed : Unreached text ranges s.cursor) :
    ∃ placed' s', Covers text ranges (utf8Length text) placed' s' ∧
      s.finish text (.ofString (.ofList text)) = s'.spans.reverse := by
  have hsize : (LineIndex.ofString (.ofList text)).size = utf8Length text :=
    utf8ByteSize_ofList_eq text
  unfold Scanner.finish
  simp only [hsize]
  by_cases hlt : s.cursor < utf8Length text
  · have hbehind (b : Nat) (hb : s.cursor ≤ b) (hlt : b < utf8Length text) :
        scopeOf ranges (utf8Length text) b = .text :=
      scopeOf_behind fun x hx => hpassed x hx b hb hlt
    obtain ⟨placed', hend⟩ := h.addContent rfl (isBoundary_length text) hlt hbehind
    exact ⟨placed', _, hend, by rw [if_pos hlt]⟩
  · have hend : s.cursor = utf8Length text :=
      Nat.le_antisymm h.boundary.le_length (Nat.le_of_not_lt hlt)
    exact ⟨placed, s, hend ▸ h, by rw [if_neg hlt]⟩

end Scanner

/-! ## Whole texts -/

/-- Positions never decrease along spans. -/
structure Ascending (spans : List Span) : Prop where
  forward : ∀ s ∈ spans, s.start ≤ s.stop
  sorted : spans.Pairwise fun a b => a.stop ≤ b.start

/-- Spans with their places lose nothing of a text with these classified ranges. -/
structure Lossless (text : List Char) (ranges : List Classified) (placed : List Placed) : Prop where
  inside : ∀ p ∈ placed, p.start ≤ p.stop ∧ p.stop ≤ utf8Length text
  disjoint : placed.Pairwise fun p q => p.stop ≤ q.start
  content : ∀ p ∈ placed, p.span.scope.isContent = true →
    p.start < p.stop ∧ slice? text p.start p.stop = some p.span.value.toList
  mark : ∀ p ∈ placed, p.span.scope.isContent = false →
    p.span.scope ≠ .delimiter ∧ p.span.value = ""
  /-- What a span takes up has its scope, and only what counts for nothing is taken up by none. -/
  scopes : ∀ b < utf8Length text, (∀ p ∈ placed, p.Holds b →
      p.span.scope = scopeOf ranges (utf8Length text) b) ∧
    (scopeOf ranges (utf8Length text) b ≠ .delimiter → ∃ p ∈ placed, p.Holds b)
  /-- What no content takes up belongs to a boundary, or to a range that counts for nothing. -/
  dropped : ∀ b < utf8Length text,
    (¬ ∃ p ∈ placed, p.span.scope.isContent = true ∧ p.Holds b) ↔
      ∃ c, rangeOf? ranges (utf8Length text) b = some c ∧ c.scope.isContent = false
  unclassified : ∀ b < utf8Length text, (∀ c ∈ ranges, ¬ (c.start ≤ b ∧ b < c.stop)) →
    ∃ p ∈ placed, p.span.scope = .text ∧ p.Holds b
  positions : ∀ p ∈ placed,
    p.span.start = (LineIndex.ofString (.ofList text)).position p.start ∧
      p.span.stop = (LineIndex.ofString (.ofList text)).position p.stop
  ascending : Ascending (placed.map Placed.span)
  /-- Content of one scope is one span, unless a range that counts for nothing parts it. -/
  apart : placed.IsChain fun p q => p.span.scope.isContent = true → p.span.scope = q.span.scope →
    p.stop = q.start → DelimitedAt ranges (utf8Length text) q.start

theorem Scanner.Covers.lossless {text : List Char} {ranges : List Classified}
    {placed : List Placed} {s : Scanner} (h : Covers text ranges (utf8Length text) placed s) :
    Lossless text ranges placed.reverse := by
  have hheld (b : Nat) (hb : b < utf8Length text)
      (hne : scopeOf ranges (utf8Length text) b ≠ .delimiter) :
      ∃ p ∈ placed.reverse, p.span.scope = scopeOf ranges (utf8Length text) b ∧ p.Holds b := by
    obtain ⟨p, hp, hholds⟩ := h.held b hb hne
    exact ⟨p, List.mem_reverse.mpr hp, (h.scope p hp b hholds).symm, hholds⟩
  have hsorted : placed.Pairwise fun p q => q.span.stop ≤ p.span.start := by
    refine h.disjoint.imp_of_mem fun hp hq hle => ?_
    obtain ⟨hp, -⟩ := h.fits _ hp
    obtain ⟨hq, -⟩ := h.fits _ hq
    rw [hp.positions.1, hq.positions.2]
    exact position_le_of_le hq.boundaries.2 hp.boundaries.1 hle
  refine
    { inside := fun p hp => ?_
      disjoint := List.pairwise_reverse.mpr h.disjoint
      content := fun p hp => (h.fits p (List.mem_reverse.mp hp)).1.content
      mark := fun p hp => (h.fits p (List.mem_reverse.mp hp)).1.mark
      scopes := fun b hb => ⟨fun p hp hholds =>
        (h.scope p (List.mem_reverse.mp hp) b hholds).symm, fun hne => ?_⟩
      dropped := fun b hb => ?_
      unclassified := fun b hb hnone => ?_
      positions := fun p hp => (h.fits p (List.mem_reverse.mp hp)).1.positions
      ascending := ⟨fun x hx => ?_, ?_⟩
      apart := ?_ }
  · obtain ⟨hfits, hle⟩ := h.fits p (List.mem_reverse.mp hp)
    exact ⟨hfits.forward, hle⟩
  · obtain ⟨p, hp, -, hholds⟩ := hheld b hb hne
    exact ⟨p, hp, hholds⟩
  · rw [← isContent_scopeOf]
    constructor
    · intro hnone
      by_contra hcontent
      rw [Bool.not_eq_false] at hcontent
      obtain ⟨p, hp, hscope, hholds⟩ := hheld b hb fun hdelimiter => by
        rw [hdelimiter] at hcontent
        cases hcontent
      exact hnone ⟨p, hp, hscope ▸ hcontent, hholds⟩
    · rintro hmark ⟨p, hp, hcontent, hholds⟩
      rw [h.scope p (List.mem_reverse.mp hp) b hholds, hcontent] at hmark
      cases hmark
  · have htext : scopeOf ranges (utf8Length text) b = .text := scopeOf_unclassified hnone
    obtain ⟨p, hp, hscope, hholds⟩ := hheld b hb (by rw [htext]; decide)
    exact ⟨p, hp, hscope.trans htext, hholds⟩
  · obtain ⟨p, hp, rfl⟩ := List.mem_map.mp hx
    obtain ⟨hfits, -⟩ := h.fits p (List.mem_reverse.mp hp)
    rw [hfits.positions.1, hfits.positions.2]
    exact position_le_of_le hfits.boundaries.1 hfits.boundaries.2 hfits.forward
  · rw [List.map_reverse]
    exact List.pairwise_reverse.mpr (List.pairwise_map.mpr hsorted)
  · refine List.isChain_reverse.mpr (h.apart.imp fun q p hapart hcontent hsame hend => ?_)
    exact hapart (hsame ▸ hcontent) hsame hend

/-- Ranges that overlap, are empty, end before they begin, or go on behind the end of a text of
seven bytes. -/
def oddRanges : List Classified :=
  [⟨1, 3, .block⟩, ⟨0, 4, .block⟩, ⟨4, 4, .delimiter⟩, ⟨4, 5, .block⟩, ⟨3, 1, .inlineWrite⟩,
    ⟨6, 90, .blockClose⟩, ⟨95, 92, .delimiter⟩]

end Stencil.Template
