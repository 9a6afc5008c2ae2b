import Mathlib.Data.List.Infix
import Stencil.Proofs.Script.Quotes
import Stencil.Proofs.Template.Behind
import Stencil.Proofs.Template.Offsets
import Stencil.Script.Grammar

/-! # Where a region ends

A region ends at the first closer outside of quoted texts, and a quote opens a quoted text wherever
it stands.  The scanner does not know the tokens of scripts: to it a quote in a comment or in a
regular expression is like any other.  So whether a region ends at its closer is decided by the
quotes of its body alone, and if it does, nothing behind it is lost.
-/
namespace Stencil

/-- White space does not go on with a word. -/
theorem isWordChar_of_isBlank {c : Char} (h : isBlank c = true) : isWordChar c = false := by
  simp only [isBlank, Bool.or_eq_true, Bool.and_eq_true, decide_eq_true_eq, beq_iff_eq] at h
  by_cases hlow : c.toNat < 0x80
  · have hcodes : ∀ n ∈ [9, 10, 11, 12, 13, 0x20], isWordChar (.ofNat n) = false := by decide
    have hmem : c.toNat ∈ [9, 10, 11, 12, 13, 0x20] := by
      simp only [List.mem_cons, List.not_mem_nil, or_false]
      omega
    have hword := hcodes _ hmem
    rwa [Char.ofNat_toNat] at hword
  · let blanks : List (Nat × Nat) := [(0x85, 0x85), (0xa0, 0xa0), (0x1680, 0x1680),
      (0x2000, 0x200a), (0x2028, 0x2029), (0x202f, 0x202f), (0x205f, 0x205f), (0x3000, 0x3000)]
    have hapart : ∀ r ∈ wordRanges.toList, ∀ b ∈ blanks, r.2 < b.1 ∨ b.2 < r.1 := by
      decide +kernel
    have hblank : ∃ b ∈ blanks, b.1 ≤ c.toNat ∧ c.toNat ≤ b.2 := by
      simp only [blanks, List.mem_cons, List.not_mem_nil, or_false, exists_eq_or_imp,
        exists_eq_left]
      omega
    obtain ⟨b, hb, hwithin⟩ := hblank
    rw [isWordChar, if_neg hlow, inRanges, ← Array.any_toList, List.any_eq_false]
    intro r hr hin
    simp only [Bool.and_eq_true, decide_eq_true_eq] at hin
    have := hapart r hr b hb
    omega
namespace Template

/-! ## Quotes -/

/-- Behind a text no quote is open. -/
def ClosesQuotes (cs : List Char) : Prop := cs.foldl Quoting.step .outside = .outside

instance (cs : List Char) : Decidable (ClosesQuotes cs) := inferInstanceAs (Decidable (_ = _))

/-- The quote that is open. -/
def Quoting.open? : Quoting → Option Char
  | .outside => none
  | .inside q => some q
  | .escaped q => some q

theorem Quoting.isQuote_open? {s : Quoting} (hs : ∀ q ∈ s.open?, isQuote q = true)
    (cs : List Char) : ∀ q ∈ (cs.foldl step s).open?, isQuote q = true := by
  induction cs generalizing s with
  | nil => exact hs
  | cons c cs ih =>
    refine ih ?_
    cases s with
    | outside =>
      by_cases hc : isQuote c = true <;> simp [step, open?, hc]
    | inside quote =>
      rw [step]
      split
      · exact hs
      · split
        · intro q hq
          cases hq
        · exact hs
    | escaped quote => exact hs

/-- Characters that are no quotes do not close a quoted text. -/
theorem not_closesQuotes_append {cs ds : List Char} (h : ¬ ClosesQuotes cs)
    (hds : ∀ c ∈ ds, isQuote c = false) : ¬ ClosesQuotes (cs ++ ds) := by
  unfold ClosesQuotes at h ⊢
  rw [List.foldl_append]
  have hquotes := Quoting.isQuote_open? (s := .outside) (fun q hq => by cases hq) cs
  generalize cs.foldl Quoting.step .outside = s at h hquotes
  induction ds generalizing s with
  | nil => exact h
  | cons c ds ih =>
    obtain ⟨hc, hds⟩ := List.forall_mem_cons.mp hds
    refine ih hds (s.step c) ?_ (Quoting.isQuote_open? hquotes [c])
    cases s with
    | outside => exact absurd rfl h
    | inside q =>
      have hne : c ≠ q := by
        rintro rfl
        rw [hquotes c rfl] at hc
        cases hc
      by_cases hslash : c = '\\' <;> simp [Quoting.step, hslash, hne]
    | escaped q => exact Quoting.noConfusion

/-! ## Regions -/

/-- A region with a text in it, and a template behind its closer. -/
def regionText (opener body behind : List Char) : List Char :=
  opener ++ (body ++ (Syntax.default.closer.toList ++ behind))

/-- A directive begins in a text, outside of its quoted texts. -/
def HoldsDirective (cs : List Char) : Prop :=
  ∃ n ≤ cs.length, ClosesQuotes (cs.take n) ∧
    (includeHead? keyword (cs.take n).getLast? (cs.drop n)).isSome = true

/-- What may stand in a region: a text that begins with white space and holds neither the closer
nor, in a block, a directive. -/
structure Content (inline : Bool) (body : List Char) : Prop where
  blank : body.head?.any isBlank = true
  closer : ¬ Syntax.default.closer.toList <:+: body
  directive : inline = false → ¬ HoldsDirective body

theorem content_iff {inline : Bool} {body : List Char} : Content inline body ↔
    body.head?.any isBlank = true ∧ ¬ Syntax.default.closer.toList <:+: body ∧
      (inline = false → ∀ n ≤ body.length, ¬ (ClosesQuotes (body.take n) ∧
        (includeHead? keyword (body.take n).getLast? (body.drop n)).isSome = true)) :=
  ⟨fun ⟨hblank, hcloser, hdirective⟩ => ⟨hblank, hcloser, fun hblock n hn h =>
      hdirective hblock ⟨n, hn, h⟩⟩,
    fun ⟨hblank, hcloser, hdirective⟩ => ⟨hblank, hcloser, fun hblock ⟨n, hn, h⟩ =>
      hdirective hblock n hn h⟩⟩

instance (inline : Bool) (body : List Char) : Decidable (Content inline body) :=
  decidable_of_iff' _ content_iff

theorem Content.exists_cons {inline : Bool} {body : List Char} (h : Content inline body) :
    ∃ c cs, body = c :: cs ∧ isBlank c = true := by
  have hblank := h.blank
  cases body with
  | nil => cases hblank
  | cons c cs => exact ⟨c, cs, rfl, hblank⟩

section
variable {scope : Scope} {includes inline : Bool} {before : Option Char} {quoting : Quoting}
  {chunk opener body behind rest : List Char}

/-- A text of which all characters are passed is passed. -/
theorem readBody_append_of_passes (h : ∀ pre c post, body = pre ++ c :: post →
    Passes includes (pre.getLast?.or before) (pre.foldl Quoting.step quoting) c (post ++ rest)) :
    readBody .default scope includes before quoting chunk (body ++ rest) =
      readBody .default scope includes (body.getLast?.or before)
        (body.foldl Quoting.step quoting) (body.reverse ++ chunk) rest := by
  induction body generalizing before quoting chunk with
  | nil => rfl
  | cons c body ih =>
    have hlast (cs : List Char) : (c :: cs).getLast?.or before = cs.getLast?.or (some c) := by
      cases hcs : cs.getLast? <;> simp [List.getLast?_cons, hcs]
    have hrest : ∀ pre d post, body = pre ++ d :: post →
        Passes includes (pre.getLast?.or (some c)) (pre.foldl Quoting.step (quoting.step c)) d
          (post ++ rest) := by
      rintro pre d post rfl
      rw [← hlast]
      exact h (c :: pre) d post rfl
    have hpass : Passes includes before quoting c (body ++ rest) := h [] c body rfl
    rw [List.cons_append, readBody_pass hpass, hlast, ih hrest]
    simp

/-- What may stand in a region is passed in front of a closer. -/
theorem Content.passes (h : Content inline body) {pre post : List Char} {c : Char}
    (hbody : body = pre ++ c :: post) (before : Option Char) (behind : List Char) :
    Passes (!inline) (pre.getLast?.or before) (pre.foldl Quoting.step .outside) c
      (post ++ '?' :: '>' :: behind) := by
  by_cases houtside : ClosesQuotes pre
  · have hcloser : ¬ Syntax.default.closer.toList <+: c :: post := fun hbegins =>
      h.closer (hbegins.isInfix.trans (hbody ▸ (List.suffix_append pre _).isInfix))
    have hhead : (!inline) = true → includeHead? Syntax.default.includeKeyword.toList
        (pre.getLast?.or before) (c :: post) = none := by
      intro hblock
      rw [toList_includeKeyword_default, Option.eq_none_iff_forall_ne_some]
      rintro ⟨head, inner⟩ hsome
      cases hlast : pre.getLast? with
      | some last =>
        rw [hlast, Option.some_or] at hsome
        refine h.directive (by simpa using hblock) ⟨pre.length, by simp [hbody], ?_⟩
        rw [hbody, List.take_left, List.drop_left, hlast, hsome]
        exact ⟨houtside, rfl⟩
      | none =>
        -- the first character is white space, so that no keyword begins with it
        obtain rfl := List.getLast?_eq_none_iff.mp hlast
        obtain ⟨b, cs, hcs, hblank⟩ := h.exists_cons
        obtain ⟨rfl, -⟩ := List.cons.inj (hbody.symm.trans hcs)
        obtain ⟨⟨tail, rfl⟩, -⟩ := head_default hsome
        obtain ⟨rfl, -⟩ := List.cons.inj (includeHead?_append hsome).2
        revert hblank
        decide
    unfold ClosesQuotes at houtside
    rw [houtside]
    exact passes_of_clear hcloser hhead
  · exact fun h => absurd h houtside

/-- A region in which all quotes are closed is read up to its closer. -/
theorem Content.readBody_eq (h : Content inline body) (hquotes : ClosesQuotes body)
    (before : Option Char) (behind : List Char) :
    readBody .default scope (!inline) before .outside [] (body ++ '?' :: '>' :: behind) =
      ⟨linePieces scope body, some behind⟩ := by
  rw [readBody_append_of_passes fun pre c post hbody => h.passes hbody before behind, hquotes,
    readBody_close]
  simp

/-- A region in which a quote stays open goes on behind its closer. -/
theorem Content.rest_ne (h : Content inline body) (hquotes : ¬ ClosesQuotes body) (scope : Scope)
    (before : Option Char) (behind : List Char) :
    (readBody .default scope (!inline) before .outside [] (body ++ '?' :: '>' :: behind)).rest? ≠
      some behind := by
  have hpasses : ∀ pre c post, body ++ ['?', '>'] = pre ++ c :: post →
      Passes (!inline) (pre.getLast?.or before) (pre.foldl Quoting.step .outside) c
        (post ++ behind) := by
    intro pre c post hsplit
    rcases List.append_eq_append_iff.mp hsplit with ⟨mark, rfl, hmark⟩ | ⟨ahead, hbody, hahead⟩
    · -- the characters of the closer stand in the quoted text
      have hopen : ¬ ClosesQuotes (body ++ mark) := by
        refine not_closesQuotes_append hquotes fun d hd => ?_
        have hcloser : (['?', '>'].any isQuote) = false := by decide
        simpa using List.any_eq_false.mp hcloser d (hmark ▸ List.mem_append_left _ hd)
      exact fun houtside => absurd houtside hopen
    · cases ahead with
      | nil =>
        obtain rfl : body = pre := by simpa using hbody
        exact fun houtside => absurd houtside hquotes
      | cons b ahead =>
        obtain ⟨rfl, rfl⟩ : c = b ∧ post = ahead ++ ['?', '>'] := by simpa using hahead
        rw [List.append_assoc]
        exact h.passes hbody before behind
  have hread : readBody .default scope (!inline) before .outside []
      (body ++ ['?', '>'] ++ behind) = _ := readBody_append_of_passes hpasses
  rw [List.append_assoc, List.cons_append, List.singleton_append] at hread
  intro hrest
  rw [hread] at hrest
  obtain ⟨x, hbehind, -⟩ := readBody_behind hrest
  have hlength := congrArg List.length hbehind
  simp at hlength
  omega

end

/-! ## The end of a region -/

/-- A range of a text that begins at a byte. -/
def Classified.behind (offset : Nat) (c : Classified) : Classified :=
  { c with start := offset + c.start, stop := offset + c.stop }

theorem rangesFrom_behind (offset start : Nat) (ps : List Piece) :
    rangesFrom (offset + start) ps = (rangesFrom start ps).map (Classified.behind offset) := by
  induction ps generalizing start with
  | nil => rfl
  | cons p ps ih =>
    simp only [rangesFrom, List.map_cons, Classified.behind, Nat.add_assoc, ← ih]

/-- The mark at the end of a region that has `n` bytes in front of its closer. -/
def closeRange (inline : Bool) (n : Nat) : Classified :=
  ⟨n, n + utf8Length Syntax.default.closer.toList, closeScope inline⟩

/-- The place behind a region. -/
def regionStop (opener body : List Char) : Position :=
  ((Position.origin.after opener).after body).after Syntax.default.closer.toList

/-- The span of the text in a region. -/
def scriptSpan (opener body : List Char) : Span :=
  ⟨.ofList body, bodyScope (Syntax.default.isInline opener), Position.origin.after opener,
    (Position.origin.after opener).after body⟩

/-- The spans of a region that ends at its closer. -/
def regionSpans (opener body : List Char) : List Span :=
  [⟨"", openScope (Syntax.default.isInline opener), .origin, Position.origin.after opener⟩,
    scriptSpan opener body,
    ⟨"", closeScope (Syntax.default.isInline opener), (scriptSpan opener body).stop,
      regionStop opener body⟩]

/-- The node of a region that ends at its closer. -/
def regionNode (opener body : List Char) : Node :=
  let location : Location := ⟨.origin, regionStop opener body⟩
  if Syntax.default.isInline opener then .inlineWrite location [scriptSpan opener body]
  else .block location [.script (scriptSpan opener body)]

/-- A region with a text in it ends at its closer: it becomes an opener, the text as it is and a
closer, and one node with the text.  What stands behind the closer is taken apart as it is alone,
and no region is malformed but those behind it. -/
structure EndsAtCloser (opener body behind : List Char) : Prop where
  classified :
    let inline := Syntax.default.isInline opener
    let mark := closeRange inline (utf8Length (opener ++ body))
    Syntax.default.classify (regionText opener body behind) =
      ⟨0, utf8Length opener, openScope inline⟩ ::
        (rangesFrom (utf8Length opener) (linePieces (bodyScope inline) body) ++
          mark :: (Syntax.default.classify behind).map (Classified.behind mark.stop))
  scanned :
    scan Syntax.default.classify (.ofList (regionText opener body behind)) =
      regionSpans opener body ++ (scan Syntax.default.classify (.ofList behind)).map
        (Span.behind (regionStop opener body))
  built :
    let alone := Tree.ofSpans (scan Syntax.default.classify (.ofList behind))
    Tree.ofSpans (scan Syntax.default.classify (.ofList (regionText opener body behind))) =
      ⟨regionNode opener body :: alone.nodes.map (Node.behind (regionStop opener body)),
        alone.malformed.map (Malformed.behind (regionStop opener body))⟩

section
variable {opener body behind : List Char}

/-- The opener of a region is the first one of the text. -/
theorem firstRegion_regionText (ho : opener ∈ defaultOpeners)
    (h : Content (Syntax.default.isInline opener) body) (behind : List Char) :
    FirstRegion (regionText opener body behind) [] opener (body ++ '?' :: '>' :: behind)
      (readBody .default (bodyScope (Syntax.default.isInline opener))
        (!Syntax.default.isInline opener) opener.getLast? .outside []
        (body ++ '?' :: '>' :: behind)) := by
  refine ⟨?_, rfl⟩
  obtain ⟨c, cs, rfl, hblank⟩ := h.exists_cons
  have hword : endsWord opener (c :: cs ++ '?' :: '>' :: behind) = true := by
    have hspace : ∀ o ∈ defaultOpeners, endsWord o [' '] = true := by decide +kernel
    have hsame : endsWord opener (c :: cs ++ '?' :: '>' :: behind) = endsWord opener [' '] := by
      have hblank' : isWordChar ' ' = false := by decide
      unfold endsWord
      simp [isWordChar_of_isBlank hblank, hblank']
    rw [hsame]
    exact hspace opener ho
  have hfound : openerAt? defaultOpeners (opener ++ (c :: cs ++ '?' :: '>' :: behind)) =
      some (opener, c :: cs ++ '?' :: '>' :: behind) := by
    rw [openerAt?_append_self ho, if_pos hword]
  obtain ⟨tail, rfl, -⟩ := first_of_mem_defaultOpeners ho
  rw [List.cons_append] at hfound
  rw [regionText, toList_closer_default, List.cons_append, findOpener?]
  simp only [List.cons_append, List.nil_append] at hfound ⊢
  rw [hfound]
  rfl

/-- The ranges of a text that begins with a region. -/
theorem classify_regionText (ho : opener ∈ defaultOpeners)
    (h : Content (Syntax.default.isInline opener) body) (behind : List Char) :
    let inline := Syntax.default.isInline opener
    let read := readBody .default (bodyScope inline) (!inline) opener.getLast? .outside []
      (body ++ '?' :: '>' :: behind)
    let text := opener ++ read.pieces.flatMap Piece.text
    Syntax.default.classify (regionText opener body behind) =
      ⟨0, utf8Length opener, openScope inline⟩ :: (rangesFrom (utf8Length opener) read.pieces ++
        rangesFrom (utf8Length text) (piecesBehind opener read.rest?)) := by
  intro inline read text
  rw [Syntax.classify, pieces_default, (firstRegion_regionText ho h behind).pieces_eq,
    show linePieces .text [] = [] from rfl, List.nil_append, rangesFrom, rangesFrom_append,
    Nat.zero_add, utf8Length_append]
  rfl

/-- The pieces of a region that ends at its closer. -/
def regionPieces (opener body : List Char) : List Piece :=
  openMark opener :: (linePieces (bodyScope (Syntax.default.isInline opener)) body ++
    [⟨closeScope (Syntax.default.isInline opener), Syntax.default.closer.toList⟩])

theorem defaultPieces_regionText (ho : opener ∈ defaultOpeners)
    (h : Content (Syntax.default.isInline opener) body) (hquotes : ClosesQuotes body)
    (behind : List Char) :
    defaultPieces (regionText opener body behind) =
      regionPieces opener body ++ defaultPieces behind := by
  rw [(firstRegion_regionText ho h behind).pieces_eq, h.readBody_eq hquotes]
  simp [regionPieces, piecesBehind, closeScope, linePieces, splitLines]

theorem flatMap_regionPieces (opener body : List Char) :
    (regionPieces opener body).flatMap Piece.text =
      opener ++ (body ++ Syntax.default.closer.toList) := by
  simp [regionPieces, openMark, flatMap_linePieces]

/-- A scanner passes the region and ends it with its mark. -/
theorem pass_regionPieces (hbody : body ≠ []) (behind : List Char) :
    Scanner.start.pass (regionText opener body behind) [] (regionPieces opener body) =
      ⟨(regionSpans opener body).reverse, none,
        utf8Length (opener ++ body ++ Syntax.default.closer.toList)⟩ := by
  have hopenMark (inline : Bool) : openScope inline ≠ .delimiter ∧
      (openScope inline).isContent = false := by cases inline <;> decide
  have hcloseMark (inline : Bool) : closeScope inline ≠ .delimiter ∧
      (closeScope inline).isContent = false := by cases inline <;> decide
  have hcontent (inline : Bool) : (bodyScope inline).isContent = true := by cases inline <;> rfl
  have hfirst : regionText opener body behind =
      [] ++ opener ++ (body ++ (Syntax.default.closer.toList ++ behind)) := rfl
  have hmiddle : regionText opener body behind =
      [] ++ opener ++ body ++ (Syntax.default.closer.toList ++ behind) := by simp [regionText]
  have hlast : regionText opener body behind =
      [] ++ opener ++ body ++ Syntax.default.closer.toList ++ behind := by simp [regionText]
  generalize hinline : Syntax.default.isInline opener = inline
  have hmark : openMark opener = ⟨openScope inline, opener⟩ := by rw [openMark, hinline, openScope]
  rw [regionPieces, hmark, Scanner.pass_cons,
    Scanner.step_mark hfirst rfl (hopenMark inline).1 (hopenMark inline).2, Scanner.pass_append,
    hinline, Scanner.pass_linePieces rfl rfl hmiddle (hcontent inline) hbody, flatMap_linePieces,
    Scanner.pass_cons, Scanner.step_mark hlast rfl (hcloseMark inline).1 (hcloseMark inline).2]
  simp [Scanner.pass, rangesFrom, regionSpans, scriptSpan, regionStop, hinline,
    Position.after_append, Scanner.start]

theorem foldl_regionSpans (opener body : List Char) :
    (regionSpans opener body).foldl Builder.step .start =
      ⟨[regionNode opener body], [], none, none⟩ := by
  unfold regionSpans regionNode scriptSpan
  cases Syntax.default.isInline opener <;> rfl

/-- A region in which all quotes are closed ends at its closer. -/
theorem Content.endsAtCloser (ho : opener ∈ defaultOpeners)
    (h : Content (Syntax.default.isInline opener) body) (hquotes : ClosesQuotes body)
    (behind : List Char) : EndsAtCloser opener body behind := by
  have hbody : body ≠ [] := by
    obtain ⟨c, cs, rfl, -⟩ := h.exists_cons
    exact List.cons_ne_nil c cs
  have hsplit : regionText opener body behind =
      opener ++ (body ++ Syntax.default.closer.toList) ++ behind := by simp [regionText]
  have hpieces := defaultPieces_regionText ho h hquotes behind
  have hpass : Scanner.start.pass (regionText opener body behind) [] (regionPieces opener body) =
      _ := pass_regionPieces hbody behind
  have hstop : Position.origin.after (opener ++ (body ++ Syntax.default.closer.toList)) =
      regionStop opener body := by
    rw [regionStop, Position.after_append, Position.after_append]
  have hscanned : scan Syntax.default.classify (.ofList (regionText opener body behind)) =
      regionSpans opener body ++ (scan Syntax.default.classify (.ofList behind)).map
        (Span.behind (regionStop opener body)) := by
    rw [hsplit] at hpieces hpass ⊢
    rw [scan_behind hpieces (flatMap_regionPieces opener body) (by rw [hpass])
      (by rw [hpass, List.append_assoc]), hpass, List.reverse_reverse, hstop]
  refine ⟨?_, hscanned, ?_⟩
  · intro inline mark
    have halone : Syntax.default.classify behind = rangesFrom 0 (defaultPieces behind) := by
      rw [Syntax.classify, pieces_default]
    have hclassified := classify_regionText ho h behind
    simp only [h.readBody_eq hquotes, flatMap_linePieces] at hclassified
    rw [hclassified, halone, ← rangesFrom_behind]
    rfl
  · intro alone
    rw [hscanned, ofSpans_behind (foldl_regionSpans opener body)]
    rfl

/-- What stands in a region has no mark of the end of a region. -/
theorem scope_ne_closeScope (inline : Bool) (before : Option Char) (quoting : Quoting)
    (chunk cs : List Char) :
    ∀ p ∈ (readBody .default (bodyScope inline) (!inline) before quoting chunk cs).pieces,
      p.scope ≠ closeScope inline := by
  intro p hp hscope
  have hother := scope_of_mem_readBody _ _ _ _ _ _ p hp
  rw [hscope] at hother
  cases inline <;> simp [bodyScope, closeScope, Scope.marksDirective] at hother

/-- The first mark of the end of a region stands behind what is in the region. -/
theorem find?_closeScope {inline : Bool} {ps : List Piece}
    (h : ∀ p ∈ ps, p.scope ≠ closeScope inline) (stop start : Nat) (back : List Classified) :
    (⟨0, stop, openScope inline⟩ :: (rangesFrom start ps ++ back)).find?
      (·.scope == closeScope inline) = back.find? (·.scope == closeScope inline) := by
  have hopen : (openScope inline == closeScope inline) = false := by cases inline <;> rfl
  have hnone : (rangesFrom start ps).find? (·.scope == closeScope inline) = none := by
    induction ps generalizing start with
    | nil => rfl
    | cons p ps ih =>
      obtain ⟨hp, hps⟩ := List.forall_mem_cons.mp h
      rw [rangesFrom, List.find?_cons_of_neg (by simpa using hp), ih hps]
  rw [List.find?_cons_of_neg (by simp [hopen]), List.find?_append, hnone, Option.none_or]

/-- Only if all quotes are closed a region ends at its closer: else the first mark of the end of a
region stands further behind, or there is none. -/
theorem EndsAtCloser.closesQuotes (hends : EndsAtCloser opener body behind)
    (ho : opener ∈ defaultOpeners) (h : Content (Syntax.default.isInline opener) body) :
    ClosesQuotes body := by
  by_contra hquotes
  have hclassified := (classify_regionText ho h behind).symm.trans hends.classified
  have hrest := h.rest_ne hquotes (bodyScope (Syntax.default.isInline opener)) opener.getLast?
    behind
  have htext := readBody_append .default (bodyScope (Syntax.default.isInline opener))
    (!Syntax.default.isInline opener) opener.getLast? .outside [] (body ++ '?' :: '>' :: behind)
  have hscopes := scope_ne_closeScope (Syntax.default.isInline opener) opener.getLast? .outside []
    (body ++ '?' :: '>' :: behind)
  generalize readBody .default _ _ _ _ _ _ = read at hclassified hrest htext hscopes
  have hlines : ∀ p ∈ linePieces (bodyScope (Syntax.default.isInline opener)) body,
      p.scope ≠ closeScope (Syntax.default.isInline opener) := by
    intro p hp
    rw [scope_of_mem_linePieces p hp]
    cases Syntax.default.isInline opener <;> decide
  have hmark := congrArg
    (List.find? (·.scope == closeScope (Syntax.default.isInline opener))) hclassified
  rw [find?_closeScope hlines, find?_closeScope hscopes,
    List.find?_cons_of_pos (by simp [closeRange])] at hmark
  cases hread : read.rest? with
  | none =>
    rw [hread] at hmark
    cases hmark
  | some rest =>
    simp only [hread, Option.elim_some, List.reverse_nil, List.nil_append] at htext
    rw [hread, piecesBehind, rangesFrom, List.find?_cons_of_pos (by simp [closeScope])] at hmark
    have hplace := congrArg Classified.start (Option.some.inj hmark)
    have hlength : utf8Length (read.pieces.flatMap Piece.text) = utf8Length body := by
      simpa [closeRange, utf8Length_append] using hplace
    rw [Scanner.prefix_eq_of_utf8Length htext hlength] at htext
    obtain rfl : rest = behind := by simpa [toList_closer_default] using htext
    exact hrest hread

end

theorem endsAtCloser_iff {opener body : List Char} (ho : opener ∈ defaultOpeners)
    (h : Content (Syntax.default.isInline opener) body) (behind : List Char) :
    EndsAtCloser opener body behind ↔ ClosesQuotes body :=
  ⟨fun hends => hends.closesQuotes ho h, fun hquotes => h.endsAtCloser ho hquotes behind⟩

/-- **A region ends at its closer if and only if the text in it closes its quotes.**  A script does
so if its comments and its regular expressions, and what is quoted in the expressions of its
template literals, leave the quotes as they are. -/
theorem region_ends {opener body : List Char} (ho : opener ∈ defaultOpeners)
    (h : Content (Syntax.default.isInline opener) body) (behind : List Char) :
    (EndsAtCloser opener body behind ↔ ClosesQuotes body) ∧
      ∀ readings (c : Script.Cursor), c.ahead = body →
        Script.readsCalmly readings false c = true → EndsAtCloser opener body behind := by
  refine ⟨endsAtCloser_iff ho h behind, ?_⟩
  rintro readings c rfl hcalm
  exact h.endsAtCloser ho (Script.turns_of_readsCalmly hcalm) behind

/-- A script with quotes in a string, in a comment, in an expression of a template literal and in a
regular expression. -/
def quotingScript : List Char :=
  " let s = 'it\\'s'; // 'fine'\n let t = \x60$\x7b\"don't\"\x7d\x60; /'\"'/.test(s); ".toList

theorem region_ends_quotingScript :
    ("<?exp".toList ∈ defaultOpeners ∧
      Content (Syntax.default.isInline "<?exp".toList) quotingScript ∧
      (Script.readProgram (.ofList quotingScript)).isOk = true) ∧
    EndsAtCloser "<?exp".toList quotingScript "after".toList := by
  have hopener : "<?exp".toList ∈ defaultOpeners := by decide
  have hcontent : Content (Syntax.default.isInline "<?exp".toList) quotingScript := by
    decide +kernel
  have hprogram : (Script.readProgram (.ofList quotingScript)).isOk = true := by decide +kernel
  let readings : List Script.Reading := .replicate 10 .token ++ [.templateRest, .token, .regex] ++
    .replicate 6 .token
  have hcalm : Script.readsCalmly readings false ⟨0, quotingScript, quotingScript.length⟩ =
      true := by decide +kernel
  exact ⟨⟨hopener, hcontent, hprogram⟩,
    (region_ends hopener hcontent "after".toList).2 readings _ rfl hcalm⟩

/-- A comment with a quote in it takes the closer of its region, and all text behind it. -/
theorem comment_hides_closer :
    Content (Syntax.default.isInline "<?exp".toList) " // don't\n".toList ∧
      Script.readProgram " // don't\n" = .ok [] ∧
      ¬ EndsAtCloser "<?exp".toList " // don't\n".toList "after".toList ∧
      Tree.ofSpans (scan Syntax.default.classify "<?exp // don't\n?>after") =
        ⟨[.block ⟨⟨0, 0⟩, ⟨1, 7⟩⟩ [.script ⟨" // don't\n?>after", .block, ⟨0, 5⟩, ⟨1, 7⟩⟩]],
          [⟨.block, ⟨0, 0⟩⟩]⟩ := by
  have hcontent : Content (Syntax.default.isInline "<?exp".toList) " // don't\n".toList := by
    decide +kernel
  refine ⟨hcontent, rfl, fun hends => ?_, ?_⟩
  · have hquotes : ¬ ClosesQuotes " // don't\n".toList := by decide +kernel
    exact hquotes (hends.closesQuotes (by decide) hcontent)
  · rw [Syntax.classify_default]
    decide +kernel

end Template

end Stencil
