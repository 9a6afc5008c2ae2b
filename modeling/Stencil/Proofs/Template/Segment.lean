import Stencil.Proofs.Template.Replacement

/-! # Templates as they are written

A template is written as texts and regions, one behind the other.  What stands in a region consists
of quoted texts and of other characters, so that the closer and the keyword of a directive may stand
in a quoted text but nowhere else.  Such a template is taken apart into the segments that it is
written as: no mark is found across a seam of two of them.
-/
namespace Stencil.Template

/-! ## Regions -/

/-- A character of a quoted text. -/
inductive Quoted (quote : Char)
  | plain (c : Char) (h : c ≠ quote ∧ c ≠ '\\')
  | escaped (c : Char)

/-- The text of a character of a quoted text. -/
def Quoted.text {quote : Char} : Quoted quote → List Char
  | .plain c _ => [c]
  | .escaped c => ['\\', c]

/-- A part of what stands in a region: a quoted text, or a character that is no quote. -/
inductive Item
  | literal (quote : Char) (h : isQuote quote = true) (inside : List (Quoted quote))
  | char (c : Char) (h : isQuote c = false)

/-- The text of a part, with its quotes. -/
def Item.text : Item → List Char
  | .literal quote _ inside => quote :: (inside.flatMap Quoted.text ++ [quote])
  | .char c _ => [c]

/-- The text of what stands in a region. -/
def bodyText (items : List Item) : List Char := items.flatMap Item.text

theorem bodyText_cons (item : Item) (items : List Item) :
    bodyText (item :: items) = item.text ++ bodyText items := rfl

/-- Outside of quoted texts neither the closer nor, in a block, a directive begins. `before` is the
character in front of the items. -/
def Clear (inline : Bool) (before : Option Char) : List Item → Prop
  | [] => True
  | item :: items =>
    ¬ Syntax.default.closer.toList <+: bodyText (item :: items) ∧
      (inline = false → includeHead? Syntax.default.includeKeyword.toList before
        (bodyText (item :: items)) = none) ∧
      Clear inline item.text.getLast? items

instance decidableClear (inline : Bool) : ∀ before items, Decidable (Clear inline before items)
  | _, [] => .isTrue trivial
  | _, item :: items =>
    have := decidableClear inline item.text.getLast? items
    inferInstanceAs (Decidable (_ ∧ _ ∧ _))

/-! ## Segments -/

/-- A text, or a region with what stands in it. -/
inductive Segment
  | text (value : String)
  | region (inline : Bool) (items : List Item)

/-- The opener of a region. -/
def opener (inline : Bool) : List Char := if inline then "<?e=".toList else "<?exp".toList

namespace Segment

/-- Whether a segment is a text. -/
def isText : Segment → Bool
  | text _ => true
  | region _ _ => false

/-- The text that a segment is written as. -/
def print : Segment → List Char
  | text value => value.toList
  | region inline items =>
    opener inline ++ (bodyText items ++ Syntax.default.closer.toList)

/-- A text is not empty and has no beginning of an opener; the opener of a block is not continued by
what stands in the block. -/
def WellFormed : Segment → Prop
  | text value => value ≠ "" ∧ ¬ ['<', '?'] <:+: value.toList
  | region inline items =>
    (inline = false → (bodyText items).head?.any isWordChar = false) ∧
      Clear inline (opener inline).getLast? items

instance : DecidablePred WellFormed
  | text _ => inferInstanceAs (Decidable (_ ∧ _))
  | region _ _ => inferInstanceAs (Decidable (_ ∧ _))

end Segment

/-- The text that segments are written as. -/
def print (segments : List Segment) : List Char := segments.flatMap Segment.print

/-- Texts and regions as they can be told apart again: no text follows another one. -/
structure Legible (segments : List Segment) : Prop where
  wellFormed : ∀ s ∈ segments, s.WellFormed
  apart : segments.IsChain fun a b => a.isText = false ∨ b.isText = false

/-! ## What stands in a region -/

section
variable {scope : Scope} {includes inline : Bool} {before : Option Char} {quoting : Quoting}
  {chunk cs : List Char}

/-- In a quoted text every character is passed. -/
theorem readBody_inside {c : Char} (h : quoting ≠ .outside) :
    readBody .default scope includes before quoting chunk (c :: cs) =
      readBody .default scope includes (some c) (quoting.step c) (c :: chunk) cs :=
  readBody_pass fun houtside => absurd houtside h

theorem readBody_quoted {quote : Char} (hquote : isQuote quote = true)
    (inside : List (Quoted quote)) :
    readBody .default scope includes before (.inside quote) chunk
        (inside.flatMap Quoted.text ++ quote :: cs) =
      readBody .default scope includes (some quote) .outside
        (quote :: ((inside.flatMap Quoted.text).reverse ++ chunk)) cs := by
  have hslash : quote ≠ '\\' := by
    rintro rfl
    cases hquote
  induction inside generalizing before chunk with
  | nil =>
    have hstep : (Quoting.inside quote).step quote = .outside := by simp [Quoting.step, hslash]
    rw [List.flatMap_nil, List.nil_append, readBody_inside (Quoting.noConfusion ·), hstep]
    rfl
  | cons x inside ih =>
    rw [List.flatMap_cons, List.append_assoc]
    cases x with
    | plain c h =>
      have hstep : (Quoting.inside quote).step c = .inside quote := by
        simp [Quoting.step, h.1, h.2]
      rw [Quoted.text, List.singleton_append, readBody_inside (Quoting.noConfusion ·), hstep, ih]
      simp
    | escaped c =>
      have hstep : (Quoting.inside quote).step '\\' = .escaped quote := rfl
      rw [Quoted.text, List.cons_append, List.singleton_append,
        readBody_inside (Quoting.noConfusion ·), hstep, readBody_inside (Quoting.noConfusion ·),
        Quoting.step, ih]
      simp

/-- What begins neither the closer nor a directive does not do so if the closer stands behind it. -/
theorem passes_of_clear {c : Char} {ahead behind : List Char}
    (hcloser : ¬ Syntax.default.closer.toList <+: c :: ahead)
    (hhead : includes = true →
      includeHead? Syntax.default.includeKeyword.toList before (c :: ahead) = none) :
    Passes includes before .outside c (ahead ++ '?' :: '>' :: behind) := by
  have hpasses : Passes includes before .outside c (ahead ++ []) := by
    rw [List.append_nil]
    refine fun _ => ⟨?_, fun _ hincludes => hhead hincludes⟩
    rw [Option.eq_none_iff_forall_ne_some]
    exact fun rest hrest => hcloser ⟨rest, (stripStart?_eq_some_iff.mp hrest).symm⟩
  refine hpasses.replace (by simp) fun more head inner hne hsome hform hbehind => ?_
  cases more with
  | nil => exact hne rfl
  | cons a more =>
    obtain ⟨rfl, -⟩ := List.cons.inj hbehind
    exact (head_default hsome).2 (by simp [hform])

/-- A region is read up to the closer behind what stands in it. -/
theorem readBody_items {items : List Item} (h : Clear inline before items) (behind : List Char) :
    readBody .default scope (!inline) before .outside chunk
        (bodyText items ++ '?' :: '>' :: behind) =
      ⟨linePieces scope (chunk.reverse ++ bodyText items), some behind⟩ := by
  induction items generalizing before chunk with
  | nil => simpa [bodyText] using readBody_close
  | cons item items ih =>
    obtain ⟨hcloser, hhead, hclear⟩ := h
    have hhead : (!inline) = true → includeHead? Syntax.default.includeKeyword.toList before
        (bodyText (item :: items)) = none := fun hblock => hhead (by simpa using hblock)
    cases item with
    | char c hc =>
      have hpasses : Passes (!inline) before .outside c (bodyText items ++ '?' :: '>' :: behind) :=
        passes_of_clear hcloser hhead
      have hstep : Quoting.outside.step c = .outside := by simp [Quoting.step, hc]
      rw [bodyText_cons, Item.text, List.singleton_append, List.cons_append,
        readBody_pass hpasses, hstep]
      have hread := @ih _ (c :: chunk) hclear
      rw [Item.text, List.getLast?_singleton] at hread
      rw [hread]
      simp
    | literal quote hquote inside =>
      have hpasses : Passes (!inline) before .outside quote
          (inside.flatMap Quoted.text ++ [quote] ++ bodyText items ++ '?' :: '>' :: behind) :=
        passes_of_clear hcloser hhead
      have hstep : Quoting.outside.step quote = .inside quote := by simp [Quoting.step, hquote]
      have hlast : (Item.literal quote hquote inside).text.getLast? = some quote := by
        simp [Item.text, List.getLast?_cons, List.getLast?_append]
      have hread := @ih _ (quote :: ((inside.flatMap Quoted.text).reverse ++ quote :: chunk)) hclear
      rw [hlast] at hread
      have htext : bodyText (.literal quote hquote inside :: items) ++ '?' :: '>' :: behind =
          quote :: (inside.flatMap Quoted.text ++ [quote] ++ bodyText items ++
            '?' :: '>' :: behind) := by
        rw [bodyText_cons, Item.text, List.cons_append, List.cons_append]
      rw [htext, readBody_pass hpasses, hstep, List.append_assoc, List.append_assoc,
        List.singleton_append, readBody_quoted hquote, hread]
      simp [bodyText_cons, Item.text]

end

/-! ## Openers -/

/-- An opener does not begin where a text goes on without the beginning of one. -/
theorem openerAt?_eq_none {cs : List Char} (h : ¬ ['<', '?'] <+: cs) :
    openerAt? defaultOpeners cs = none := by
  rw [openerAt?_eq_none_iff]
  rintro o ho rest rfl
  refine absurd ?_ h
  have hbegin : ∀ o ∈ defaultOpeners, ['<', '?'] <+: o := by decide
  exact (hbegin o ho).trans (List.prefix_append o rest)

/-- In a text without the beginning of an opener none is found, if one follows or nothing does. -/
theorem findOpener?_behind_text {value ahead : List Char} (h : ¬ ['<', '?'] <:+: value)
    (hahead : ahead.head? ≠ some '?') (before : List Char) :
    findOpener? defaultOpeners before (value ++ ahead) =
      findOpener? defaultOpeners (value.reverse ++ before) ahead := by
  induction value generalizing before with
  | nil => rfl
  | cons c value ih =>
    have hrest : ¬ ['<', '?'] <:+: value := fun hin =>
      h (hin.trans (List.suffix_cons c value).isInfix)
    have hnone : openerAt? defaultOpeners (c :: (value ++ ahead)) = none := by
      refine openerAt?_eq_none fun ⟨rest, hbegin⟩ => ?_
      obtain ⟨rfl, hsplit⟩ := List.cons.inj hbegin
      cases value with
      | nil => exact hahead (by rw [show ahead = '?' :: rest from hsplit.symm]; rfl)
      | cons d value =>
        obtain ⟨rfl, -⟩ := List.cons.inj hsplit
        exact h (List.prefix_append ['<', '?'] value).isInfix
    rw [List.cons_append, findOpener?, hnone]
    simp [ih hrest]

theorem opener_mem (inline : Bool) : opener inline ∈ defaultOpeners := by
  cases inline <;> decide

theorem isInline_opener (inline : Bool) : Syntax.default.isInline (opener inline) = inline := by
  cases inline <;> decide

/-- The opener of a region is found if what stands in the region does not continue it. -/
theorem findOpener?_opener {inline : Bool} {ahead : List Char}
    (h : inline = false → ahead.head?.any isWordChar = false) (before : List Char) :
    findOpener? defaultOpeners before (opener inline ++ ahead) =
      some (before.reverse, opener inline, ahead) := by
  have hword : endsWord (opener inline) ahead = true := by
    cases inline with
    | true => rfl
    | false =>
      have hlast : (opener false).getLast? = some 'p' := rfl
      have hp : isWordChar 'p' = true := by decide
      rw [endsWord, hlast]
      simp [hp, h rfl]
  have hfound : openerAt? defaultOpeners (opener inline ++ ahead) = some (opener inline, ahead) := by
    rw [openerAt?_append_self (opener_mem inline), if_pos hword]
  obtain ⟨tail, htail, -⟩ := first_of_mem_defaultOpeners (opener_mem inline)
  rw [htail] at hfound ⊢
  rw [List.cons_append, findOpener?, ← List.cons_append, hfound]

/-! ## Segments are told apart -/

/-- The scope of what stands in a region. -/
def bodyScope (inline : Bool) : Scope := if inline then .inlineWrite else .block

/-- The mark at the beginning of a region. -/
def openScope (inline : Bool) : Scope := if inline then .inlineOpen else .blockOpen

/-- The mark at the end of a region. -/
def closeScope (inline : Bool) : Scope := if inline then .inlineClose else .blockClose

/-- The pieces of a segment. -/
def Segment.pieces : Segment → List Piece
  | text value => linePieces .text value.toList
  | region inline items => ⟨openScope inline, opener inline⟩ ::
      (linePieces (bodyScope inline) (bodyText items) ++
        [⟨closeScope inline, Syntax.default.closer.toList⟩])

/-- A region is taken apart behind a text and in front of anything. -/
theorem defaultPieces_region {value : List Char} (hvalue : ¬ ['<', '?'] <:+: value) {inline : Bool}
    {items : List Item} (h : (Segment.region inline items).WellFormed) (behind : List Char) :
    defaultPieces (value ++ ((Segment.region inline items).print ++ behind)) =
      linePieces .text value ++ ((Segment.region inline items).pieces ++ defaultPieces behind) := by
  obtain ⟨hword, hclear⟩ := h
  have hprint : (Segment.region inline items).print ++ behind =
      opener inline ++ (bodyText items ++ '?' :: '>' :: behind) := by
    simp [Segment.print, toList_closer_default]
  have hfirst : (opener inline ++ (bodyText items ++ '?' :: '>' :: behind)).head? ≠ some '?' := by
    cases inline <;> simp [opener]
  have hahead : inline = false →
      (bodyText items ++ '?' :: '>' :: behind).head?.any isWordChar = false := by
    intro hblock
    have hquestion : isWordChar '?' = false := by decide
    have hhead := hword hblock
    cases hbody : bodyText items with
    | nil => exact hquestion
    | cons c cs => rwa [hbody] at hhead
  have hfound : findOpener? defaultOpeners []
      (value ++ (opener inline ++ (bodyText items ++ '?' :: '>' :: behind))) =
        some (value, opener inline, bodyText items ++ '?' :: '>' :: behind) := by
    rw [findOpener?_behind_text hvalue hfirst, findOpener?_opener hahead]
    simp
  have hbody : readBody .default (bodyScope inline) (!inline) (opener inline).getLast? .outside []
      (bodyText items ++ '?' :: '>' :: behind) =
        ⟨linePieces (bodyScope inline) (bodyText items), some behind⟩ :=
    readBody_items hclear behind
  have hregion : FirstRegion (value ++ (opener inline ++ (bodyText items ++ '?' :: '>' :: behind)))
      value (opener inline) (bodyText items ++ '?' :: '>' :: behind)
      ⟨linePieces (bodyScope inline) (bodyText items), some behind⟩ :=
    ⟨hfound, by rw [isInline_opener]; exact hbody⟩
  rw [hprint, hregion.pieces_eq, openMark, piecesBehind, isInline_opener]
  simp [Segment.pieces, openScope, closeScope]

/-- A text is taken apart into its lines. -/
theorem defaultPieces_text {value : List Char} (hvalue : ¬ ['<', '?'] <:+: value) :
    defaultPieces value = linePieces .text value := by
  have hnone : findOpener? defaultOpeners [] value = none := by
    have hend : ([] : List Char).head? ≠ some '?' := nofun
    have happend := findOpener?_behind_text hvalue hend []
    rwa [List.append_nil] at happend
  by_contra hne
  obtain ⟨before, o, inner, body, hfirst⟩ := exists_firstRegion hne
  rw [hfirst.found] at hnone
  cases hnone

/-- **What is written as segments is taken apart into these segments.** -/
theorem defaultPieces_print : ∀ {segments : List Segment}, Legible segments →
    defaultPieces (print segments) = segments.flatMap Segment.pieces
  | [], _ => defaultPieces_text (show ¬ ['<', '?'] <:+: [] by simp)
  | [.text value], h => by
    obtain ⟨-, hvalue⟩ := h.wellFormed _ List.mem_cons_self
    simpa [print, Segment.print, Segment.pieces] using defaultPieces_text hvalue
  | .text value :: .region inline items :: rest, h => by
    obtain ⟨-, hvalue⟩ := h.wellFormed _ List.mem_cons_self
    have hregion := h.wellFormed (.region inline items) (by simp)
    have hrest : Legible rest :=
      ⟨fun s hs => h.wellFormed s (by simp [hs]), h.apart.of_cons.of_cons⟩
    have hprint : print (.text value :: .region inline items :: rest) =
        value.toList ++ ((Segment.region inline items).print ++ print rest) := rfl
    rw [hprint, defaultPieces_region hvalue hregion, defaultPieces_print hrest]
    rfl
  | .text _ :: .text _ :: _, h => by
    rcases (List.isChain_cons_cons.mp h.apart).1 with hfalse | hfalse <;> cases hfalse
  | .region inline items :: rest, h => by
    have hregion := h.wellFormed _ List.mem_cons_self
    have hrest : Legible rest :=
      ⟨fun s hs => h.wellFormed s (List.mem_cons_of_mem _ hs), h.apart.of_cons⟩
    have hprint : print (.region inline items :: rest) =
        [] ++ ((Segment.region inline items).print ++ print rest) := rfl
    rw [hprint, defaultPieces_region (by simp) hregion, defaultPieces_print hrest]
    rfl

end Stencil.Template
