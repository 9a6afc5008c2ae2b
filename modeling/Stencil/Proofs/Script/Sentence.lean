import Stencil.Document.OfTree
import Stencil.Proofs.Script.Inversion
import Stencil.Proofs.Script.Phrase

/-! # Sentences

A phrase that is a call makes a statement, and a program of such statements is read as what they
say.  So is a phrase that is a source of its own.  The statement that a template's text becomes is
such a program: a call of the function that writes, with the text itself as the argument, whatever
the text is.
-/
namespace Stencil.Script
open Template (writeStatement)

/-! ## Statements -/

namespace Grammar

variable {dialect : Bool} {fuel depth : Nat} {c c₁ c₂ : Cursor} {word mark : String} {e : Expr}
  {r r' : Reader}

/-- An expression that begins with a word that is not reserved is a statement, where a statement
ends behind it. With `let`, it would be a declaration. -/
theorem statement_word (h : c.Shows (.word word false) c₁) (h' : c₁.Shows (.mark mark) c₂)
    (hmark : mark ∈ ["(", "."]) (hreserved : word ∉ reservedWords) (hawait : word ≠ "await")
    (hlet : word ≠ "let") (place : Place)
    (hread : (bounded fuel depth).expression (.facing dialect c) = .ok (e, r))
    (hname : ∀ span name, e ≠ .name span name) (hover : endStatement r = .ok ((), r')) :
    (bounded fuel (depth + 1)).statement place (.facing dialect c) = .ok (.expression e, r') := by
  have hexpression : (bounded fuel depth).expressionStatement (.facing dialect c) =
      .ok (.expression e, r') := by
    simp only [expressionStatement, Parse.bind_apply, here_apply, Parse.ok_bind, hread]
    cases e with
    | name span name => exact absurd rfl (hname span name)
    | _ => simp [hover]
  have hsecond : (nextLexeme c₁).1.isWord "function" = false ∧ (nextLexeme c₁).1.isName = false ∧
      (nextLexeme c₁).1.isMark "\x7b" = false := by
    have hne : mark ≠ "\x7b" := by
      rintro rfl
      exact absurd hmark (by decide)
    simp [Lexeme.isWord, Lexeme.isName, Lexeme.isMark, h'.token_nextLexeme, hne]
  have hcontext : ∀ start,
      (bounded fuel depth).contextualStatement place start (nextLexeme c₁).1 (.facing dialect c) =
        .ok (.expression e, r') := by
    intro start
    have hlexeme : (Reader.facing dialect c).lexeme.isWord "await" = false := by
      simpa [Lexeme.isWord, h.token_eq] using hawait
    simp [contextualStatement, atRelease, atAwaitedRelease, hsecond, hlexeme, hexpression]
  show statementStep (bounded fuel depth) place _ = _
  simp only [statementStep, Parse.bind_apply, ahead_apply, Parse.ok_bind, h.token_eq, second_apply,
    h.cursor_eq, wordStatement, Lexeme.text]
  split
  case h_3 => exact absurd rfl hlet
  case h_20 => exact hcontext _
  all_goals exact absurd (by decide) hreserved

/-- A semicolon alone is a statement. -/
theorem statement_semicolon (h : r.lexeme.isMark ";" = true) (place : Place) :
    (bounded fuel (depth + 1)).statement place r = .ok (.empty, r.passed) := by
  show statementStep (bounded fuel depth) place r = _
  simp only [statementStep, Parse.bind_apply, ahead_apply, Parse.ok_bind,
    Lexeme.token_of_isMark h]
  show (pass r).bind _ = _
  rw [pass_of_isMark h]
  rfl

end Grammar

theorem Reader.passed_facing {dialect : Bool} {c c' c'' : Cursor} {token next : Token}
    (h : c.Shows token c') (h' : c'.Shows next c'') :
    (facing dialect c).passed = facing dialect c' := by
  obtain ⟨start, h⟩ := h
  obtain ⟨start', h'⟩ := h'
  simp [Reader.passed, Reader.facing, h, h']

/-- The word that a callee begins with. -/
def Callee.first : Callee → String
  | .name word => word
  | .member owner _ => owner

theorem Callee.Sayable.isName_first {callee : Callee} (h : callee.Sayable) :
    IsName callee.first := by
  cases h with
  | name hname => exact hname
  | member howner => exact howner

/-- Behind its first word, a callee goes on or is called. -/
theorem Callee.Sayable.shows_first {callee : Callee} (h : callee.Sayable) (offset : Nat)
    (args : List Char) {bound : Nat} (hbound : callee.written.length ≤ bound) : ∃ mark c₁ c₂,
      Cursor.Shows ⟨offset, callee.written ++ '(' :: args, bound⟩ (.word callee.first false) c₁ ∧
        c₁.Shows (.mark mark) c₂ ∧ mark ∈ ["(", "."] := by
  cases h with
  | @name word hname =>
    rw [Callee.written, String.length_toList] at hbound
    have hword := shows_word bound 0 offset hname.plain hbound
      (wordEnds_of_mem (by decide : '(' ∈ _) args)
    exact ⟨"(", _, _, hword, ⟨_, rfl⟩, by simp⟩
  | @member owner word howner hplain =>
    simp only [Callee.written, List.length_append, List.length_cons, String.length_toList] at hbound
    have hword := shows_word bound 0 offset howner.plain (by omega)
      (wordEnds_of_mem (by decide : '.' ∈ _) (word.toList ++ '(' :: args))
    rw [Callee.written, List.append_assoc, List.cons_append]
    exact ⟨".", _, _, hword, shows_point _ _ hplain, by simp⟩

/-- A phrase that can stand as a statement: a call that does not begin with the word of a
declaration. -/
def Phrase.IsStatement : Phrase → Prop
  | .call callee _ => callee.first ≠ "let"
  | _ => False

section

open Grammar

variable (dialect : Bool) {char : Char → List Char} {fuel depth bound : Nat} {rest : List Char}

/-- A phrase alone, up to the end of a source or of a statement, is an expression. -/
theorem Phrase.expression {p : Phrase} (hp : p.Sayable char) (offset : Nat)
    (hrest : rest = [] ∨ ∃ behind, rest = ';' :: behind)
    (hfits : Fits (p.written char).length bound fuel depth) :
    ∃ e, p.Says e ∧ (bounded (fuel + 1) (depth + 3)).expression
      (.facing dialect ⟨offset, p.written char ++ rest, bound⟩) =
        .ok (e, .facing dialect ⟨offset + (p.written char).length, rest, bound⟩) := by
  have hclosing : Closing rest := by obtain rfl | ⟨behind, rfl⟩ := hrest <;> simp [Closing]
  obtain ⟨e, hsaid, hread⟩ := p.readsOperand dialect hp 0 offset hclosing hfits
  rw [Nat.add_zero, List.replicate_zero, List.nil_append] at hread
  refine ⟨e, hsaid, ?_⟩
  generalize offset + (p.written char).length = stop at hread ⊢
  have hend : (Reader.facing dialect ⟨stop, rest, bound⟩).EndsExpression ∧
      (Reader.facing dialect ⟨stop, rest, bound⟩).lexeme.token.Closes := by
    obtain ⟨token, c', hshows, hcloses⟩ := hclosing.shows bound stop
    have hclosed : (Reader.facing dialect ⟨stop, rest, bound⟩).lexeme.token.Closes :=
      hshows.token_eq.symm ▸ hcloses
    refine ⟨⟨Reader.endsOperand_of_closes hclosed, ?_⟩, hclosed⟩
    obtain rfl | ⟨behind, rfl⟩ := hrest <;> rfl
  exact expression_eq hread.begins hend.1 (.inl hend.2) hread.linked

/-- A call with a semicolon behind it is a statement. -/
theorem Phrase.statement {p : Phrase} (hp : p.Sayable char) (hstatement : p.IsStatement)
    (offset : Nat) {next : Token} {c' : Cursor}
    (hnext : Cursor.Shows ⟨offset + (p.written char).length + 1, rest, bound⟩ next c')
    (hfits : Fits (p.written char).length bound fuel depth) (place : Place) :
    ∃ e, p.Says e ∧ (bounded (fuel + 1) (depth + 4)).statement place
      (.facing dialect ⟨offset, p.written char ++ ';' :: rest, bound⟩) =
        .ok (.expression e,
          .facing dialect ⟨offset + (p.written char).length + 1, rest, bound⟩) := by
  cases p with
  | literal => exact hstatement.elim
  | name => exact hstatement.elim
  | call callee arguments =>
    obtain ⟨e, hsaid, hread⟩ := Phrase.expression dialect hp offset (.inr ⟨rest, rfl⟩) hfits
    refine ⟨e, hsaid, ?_⟩
    have hover : endStatement (.facing dialect _) = _ :=
      endStatement_facing (shows_semicolon _ _) hnext
    obtain ⟨hcallee, -⟩ := hp
    have hname := hcallee.isName_first
    have hbound := hfits.bound
    rw [Phrase.length_call] at hbound
    have hsource : Phrase.written char (.call callee arguments) ++ ';' :: rest =
        callee.written ++ '(' :: (Phrase.allWritten char arguments ++ ')' :: ';' :: rest) := by
      simp [Phrase.written]
    obtain ⟨mark, c₁, c₂, hfirst, hmark, hmem⟩ := hcallee.shows_first offset
      (Phrase.allWritten char arguments ++ ')' :: ';' :: rest) (by omega : _ ≤ bound)
    rw [← hsource] at hfirst
    refine statement_word hfirst hmark hmem hname.notReserved hname.notAwait hstatement place hread
      ?_ hover
    cases hsaid
    simp

/-! ## Sources -/

theorem Cursor.ofSource_eq {source : List Char} (h : source.head? ≠ some '#') :
    Cursor.ofSource source = ⟨0, source, source.length⟩ := by
  unfold ofSource
  split
  · exact absurd rfl h
  · rfl

theorem head?_of_isPlainWord {word : String} (h : isPlainWord word = true) (rest : List Char) :
    (word.toList ++ rest).head? ≠ some '#' := by
  obtain ⟨c, cs, hchars, hc⟩ := beginsWord_of_isPlainWord h
  have hne : c ≠ '#' := hc.ne (by decide)
  simpa [hchars] using hne

/-- No phrase begins like a first line that is skipped. -/
theorem Phrase.head?_written {p : Phrase} (hp : p.Sayable char) :
    (p.written char ++ rest).head? ≠ some '#' := by
  cases p with
  | literal mark text => cases mark <;> simp [Phrase.written, QuoteMark.char]
  | name word => exact head?_of_isPlainWord hp.plain rest
  | call callee arguments =>
    cases hp.1 with
    | name hname =>
      rw [Phrase.written, Callee.written, List.append_assoc]
      exact head?_of_isPlainWord hname.plain _
    | member howner =>
      rw [Phrase.written, Callee.written, List.append_assoc, List.append_assoc]
      exact head?_of_isPlainWord howner.plain _

/-- A phrase begins with a token. -/
theorem Phrase.shows {p : Phrase} (hp : p.Sayable char) (offset : Nat) (hrest : Closing rest)
    (hbound : (p.written char).length ≤ bound) :
    ∃ token c', Cursor.Shows ⟨offset, p.written char ++ rest, bound⟩ token c' ∧ token ≠ .stop := by
  have hfits : Fits (p.written char).length bound _ _ := ⟨hbound, Nat.le_refl _, Nat.le_refl _⟩
  obtain ⟨e, -, hread⟩ := p.readsOperand false hp 0 offset hrest hfits
  obtain ⟨token, c', hshows, hstop, -⟩ := hread.shows
  exact ⟨token, c', hshows, hstop⟩

/-- A source is read if its rule reads it from its beginning to its end. -/
theorem readSource_facing {α : Type} {source : List Char} {rule : Grammar → Parse α} {a : α}
    {c c' : Cursor} (hhead : source.head? ≠ some '#')
    (hfirst : ∃ token c₁, Cursor.Shows ⟨0, source, source.length⟩ token c₁)
    (hstop : c.Shows .stop c')
    (h : rule (.forLength source.length) (.facing dialect ⟨0, source, source.length⟩) =
      .ok (a, .facing dialect c)) : readSource dialect source rule = .ok a := by
  obtain ⟨token, c₁, hshows⟩ := hfirst
  have hcursor := Cursor.ofSource_eq hhead
  have hreader : Reader.ofSource dialect source = .facing dialect ⟨0, source, source.length⟩ := by
    rw [Reader.ofSource_eq (hcursor ▸ hshows) (by rw [hcursor]), hcursor]
  refine readSource_eq_ok.mpr ⟨.facing dialect c, by rw [hreader, h], ?_, rfl⟩
  rw [Reader.finalFault?, hstop.token_eq]
  rfl

/-- **A source that is a phrase is read as an expression that says it.** -/
theorem readExpression_phrase {p : Phrase} (hp : p.Sayable char) :
    ∃ e, p.Says e ∧ readExpression (String.ofList (p.written char)) = .ok e := by
  obtain ⟨depth, hdepth⟩ : ∃ depth, 20 * ((p.written char).length + 2) = depth + 3 :=
    Nat.exists_eq_add_of_le' (by omega)
  have hfits : Fits (p.written char).length (p.written char).length
      ((p.written char).length + 1) depth := ⟨by omega, by omega, by omega⟩
  obtain ⟨e, hsaid, hread⟩ := Phrase.expression false hp 0 (.inl rfl) hfits
  have hclosing : Closing [] := by simp [Closing]
  obtain ⟨token, c', hfirst, -⟩ := Phrase.shows hp 0 hclosing (Nat.le_refl _)
  have hhead : (p.written char ++ []).head? ≠ some '#' := Phrase.head?_written hp
  rw [List.append_nil] at hread hfirst hhead
  rw [← hdepth] at hread
  refine ⟨e, hsaid, ?_⟩
  rw [readExpression, String.toList_ofList]
  exact readSource_facing false hhead ⟨token, c', hfirst⟩ ⟨_, rfl⟩ (within_facing rfl hread)

/-- Semicolons are statements that say nothing. -/
theorem many_semicolons {r : Reader} {list : List Stmt} {source : List Char} (count offset : Nat)
    (hfirst : ∃ token c', Cursor.Shows ⟨offset + count, source, bound⟩ token c')
    (h : Parse.Many goesOn ((bounded fuel (depth + 1)).statement .list)
      (.facing dialect ⟨offset + count, source, bound⟩) list r) :
    Parse.Many goesOn ((bounded fuel (depth + 1)).statement .list)
      (.facing dialect ⟨offset, List.replicate count ';' ++ source, bound⟩)
      (List.replicate count .empty ++ list) r := by
  induction count generalizing offset with
  | zero => exact h
  | succ count ih =>
    rw [Nat.add_comm count, ← Nat.add_assoc] at hfirst h
    have hrest := ih (offset + 1) hfirst h
    have hmark := @shows_semicolon (List.replicate count ';' ++ source) bound offset
    obtain ⟨token, c', hnext⟩ : ∃ token c',
        Cursor.Shows ⟨offset + 1, List.replicate count ';' ++ source, bound⟩ token c' := by
      cases count with
      | zero => exact hfirst
      | succ count => exact ⟨_, _, shows_semicolon _ _⟩
    rw [List.replicate_succ, List.cons_append, List.replicate_succ, List.cons_append]
    refine .cons (goesOn_of_ne ?_) (statement_semicolon ?_ .list) ?_
    · rw [hmark.token_eq]
      simp
    · simp [Lexeme.isMark, hmark.token_eq]
    · rw [Reader.passed_facing hmark hnext]
      exact hrest

/-- **A source that is a call, with semicolons around it, is read as a program that says it.** -/
theorem readProgram_phrase {p : Phrase} (hp : p.Sayable char) (hstatement : p.IsStatement)
    (count : Nat) : ∃ e, p.Says e ∧
      readProgram (String.ofList (List.replicate count ';' ++ (p.written char ++ [';']))) =
        .ok (List.replicate count .empty ++ [.expression e]) := by
  generalize hsource : List.replicate count ';' ++ (p.written char ++ [';']) = source
  have hlength : source.length = count + ((p.written char).length + 1) := by simp [← hsource]
  obtain ⟨depth, hdepth⟩ : ∃ depth, 20 * (source.length + 2) = depth + 4 :=
    Nat.exists_eq_add_of_le' (by omega)
  have hfits : Fits (p.written char).length source.length (source.length + 1) depth :=
    ⟨by omega, by omega, by omega⟩
  have hstop : Cursor.Shows ⟨0 + count + (p.written char).length + 1, [], source.length⟩ .stop _ :=
    ⟨_, rfl⟩
  obtain ⟨e, hsaid, hread⟩ :=
    Phrase.statement true hp hstatement (0 + count) hstop hfits .list
  have hclosing : Closing [';'] := by simp [Closing]
  obtain ⟨token, c', hshows, hgoing⟩ := Phrase.shows hp (0 + count) hclosing hfits.bound
  have hgoes : goesOn (.facing true ⟨0 + count, p.written char ++ [';'], source.length⟩) = _ :=
    goesOn_of_ne (by rwa [hshows.token_eq])
  have hlast : (Reader.facing true _).lexeme.token = .stop := hstop.token_eq
  have hover := goesOn_of_stop hlast
  have hmany := many_semicolons true count 0 ⟨token, c', hshows⟩ (.cons hgoes hread (.nil hover))
  have hstart : source.head? ≠ some '#' ∧
      ∃ token c', Cursor.Shows ⟨0, source, source.length⟩ token c' := by
    subst hsource
    cases count with
    | zero => exact ⟨Phrase.head?_written hp, token, c', hshows⟩
    | succ count => exact ⟨by simp [List.replicate_succ], _, _, shows_semicolon _ _⟩
  have hcount : (List.replicate count Stmt.empty ++ [Stmt.expression e]).length <
      source.length + 2 := by
    simp only [List.length_append, List.length_replicate, List.length_singleton]
    omega
  have hlist := manyFrom_of_many hmany [] hcount
  rw [hsource, ← hdepth] at hlist
  refine ⟨e, hsaid, ?_⟩
  rw [readProgram_eq, String.toList_ofList]
  exact readSource_facing true hstart.1 hstart.2 hstop hlist

end

/-! ## Calls with one argument -/

/-- What says a call with one argument is a call with what says the argument. -/
theorem Phrase.Says.eq_call {callee : Callee} {p : Phrase} {e : Expr}
    (h : Phrase.Says (.call callee [p]) e) : ∃ span function argument, callee.Says function ∧
      p.Says argument ∧ e = .call span function [.item argument] false := by
  cases h with
  | call span hcallee harguments =>
    cases harguments with
    | cons hargument hnone =>
      cases hnone
      exact ⟨span, _, _, hcallee, hargument, rfl⟩

/-- **A source that calls a function by its name, with one argument, is read as that call.** -/
theorem readProgram_call {char : Char → List Char} {name : String} {p : Phrase}
    (hname : IsName name) (hasync : name ≠ "async") (hlet : name ≠ "let") (hp : p.Sayable char)
    (count : Nat) : ∃ span nameSpan e, p.Says e ∧
      readProgram (String.ofList (List.replicate count ';' ++
        (Phrase.written char (.call (.name name) [p]) ++ [';']))) =
          .ok (List.replicate count .empty ++
            [.expression (.call span (.name nameSpan name) [.item e] false)]) := by
  have hcall : Phrase.Sayable char (.call (.name name) [p]) := ⟨.name hname hasync, hp, trivial⟩
  have hstatement : Phrase.IsStatement (.call (.name name) [p]) := hlet
  obtain ⟨e, hsaid, hread⟩ := readProgram_phrase hcall hstatement count
  obtain ⟨span, _, argument, hfunction, hargument, rfl⟩ := hsaid.eq_call
  cases hfunction with
  | name nameSpan => exact ⟨span, nameSpan, argument, hargument, hread⟩

/-! ## Texts of templates -/

/-- A call of the function that writes, with the places of the call, the name and the text. -/
def writeCall (span nameSpan textSpan : Span) (text : String) : Expr :=
  .call span (.name nameSpan "write") [.item (.string textSpan text)] false

theorem isName_write : IsName "write" := ⟨by decide, by decide, by decide⟩

theorem readProgram_empty : readProgram "" = .ok [] := by rfl

/-- **A call that writes the literal of a text is read as a call with that text**, if what is
written for its characters is read back. -/
theorem readProgram_writeCall {mark : QuoteMark} {char : Char → List Char}
    (h : ReadsBack mark char) (text : String) (count : Nat) : ∃ span nameSpan textSpan,
      readProgram (String.ofList (List.replicate count ';' ++
        (Phrase.written char (.call (.name "write") [.literal mark text]) ++ [';']))) =
          .ok (List.replicate count .empty ++
            [.expression (writeCall span nameSpan textSpan text)]) := by
  have hliteral : Phrase.Sayable char (.literal mark text) := h
  obtain ⟨span, nameSpan, e, hsaid, hread⟩ :=
    readProgram_call isName_write (by decide) (by decide) hliteral count
  cases hsaid with
  | literal _ textSpan => exact ⟨span, nameSpan, textSpan, hread⟩

/-- The statement that writes a text of a template. -/
theorem readProgram_writeStatement (text : String) : ∃ span nameSpan textSpan,
    readProgram (writeStatement text) =
      .ok [.empty, .expression (writeCall span nameSpan textSpan text)] := by
  have hsource : writeStatement text = String.ofList (List.replicate 1 ';' ++
      (Phrase.written literalChar (.call (.name "write") [.literal .double text]) ++ [';'])) := by
    simp [writeStatement, literalText, Phrase.written, Phrase.allWritten, Callee.written,
      QuoteMark.char, ← String.toList_inj]
  rw [hsource]
  exact readProgram_writeCall readsBack_literalChar text 1

/-- The statement that writes an escaped text, between quotes of a kind. -/
def writeEscaped (mark : QuoteMark) (text : String) : String :=
  "write(" ++ String.singleton mark.char ++ escapeScript text ++ String.singleton mark.char ++ ");"

theorem readProgram_writeEscaped (mark : QuoteMark) (text : String) : ∃ span nameSpan textSpan,
    readProgram (writeEscaped mark text) =
      .ok [.expression (writeCall span nameSpan textSpan text)] := by
  have hsource : writeEscaped mark text = String.ofList (List.replicate 0 ';' ++
      (Phrase.written scriptChar (.call (.name "write") [.literal mark text]) ++ [';'])) := by
    simp [writeEscaped, escapeScript, Phrase.written, Phrase.allWritten, Callee.written,
      ← String.toList_inj]
  rw [hsource]
  exact readProgram_writeCall (readsBack_scriptChar mark) text 0

end Stencil.Script
