import Stencil.Proofs.Script.Literal
import Stencil.Script.Grammar

/-! # Reading scripts

What the steps of reading make of a reader, and what the rules of the grammar read where nothing but
an operand stands: with no operator before it and a closing mark behind it, an operand is an
expression.  The readers that such a source goes through have noted nothing, so that all there is to
say of them is which token they have reached.
-/
namespace Stencil.Script

/-! ## Steps -/

section

variable {α β : Type} (r : Reader)

@[simp] theorem Parse.bind_apply (step : Parse α) (next : α → Parse β) :
    (step >>= next) r = (step r).bind fun p => next p.1 p.2 := rfl

@[simp] theorem Parse.map_apply (f : α → β) (step : Parse α) :
    (f <$> step) r = (step r).bind fun p => .ok (f p.1, p.2) := rfl

@[simp] theorem Parse.ok_bind (p : α × Reader)
    (next : α × Reader → Except Fault (β × Reader)) :
    (Except.ok p : Except Fault (α × Reader)).bind next = next p := rfl

@[simp] theorem Parse.pure_apply (a : α) : (pure a : Parse α) r = .ok (a, r) := rfl

@[simp] theorem Parse.get_apply : (get : Parse Reader) r = .ok (r, r) := rfl

@[simp] theorem ahead_apply : ahead r = .ok (r.lexeme, r) := rfl

@[simp] theorem second_apply : second r = .ok ((nextLexeme r.cursor).1, r) := rfl

@[simp] theorem here_apply : here r = .ok (r.lexeme.start, r) := rfl

@[simp] theorem spanFrom_apply (start : Nat) :
    spanFrom start r = .ok (⟨start, r.lastStop⟩, r) := rfl

@[simp] theorem atMark_apply (text : String) :
    atMark text r = .ok (r.lexeme.isMark text, r) := rfl

@[simp] theorem atWord_apply (text : String) :
    atWord text r = .ok (r.lexeme.isWord text, r) := rfl

theorem eatMark_of_not {text : String} (h : r.lexeme.isMark text = false) :
    eatMark text r = .ok (false, r) := by
  simp [eatMark, h]

end

/-! ## Readers that have noted nothing -/

/-- Behind nothing but white space on its line, a token stands at a cursor, and ends at another. -/
def Cursor.Shows (c : Cursor) (token : Token) (c' : Cursor) : Prop :=
  ∃ start, nextLexeme c = (⟨token, start, c'.offset, false, none⟩, c')

/-- The token behind the white space at a cursor. -/
theorem Cursor.shows_of_readToken {c c' : Cursor} {token : Token} {start : Nat} {ahead : List Char}
    (hgap : skipGap .plain c.offset false none c.ahead = .token start ahead false none)
    (h : readToken ⟨start, ahead, c.bound⟩ = .ok (token, c')) : c.Shows token c' := by
  refine ⟨start, ?_⟩
  rw [nextLexeme, hgap]
  simp only [h]

/-- A reader that has the token behind a cursor ahead. It has noted nothing, and its settings are
those of the beginning of a source, which may say that it is in another dialect or not. -/
def Reader.facing (dialect : Bool) (c : Cursor) : Reader :=
  { lexeme := (nextLexeme c).1, cursor := (nextLexeme c).2, lastStop := c.offset, comment := none,
    fault := none, openShorthands := [], closingCommas := [], exportedNames := [],
    defaultExports := [], allowIn := true, inFunction := false, inAsync := true,
    inGenerator := false, inDecorator := false, allowCondition := true, mayBeDialect := dialect }

section

variable {α : Type} {dialect : Bool} {c c' c'' : Cursor} {token next : Token} {text : String}

theorem Cursor.Shows.token_nextLexeme (h : c.Shows token c') : (nextLexeme c).1.token = token := by
  obtain ⟨start, h⟩ := h
  rw [h]

theorem Cursor.Shows.token_eq (h : c.Shows token c') :
    (Reader.facing dialect c).lexeme.token = token := by
  obtain ⟨start, h⟩ := h
  simp [Reader.facing, h]

theorem Cursor.Shows.stop_eq (h : c.Shows token c') :
    (Reader.facing dialect c).lexeme.stop = c'.offset := by
  obtain ⟨start, h⟩ := h
  simp [Reader.facing, h]

theorem Cursor.Shows.cursor_eq (h : c.Shows token c') : (Reader.facing dialect c).cursor = c' := by
  obtain ⟨start, h⟩ := h
  simp [Reader.facing, h]

@[simp] theorem Reader.inGenerator_facing : (facing dialect c).inGenerator = false := rfl

@[simp] theorem Reader.inAsync_facing : (facing dialect c).inAsync = true := rfl

@[simp] theorem Reader.allowIn_facing : (facing dialect c).allowIn = true := rfl

@[simp] theorem Reader.inDecorator_facing : (facing dialect c).inDecorator = false := rfl

@[simp] theorem Reader.lastStop_facing : (facing dialect c).lastStop = c.offset := rfl

/-- A reader at the beginning of a source that does not begin with a comment. -/
theorem Reader.ofSource_eq {source : List Char} (h : (Cursor.ofSource source).Shows token c')
    (hstart : (Cursor.ofSource source).offset = 0) :
    ofSource dialect source = facing dialect (.ofSource source) := by
  obtain ⟨start, h⟩ := h
  simp [ofSource, facing, h, hstart]

theorem passName_facing (h : c.Shows token c') (h' : c'.Shows next c'') :
    passName (.facing dialect c) = .ok ((), .facing dialect c') := by
  obtain ⟨start, h⟩ := h
  obtain ⟨start', h'⟩ := h'
  show Except.ok ((), _) = _
  simp [Reader.facing, h, h']

theorem pass_facing (h : c.Shows token c') (h' : c'.Shows next c'')
    (hplain : ∀ w, token ≠ .word w true) :
    pass (.facing dialect c) = .ok ((), .facing dialect c') := by
  have hpass : passName (.facing dialect c) = _ := passName_facing h h'
  simp only [pass, Parse.bind_apply, ahead_apply, Parse.ok_bind, h.token_eq]
  exact hpass

theorem eatMark_facing (h : c.Shows (.mark text) c') (h' : c'.Shows next c'') :
    eatMark text (.facing dialect c) = .ok (true, .facing dialect c') := by
  have hpass : pass (.facing dialect c) = _ := pass_facing h h' (by simp)
  simp [eatMark, Lexeme.isMark, h.token_eq, hpass]

theorem expectMark_facing (h : c.Shows (.mark text) c') (h' : c'.Shows next c'') :
    expectMark text (.facing dialect c) = .ok ((), .facing dialect c') := by
  simp [expectMark, eatMark_facing h h']

theorem endStatement_facing (h : c.Shows (.mark ";") c') (h' : c'.Shows next c'') :
    endStatement (.facing dialect c) = .ok ((), .facing dialect c') := by
  simp [endStatement, eatMark_facing h h']

/-- Settings that are set already change nothing. -/
theorem within_facing {change : Reader → Reader} {step : Parse α} {a : α}
    (hchange : change (.facing dialect c) = .facing dialect c)
    (h : step (.facing dialect c) = .ok (a, .facing dialect c')) :
    within change step (.facing dialect c) = .ok (a, .facing dialect c') := by
  show (step (change (.facing dialect c))).bind _ = _
  rw [hchange, h]
  rfl

end

/-! ## Expressions that are operands -/

/-- A token is ahead that begins an operand and means nothing else. -/
structure Reader.BeginsOperand (r : Reader) : Prop where
  unary : r.lexeme.unaryOp? = none
  increment : r.lexeme.increment? = none
  await : r.lexeme.isWord "await" = false
  privateName : ∀ w, r.lexeme.token ≠ .privateName w
  noYield : Grammar.atYield r = .ok (false, r)
  noArrow : ∀ g : Grammar, g.arrow? r = .ok (none, r)

/-- No operator between operands is ahead, whatever the operand before it is. -/
def Grammar.NoJoint (r : Reader) : Prop :=
  ∀ (g : Grammar) (fuel start : Nat) (e : Expr), g.jointsFrom 0 start e (fuel + 1) r = .ok (e, r)

/-- An operand ends here: what is ahead goes on with none but, where it is an arrow, with a name. -/
structure Reader.EndsOperand (r : Reader) : Prop where
  increment : r.lexeme.increment? = none ∨ r.lexeme.onNewLine = true
  joint : Grammar.NoJoint r
  assign : r.lexeme.assignOp? = none
  condition : r.lexeme.isMark "?" = false

/-- An expression ends here. -/
structure Reader.EndsExpression (r : Reader) : Prop extends r.EndsOperand where
  comma : r.lexeme.isMark "," = false

/-- A token goes on with no operand: a mark behind which something else begins, or the end. -/
def Token.Closes : Token → Prop
  | .mark text => text ∈ [")", ",", ";"]
  | .stop => True
  | _ => False

/-- A token that goes on with no operand is one of four. -/
theorem Token.Closes.cases {token : Token} (h : token.Closes) :
    token = .stop ∨ token = .mark ")" ∨ token = .mark "," ∨ token = .mark ";" := by
  unfold Closes at h
  split at h
  · simpa using h
  · exact .inl rfl
  · exact h.elim

theorem Reader.beginsOperand_string {r : Reader} {text : String}
    (h : r.lexeme.token = .string text) : r.BeginsOperand where
  unary := by simp [Lexeme.unaryOp?, h]
  increment := by simp [Lexeme.increment?, h]
  await := by simp [Lexeme.isWord, h]
  privateName := by simp [h]
  noYield := by simp [Grammar.atYield, Lexeme.isWord, h]
  noArrow g := by
    simp [Grammar.arrow?, Grammar.headingAhead, Grammar.atAsyncNameArrow, Lexeme.isMark,
      Lexeme.isWord, h]

/-- A word that is not reserved begins an operand where neither a word nor a literal follows it, and
no parameters can. -/
theorem Cursor.Shows.beginsOperand_word {dialect : Bool} {c c' c'' : Cursor} {word : String}
    {next : Token} (h : c.Shows (.word word false) c') (h' : c'.Shows next c'')
    (hreserved : word ∉ reservedWords) (hawait : word ≠ "await")
    (hnext : next = .stop ∨ ∃ mark, next = .mark mark ∧ (word = "async" → mark ≠ "(")) :
    (Reader.facing dialect c).BeginsOperand where
  unary := by
    simp only [Lexeme.unaryOp?, h.token_eq]
    split <;> first | rfl | simp_all [reservedWords]
  increment := by simp [Lexeme.increment?, h.token_eq]
  await := by simpa [Lexeme.isWord, h.token_eq] using hawait
  privateName := by simp [h.token_eq]
  noYield := by
    have hsecond : (nextLexeme c').1.showsOperator ["in", "instanceof"] = false := by
      obtain rfl | ⟨mark, rfl, -⟩ := hnext <;>
        simp [Lexeme.showsOperator, Lexeme.isLiteral, h'.token_nextLexeme]
    by_cases hyield : (Reader.facing dialect c).lexeme.isWord "yield" = true
    · simp [Grammar.atYield, hyield, h.cursor_eq, hsecond]
    · simp [Grammar.atYield, hyield]
  noArrow g := by
    have hmark : (Reader.facing dialect c).lexeme.isMark "(" = false := by
      simp [Lexeme.isMark, h.token_eq]
    have hname : (nextLexeme c').1.isName = false := by
      obtain rfl | ⟨mark, rfl, -⟩ := hnext <;>
        simp [Lexeme.isName, h'.token_nextLexeme]
    have hheading : Grammar.headingAhead (.facing dialect c) = .ok (.no, .facing dialect c) := by
      by_cases hword : word = "async"
      · have hopen : (nextLexeme c').1.isMark "(" = false := by
          obtain rfl | ⟨mark, rfl, hasync⟩ := hnext
          · simp [Lexeme.isMark, h'.token_nextLexeme]
          · simpa [Lexeme.isMark, h'.token_nextLexeme] using hasync hword
        simp [Grammar.headingAhead, hmark, Lexeme.isWord, h.token_eq, h.cursor_eq, hword, hopen]
      · simp [Grammar.headingAhead, hmark, Lexeme.isWord, h.token_eq, hword]
    have harrow : Grammar.atAsyncNameArrow (.facing dialect c) =
        .ok (false, .facing dialect c) := by
      by_cases hword : word = "async"
      · simp [Grammar.atAsyncNameArrow, Lexeme.isWord, h.token_eq, h.cursor_eq, hword, third, hname]
      · simp [Grammar.atAsyncNameArrow, Lexeme.isWord, h.token_eq, hword]
    simp [Grammar.arrow?, hheading, harrow]

theorem Grammar.noJoint_of_mark {r : Reader} {text : String} (h : r.lexeme.token = .mark text)
    (hjoint : r.lexeme.joint? r.allowIn = none) : NoJoint r := by
  intro g fuel start e
  simp [jointsFrom, atTyping, Lexeme.isWord, h, hjoint]

theorem Grammar.noJoint_of_closes {r : Reader} (h : r.lexeme.token.Closes) : NoJoint r := by
  obtain htoken | htoken | htoken | htoken := h.cases
  · intro g fuel start e
    simp [jointsFrom, atTyping, Lexeme.isWord, htoken, Lexeme.joint?]
  all_goals exact noJoint_of_mark htoken (by simp [Lexeme.joint?, joints, htoken])

/-- No operand goes on with a token that closes it. -/
theorem Reader.endsOperand_of_closes {r : Reader} (h : r.lexeme.token.Closes) :
    r.EndsOperand := by
  have hjoint := Grammar.noJoint_of_closes h
  obtain htoken | htoken | htoken | htoken := h.cases
  all_goals constructor <;>
    simp [hjoint, Lexeme.increment?, Lexeme.assignOp?, assignMarks, Lexeme.isMark, htoken]

namespace Grammar

/-- The grammar whose rules go down at most `depth` rules. -/
def bounded (fuel depth : Nat) : Grammar := ⟨fuel, readRule fuel depth⟩

theorem forLength_eq (length : Nat) :
    forLength length = bounded (length + 2) (20 * (length + 2)) := rfl

variable {g : Grammar} {e : Expr} {r r' : Reader} {fuel depth : Nat}

/-- An operand without an operator before or behind it. -/
theorem unaryStep_eq (hbegin : r.BeginsOperand) (hend : r'.EndsOperand)
    (h : g.linked true r = .ok (e, r')) : g.unaryStep r = .ok (e, r') := by
  cases hincrement : r'.lexeme.increment? with
  | none =>
    simp [unaryStep, atAwait, hbegin.unary, hbegin.increment, hbegin.await, h, hincrement]
  | some up =>
    have hline := hend.increment.resolve_left (by simp [hincrement])
    simp [unaryStep, atAwait, hbegin.unary, hbegin.increment, hbegin.await, h, hincrement, hline]

/-- An operand between no operators. -/
theorem binaryStep_eq (hbegin : r.BeginsOperand) (hend : r'.EndsOperand)
    (h : (bounded (fuel + 1) depth).linked true r = .ok (e, r')) :
    (bounded (fuel + 1) (depth + 1)).binaryStep 0 r = .ok (e, r') := by
  have hunary : (bounded (fuel + 1) (depth + 1)).unary r = .ok (e, r') :=
    unaryStep_eq hbegin hend h
  have hjoints : (bounded (fuel + 1) (depth + 1)).jointsFrom 0 r.lexeme.start e
      (bounded (fuel + 1) (depth + 1)).fuel r' = .ok (e, r') := hend.joint _ _ _ _
  simp only [binaryStep, Parse.bind_apply, ahead_apply, Parse.ok_bind]
  cases htoken : r.lexeme.token with
  | privateName w => exact absurd htoken (hbegin.privateName w)
  | _ => simp only [Parse.bind_apply, hunary, Parse.ok_bind, hjoints]

/-- An operand that begins no function, and behind which nothing is assigned or decided. -/
theorem assignmentStep_eq (hbegin : r.BeginsOperand) (hend : r'.EndsOperand)
    (hname : r'.lexeme.token.Closes ∨ ∀ span name, e ≠ .name span name)
    (h : (bounded (fuel + 1) depth).linked true r = .ok (e, r')) :
    (bounded (fuel + 1) (depth + 2)).assignmentStep r = .ok (e, r') := by
  have hbinary : (bounded (fuel + 1) (depth + 2)).binary 0 r = .ok (e, r') :=
    binaryStep_eq hbegin hend h
  have hcondition := eatMark_of_not r' hend.condition
  have harrow : r'.lexeme.isMark "=>" = false ∨ ∀ span name, e ≠ .name span name := by
    refine hname.imp_left fun hcloses => ?_
    obtain htoken | htoken | htoken | htoken := hcloses.cases <;> simp [Lexeme.isMark, htoken]
  have htail : ∀ g start, assignmentTail g start e r' = .ok (e, r') := by
    intro g start
    obtain harrow | hname := harrow
    · simp [assignmentTail, harrow, hend.assign, hcondition]
    · cases e with
      | name span name => exact absurd rfl (hname span name)
      | _ => simp [assignmentTail, hend.assign, hcondition]
  simp [assignmentStep, hbegin.noYield, hbegin.noArrow, hbinary, htail]

/-- **An operand alone is an expression without commas.** -/
theorem assignment_eq (hbegin : r.BeginsOperand) (hend : r'.EndsOperand)
    (hname : r'.lexeme.token.Closes ∨ ∀ span name, e ≠ .name span name)
    (h : (bounded (fuel + 1) depth).linked true r = .ok (e, r')) :
    (bounded (fuel + 1) (depth + 3)).assignment r = .ok (e, r') :=
  assignmentStep_eq hbegin hend hname h

/-- An operand alone is an expression. -/
theorem expression_eq (hbegin : r.BeginsOperand) (hend : r'.EndsExpression)
    (hname : r'.lexeme.token.Closes ∨ ∀ span name, e ≠ .name span name)
    (h : (bounded (fuel + 1) depth).linked true r = .ok (e, r')) :
    (bounded (fuel + 1) (depth + 3)).expression r = .ok (e, r') := by
  have hassignment := assignment_eq hbegin hend.toEndsOperand hname h
  simp [expression, hassignment, hend.comma]

end Grammar

end Stencil.Script
