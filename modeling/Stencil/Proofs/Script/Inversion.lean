import Stencil.Proofs.Script.Reading

/-! # What a step of reading has done

If a step has read something, the steps that it is made of have, one behind the other.  The lemmas
here say what the basic steps have found ahead and where they have left the reader, and how a row of
items and a source as a whole have been read.
-/
namespace Stencil.Script

/-! ## Sequences of steps -/

section

variable {α β : Type} {r r' : Reader} {step : Parse α} {next : α → Parse β}

theorem Parse.ok_inj {a b : α} (h : (.ok (a, r) : Except Fault (α × Reader)) = .ok (b, r')) :
    a = b ∧ r = r' :=
  Prod.mk.inj (Except.ok.inj h)

/-- A step and the next one read what the next one reads behind it. -/
theorem Parse.bind_eq_ok {b : β} :
    (step >>= next) r = .ok (b, r') ↔
      ∃ a mid, step r = .ok (a, mid) ∧ next a mid = .ok (b, r') := by
  rw [Parse.bind_apply]
  cases step r with
  | error fault => simp [Except.bind]
  | ok p =>
    obtain ⟨a, mid⟩ := p
    simp

theorem Parse.bind_eq_ok_iff {x : Except Fault (α × Reader)}
    {next : α × Reader → Except Fault (β × Reader)} {p : β × Reader} :
    x.bind next = .ok p ↔ ∃ a mid, x = .ok (a, mid) ∧ next (a, mid) = .ok p := by
  cases x with
  | error fault => simp [Except.bind]
  | ok q =>
    obtain ⟨a, mid⟩ := q
    simp

/-- All that a step reads meets a condition. -/
def Parse.Yields (step : Parse α) (post : α → Prop) : Prop :=
  ∀ r a r', step r = .ok (a, r') → post a

variable {post : β → Prop}

theorem Parse.Yields.bind (h : ∀ a, Parse.Yields (next a) post) :
    Parse.Yields (step >>= next) post := by
  intro r b r' hb
  obtain ⟨a, mid, -, hnext⟩ := Parse.bind_eq_ok.mp hb
  exact h a mid b r' hnext

theorem Parse.yields_pure {b : β} (h : post b) : Parse.Yields (pure b) post := by
  intro r b' r' hb
  obtain ⟨rfl, -⟩ : b = b' ∧ r = r' := by simpa using hb
  exact h

theorem Parse.yields_refuse (fault : Fault) : Parse.Yields (refuse fault) post := by
  intro r b r' hb
  cases hb

end

/-! ## Tokens -/

/-- The reader behind the token ahead, if that is a mark. -/
def Reader.passed (r : Reader) : Reader :=
  { r with
    lexeme := (nextLexeme r.cursor).1
    cursor := (nextLexeme r.cursor).2
    lastStop := r.lexeme.stop
    comment := r.comment <|> (nextLexeme r.cursor).1.comment }

/-- The reader with the settings of another. -/
def Reader.settled (r outer : Reader) : Reader :=
  { r with
    allowIn := outer.allowIn
    inFunction := outer.inFunction
    inAsync := outer.inAsync
    inGenerator := outer.inGenerator
    inDecorator := outer.inDecorator
    allowCondition := outer.allowCondition }

theorem within_apply {α : Type} (change : Reader → Reader) (step : Parse α) (r : Reader) :
    within change step r = (step (change r)).bind fun p => .ok (p.1, p.2.settled r) := rfl

theorem Lexeme.token_of_isMark {l : Lexeme} {text : String} (h : l.isMark text = true) :
    l.token = .mark text := by
  unfold isMark at h
  split at h
  · rename_i t htoken
    rw [htoken, beq_iff_eq.mp h]
  · cases h

theorem pass_of_isMark {r : Reader} {text : String} (h : r.lexeme.isMark text = true) :
    pass r = .ok ((), r.passed) := by
  simp only [pass, Parse.bind_apply, ahead_apply, Parse.ok_bind, Lexeme.token_of_isMark h]
  rfl

theorem expectMark_of_isMark {r : Reader} {text : String} (h : r.lexeme.isMark text = true) :
    expectMark text r = .ok ((), r.passed) := by
  simp [expectMark, eatMark, h, pass_of_isMark h]

theorem expectMark_inv {r r' : Reader} {text : String} (h : expectMark text r = .ok ((), r')) :
    r.lexeme.isMark text = true ∧ r' = r.passed := by
  cases hmark : r.lexeme.isMark text with
  | true =>
    rw [expectMark_of_isMark hmark] at h
    exact ⟨rfl, (Parse.ok_inj h).2.symm⟩
  | false =>
    rw [expectMark, Parse.bind_apply, eatMark_of_not r hmark] at h
    cases h

theorem eatMark_inv {r r' : Reader} {text : String} (h : eatMark text r = .ok (false, r')) :
    r.lexeme.isMark text = false ∧ r = r' := by
  cases hmark : r.lexeme.isMark text with
  | false =>
    rw [eatMark_of_not r hmark] at h
    exact ⟨rfl, (Parse.ok_inj h).2⟩
  | true =>
    obtain ⟨at?, mid, hat, h⟩ := Parse.bind_eq_ok.mp h
    obtain ⟨rfl, rfl⟩ := Parse.ok_inj hat
    rw [if_pos hmark] at h
    obtain ⟨_, _, -, h⟩ := Parse.bind_eq_ok.mp h
    cases h

theorem atStatementEnd_apply (r : Reader) : ∃ ends, atStatementEnd r = .ok (ends, r) := by
  simp only [atStatementEnd, Parse.bind_apply, ahead_apply, Parse.ok_bind]
  generalize r.lexeme.token = token
  split
  · exact ⟨true, rfl⟩
  · exact ⟨true, rfl⟩
  · exact ⟨r.lexeme.onNewLine, rfl⟩

/-- The end of a statement is no fault. -/
theorem fault_endStatement {r r' : Reader} (h : endStatement r = .ok ((), r')) :
    r'.fault = r.fault := by
  cases hmark : r.lexeme.isMark ";" with
  | true =>
    have heat : eatMark ";" r = .ok (true, r.passed) := by
      simp [eatMark, hmark, pass_of_isMark hmark]
    rw [endStatement, Parse.bind_apply, heat] at h
    obtain ⟨-, rfl⟩ := Parse.ok_inj h
    rfl
  | false =>
    rw [endStatement, Parse.bind_apply, eatMark_of_not r hmark, Parse.ok_bind] at h
    obtain ⟨ends, hends⟩ := atStatementEnd_apply r
    obtain ⟨_, mid, hat, h⟩ := Parse.bind_eq_ok.mp h
    rw [hends] at hat
    obtain ⟨rfl, rfl⟩ := Parse.ok_inj hat
    cases ends with
    | true =>
      obtain ⟨-, rfl⟩ := Parse.ok_inj h
      rfl
    | false =>
      obtain ⟨_, _, -, h⟩ := Parse.bind_eq_ok.mp h
      cases h

/-! ## Rows of items -/

/-- Items are read from one reader to another, as long as `going` holds. -/
inductive Parse.Many {α : Type} (going : Parse Bool) (item : Parse α) :
    Reader → List α → Reader → Prop
  | nil {r r' : Reader} (hgoing : going r = .ok (false, r')) : Many going item r [] r'
  | cons {r mid behind r' : Reader} {x : α} {list : List α} (hgoing : going r = .ok (true, mid))
      (hitem : item mid = .ok (x, behind)) (hrest : Many going item behind list r') :
      Many going item r (x :: list) r'

theorem many_of_manyFrom {α : Type} {going : Parse Bool} {item : Parse α} {done list : List α}
    {fuel : Nat} {r r' : Reader} (h : manyFrom going item done fuel r = .ok (list, r')) :
    ∃ rest, list = done.reverse ++ rest ∧ Parse.Many going item r rest r' := by
  induction fuel generalizing done r with
  | zero => cases h
  | succ fuel ih =>
    obtain ⟨goes, mid, hgoing, h⟩ := Parse.bind_eq_ok.mp h
    cases goes with
    | false =>
      obtain ⟨rfl, rfl⟩ := Parse.ok_inj h
      exact ⟨[], (List.append_nil _).symm, .nil hgoing⟩
    | true =>
      obtain ⟨x, behind, hitem, h⟩ := Parse.bind_eq_ok.mp h
      obtain ⟨rest, rfl, hrest⟩ := ih h
      exact ⟨x :: rest, by simp, .cons hgoing hitem hrest⟩

theorem manyFrom_of_many {α : Type} {going : Parse Bool} {item : Parse α} {list : List α}
    {r r' : Reader} (h : Parse.Many going item r list r') (done : List α) {fuel : Nat}
    (hfuel : list.length < fuel) :
    manyFrom going item done fuel r = .ok (done.reverse ++ list, r') := by
  induction h generalizing done fuel with
  | nil hgoing =>
    obtain ⟨fuel, rfl⟩ := Nat.exists_eq_add_of_le' (Nat.one_le_of_lt hfuel)
    rw [manyFrom, Parse.bind_apply, hgoing, List.append_nil]
    rfl
  | @cons _ _ _ _ x list hgoing hitem _ ih =>
    obtain ⟨fuel, rfl⟩ := Nat.exists_eq_add_of_le' (Nat.one_le_of_lt hfuel)
    have hrest := ih (x :: done) (Nat.lt_of_succ_lt_succ hfuel)
    rw [List.reverse_cons, List.append_assoc, List.singleton_append] at hrest
    rw [manyFrom, Parse.bind_apply, hgoing, ← hrest, Parse.ok_bind]
    show (item _).bind _ = _
    rw [hitem]
    rfl

/-! ## Sources -/

theorem readSource_eq_ok {α : Type} {mayBeDialect : Bool} {source : List Char}
    {rule : Grammar → Parse α} {a : α} :
    readSource mayBeDialect source rule = .ok a ↔
      ∃ r, rule (.forLength source.length) (.ofSource mayBeDialect source) = .ok (a, r) ∧
        r.finalFault? = none ∧ r.repeatedExport? = none := by
  unfold readSource
  cases rule (.forLength source.length) (.ofSource mayBeDialect source) with
  | error fault => simp [bind, Except.bind]
  | ok p =>
    obtain ⟨b, r⟩ := p
    cases hfault : r.finalFault? with
    | some fault => simp [bind, Except.bind, hfault, throw, throwThe, MonadExceptOf.throw]
    | none =>
      cases hexport : r.repeatedExport? with
      | some offset =>
        simp [bind, Except.bind, hfault, hexport, throw, throwThe, MonadExceptOf.throw]
      | none => simp [bind, Except.bind, hfault, hexport, pure, Except.pure]

/-- Whether a token is ahead that begins a statement. -/
def goesOn : Parse Bool := do
  match (← ahead).token with
  | .stop => return false
  | _ => return true

theorem goesOn_inv {r r' : Reader} {goes : Bool} (h : goesOn r = .ok (goes, r')) :
    r = r' ∧ (goes = false ↔ r.lexeme.token = .stop) := by
  simp only [goesOn, Parse.bind_apply, ahead_apply, Parse.ok_bind] at h
  generalize r.lexeme.token = token at h
  cases token
  all_goals
    obtain ⟨rfl, rfl⟩ := Parse.ok_inj h
    simp

theorem goesOn_of_ne {r : Reader} (h : r.lexeme.token ≠ .stop) : goesOn r = .ok (true, r) := by
  simp only [goesOn, Parse.bind_apply, ahead_apply, Parse.ok_bind]
  generalize r.lexeme.token = token at h
  cases token
  case stop => exact absurd rfl h
  all_goals rfl

theorem goesOn_of_stop {r : Reader} (h : r.lexeme.token = .stop) : goesOn r = .ok (false, r) := by
  simp [goesOn, h]

theorem readProgram_eq (source : String) :
    readProgram source = readSource true source.toList fun g =>
      manyFrom goesOn (g.statement .list) [] g.fuel := rfl

end Stencil.Script
