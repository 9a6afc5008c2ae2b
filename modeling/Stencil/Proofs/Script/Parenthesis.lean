import Stencil.Proofs.Script.Sentence

/-! # Expressions in parentheses

The code of a region that writes an expression is a call around the text of that expression, which
is not looked at before.  The text is a single argument there if, and because, it is a single
expression between parentheses of its own in the same place: the parentheses of a statement and
those of a call are read from the same reader to the same reader, and whatever goes on behind the
one would go on behind the other.
-/
namespace Stencil.Script

/-- An expression in parentheses. -/
def Expr.IsParen : Expr → Prop
  | .paren _ _ => True
  | _ => False

namespace Grammar
open Parse
variable {g : Grammar} {e e' : Expr} {r r' : Reader} {start fuel depth : Nat}
  {chained chained' : Bool}

/-! ## Behind the parentheses -/

/-- A member of an operand is no expression in parentheses. -/
theorem not_isParen_memberLink (optional : Bool) :
    (memberLink start e optional).Yields fun x => ¬ x.IsParen := by
  unfold memberLink
  refine .bind fun l => ?_
  split
  · exact .bind fun _ => .bind fun _ => yields_pure not_false
  · exact .bind fun ⟨nameSpan, name⟩ => .bind fun _ => yields_pure not_false

theorem not_isParen_indexLink (optional : Bool) :
    (g.indexLink start e optional).Yields fun x => ¬ x.IsParen :=
  .bind fun _ => .bind fun _ => .bind fun _ => .bind fun _ => yields_pure not_false

theorem not_isParen_callLink (optional : Bool) :
    (g.callLink start e optional).Yields fun x => ¬ x.IsParen :=
  .bind fun _ => .bind fun _ => yields_pure not_false

theorem not_isParen_taggedLink (chained : Bool) :
    (g.taggedLink start chained).Yields fun x => ¬ x.IsParen := by
  unfold taggedLink
  split
  · exact .bind fun _ => .bind fun _ => .bind fun _ => .bind fun _ => yields_pure not_false
  · exact .bind fun _ => .bind fun _ => yields_pure not_false

theorem not_isParen_optionalLink : (g.optionalLink start e).Yields fun x => ¬ x.IsParen := by
  unfold optionalLink
  refine .bind fun _ => .bind fun _ => .bind fun l => ?_
  split
  · exact not_isParen_callLink true
  · exact not_isParen_indexLink true
  · exact not_isParen_taggedLink true
  · exact not_isParen_memberLink true
  · exact not_isParen_memberLink true
  · exact yields_refuse _

/-- Behind an operand that links leave in parentheses there are none. -/
theorem linksFrom_inv (h : g.linksFrom true start e chained fuel r = .ok ((e', chained'), r'))
    (hparen : e'.IsParen) : e = e' ∧ chained = chained' ∧ r = r' ∧ NoLink r := by
  induction fuel generalizing e chained r with
  | zero => cases h
  | succ fuel ih =>
    have hlink : ∀ {step : Parse Expr} {mid : Reader} {chained : Bool},
        step.Yields (fun x => ¬ x.IsParen) →
        (step >>= fun x => g.linksFrom true start x chained fuel) mid =
          .ok ((e', chained'), r') → False := by
      intro step mid chained hstep h
      obtain ⟨x, behind, hx, h⟩ := Parse.bind_eq_ok.mp h
      obtain ⟨rfl, -⟩ := ih h
      exact hstep mid x behind hx hparen
    have hsame : ∀ (g : Grammar) (fuel start : Nat) (e : Expr) (chained : Bool),
        g.linksFrom true start e chained (fuel + 1) r = _ := fun g fuel start e chained => by
      rw [linksFrom, Parse.bind_apply, ahead_apply, Parse.ok_bind]
    rw [hsame] at h
    simp only [if_true] at h hsame
    generalize htoken : r.lexeme.token = token at h hsame
    split at h
    · obtain ⟨-, mid, -, h⟩ := Parse.bind_eq_ok.mp h
      exact (hlink (not_isParen_memberLink false) h).elim
    · exact (hlink not_isParen_optionalLink h).elim
    · obtain ⟨r₁, mid, hget, h⟩ := Parse.bind_eq_ok.mp h
      obtain ⟨rfl, rfl⟩ : r = r₁ ∧ r = mid := by simpa using hget
      split at h
      · rename_i hdecorator
        obtain ⟨⟨rfl, rfl⟩, rfl⟩ : (e = e' ∧ chained = chained') ∧ r = r' := by simpa using h
        refine ⟨rfl, rfl, rfl, fun g fuel start e chained => ?_⟩
        rw [hsame]
        simp [hdecorator]
      · exact (hlink (not_isParen_indexLink false) h).elim
    · exact (hlink (not_isParen_callLink false) h).elim
    · exact (hlink (not_isParen_taggedLink chained) h).elim
    · obtain ⟨⟨rfl, rfl⟩, rfl⟩ : (e = e' ∧ chained = chained') ∧ r = r' := by simpa using h
      refine ⟨rfl, rfl, rfl, fun g fuel start e chained => ?_⟩
      rw [hsame]
      split <;> simp_all

theorem atTyping_apply (r : Reader) : ∃ typing, atTyping r = .ok (typing, r) := ⟨_, rfl⟩

/-- Behind an operand that operators leave in parentheses there are none, as long as no type has
been given to it. -/
theorem jointsFrom_inv (h : g.jointsFrom 0 start e fuel r = .ok (e', r')) (hparen : e'.IsParen)
    (hfault : r'.fault = none) : e = e' ∧ r = r' ∧ NoJoint r := by
  induction fuel generalizing e r with
  | zero => cases h
  | succ fuel ih =>
    have hsame : ∀ (g : Grammar) (fuel start : Nat) (e : Expr),
        g.jointsFrom 0 start e (fuel + 1) r = _ := fun g fuel start e => by rw [jointsFrom]
    rw [hsame] at h
    obtain ⟨typing, htyping⟩ := atTyping_apply r
    simp only [Parse.bind_apply, htyping, Parse.ok_bind] at h hsame
    split at h
    · -- the fault that is noted here is still there at the end
      obtain ⟨_, r₁, -, h⟩ := Parse.bind_eq_ok.mp h
      obtain ⟨_, r₂, -, h⟩ := Parse.bind_eq_ok.mp h
      obtain ⟨_, r₃, hnote, h⟩ := Parse.bind_eq_ok.mp h
      obtain ⟨span, r₄, hspan, h⟩ := Parse.bind_eq_ok.mp h
      obtain ⟨-, rfl, -⟩ := ih h
      obtain ⟨-, rfl⟩ := Parse.ok_inj hspan
      obtain ⟨-, rfl⟩ := Parse.ok_inj hnote
      cases hfault
    · rename_i htype
      simp only [htype, Bool.false_eq_true, if_false, Parse.bind_apply, Parse.get_apply,
        Parse.ok_bind] at h hsame
      generalize r.lexeme.joint? r.allowIn = joint? at h hsame
      cases joint? with
      | none =>
        obtain ⟨rfl, rfl⟩ : e = e' ∧ r = r' := by simpa using h
        exact ⟨rfl, rfl, fun g fuel start e => by rw [hsame]; rfl⟩
      | some joint =>
        simp only at h hsame
        split at h
        · rename_i hloose
          obtain ⟨rfl, rfl⟩ : e = e' ∧ r = r' := by simpa using h
          exact ⟨rfl, rfl, fun g fuel start e => by rw [hsame, if_pos hloose]; rfl⟩
        · obtain ⟨_, r₁, -, h⟩ := Parse.bind_eq_ok.mp h
          obtain ⟨right, r₂, -, h⟩ := Parse.bind_eq_ok.mp h
          obtain ⟨span, r₃, -, h⟩ := Parse.bind_eq_ok.mp h
          exfalso
          generalize joint.joining = joining at h
          cases joining with
          | binary op =>
            obtain ⟨rfl, -⟩ := ih h
            exact hparen
          | logical op =>
            simp only at h
            split at h
            · obtain ⟨_, r₄, -, h⟩ := Parse.bind_eq_ok.mp h
              obtain ⟨rfl, -⟩ := ih h
              exact hparen
            · obtain ⟨rfl, -⟩ := ih h
              exact hparen

/-- An operand alone, in parentheses: no link is behind it, and then none is behind a call that ends
in the same place. -/
theorem linked_inv (h : g.linked true r = .ok (e', r')) (hparen : e'.IsParen) :
    g.primary r = .ok (e', r') ∧ NoLink r' := by
  obtain ⟨start, r₁, hstart, h⟩ := Parse.bind_eq_ok.mp h
  obtain ⟨-, rfl⟩ : r.lexeme.start = start ∧ r = r₁ := by simpa using hstart
  obtain ⟨e, r₂, hprimary, h⟩ := Parse.bind_eq_ok.mp h
  obtain ⟨⟨e₁, chained⟩, r₃, hlinks, h⟩ := Parse.bind_eq_ok.mp h
  cases chained with
  | true =>
    obtain ⟨span, r₄, -, h⟩ := Parse.bind_eq_ok.mp h
    obtain ⟨rfl, -⟩ := Parse.ok_inj h
    cases hparen
  | false =>
    obtain ⟨rfl, rfl⟩ : e₁ = e' ∧ r₃ = r' := by simpa using h
    obtain ⟨rfl, -, rfl, hquiet⟩ := linksFrom_inv hlinks hparen
    exact ⟨hprimary, hquiet⟩

theorem unaryStep_inv (hopen : r.lexeme.token = .mark "(") (h : g.unaryStep r = .ok (e', r'))
    (hparen : e'.IsParen) : g.linked true r = .ok (e', r') ∧
      (r'.lexeme.increment? = none ∨ r'.lexeme.onNewLine = true) := by
  have hunary : r.lexeme.unaryOp? = none := by simp [Lexeme.unaryOp?, hopen]
  have hincrement : r.lexeme.increment? = none := by simp [Lexeme.increment?, hopen]
  have hawait : r.lexeme.isWord "await" = false := by simp [Lexeme.isWord, hopen]
  simp only [unaryStep, atAwait, Parse.bind_apply, here_apply, ahead_apply, atWord_apply,
    Parse.ok_bind, Parse.pure_apply, hunary, hincrement, hawait,
    Bool.false_eq_true, if_false] at h
  obtain ⟨e, r₁, hlinked, h⟩ := Parse.bind_eq_ok_iff.mp h
  cases hnext : r₁.lexeme.increment? with
  | none =>
    simp only [hnext] at h
    obtain ⟨rfl, rfl⟩ : e = e' ∧ r₁ = r' := by simpa using h
    exact ⟨hlinked, .inl hnext⟩
  | some up =>
    simp only [hnext] at h
    split at h
    · rename_i hline
      obtain ⟨rfl, rfl⟩ : e = e' ∧ r₁ = r' := by simpa using h
      exact ⟨hlinked, .inr hline⟩
    · obtain ⟨_, r₂, -, h⟩ := Parse.bind_eq_ok.mp h
      obtain ⟨_, r₃, -, h⟩ := Parse.bind_eq_ok.mp h
      obtain ⟨_, r₄, -, h⟩ := Parse.bind_eq_ok.mp h
      obtain ⟨rfl, -⟩ := Parse.ok_inj h
      cases hparen

theorem binaryStep_inv (hopen : r.lexeme.token = .mark "(") (h : g.binaryStep 0 r = .ok (e', r'))
    (hparen : e'.IsParen) (hfault : r'.fault = none) : g.unary r = .ok (e', r') ∧ NoJoint r' := by
  simp only [binaryStep, Parse.bind_apply, ahead_apply, Parse.ok_bind, hopen] at h
  obtain ⟨e, r₁, hunary, h⟩ := Parse.bind_eq_ok_iff.mp h
  obtain ⟨rfl, rfl, hquiet⟩ := jointsFrom_inv h hparen hfault
  exact ⟨hunary, hquiet⟩

theorem not_isParen_arrowTail (isAsync : Bool) (list : List Pattern) :
    (g.arrowTail start isAsync list).Yields fun x => ¬ x.IsParen := by
  unfold arrowTail
  refine .bind fun l => ?_
  split
  · exact .bind fun _ => .bind fun _ => .bind fun _ => .bind fun _ => yields_pure not_false
  · exact .bind fun _ => .bind fun _ => .bind fun _ => yields_pure not_false

/-- Where a parenthesis opens an expression, no function with an arrow begins. -/
theorem arrow?_inv (hopen : r.lexeme.token = .mark "(") {function? : Option Expr}
    (h : g.arrow? r = .ok (function?, r')) :
    (∀ e, function? = some e → ¬ e.IsParen) ∧ (function? = none → r = r') := by
  have hmark : r.lexeme.isMark "(" = true := by simp [Lexeme.isMark, hopen]
  have hasync : r.lexeme.isWord "async" = false := by simp [Lexeme.isWord, hopen]
  have hheading : headingAhead r = .ok (.behind r.cursor, r) := by
    simp [headingAhead, hmark]
  simp only [arrow?, Parse.bind_apply, here_apply, Parse.ok_bind, hheading] at h
  have htail : ∀ {isAsync list mid}, ((do
      return some (← g.arrowTail r.lexeme.start isAsync list) : Parse (Option Expr)) mid) =
        .ok (function?, r') → (∀ e, function? = some e → ¬ e.IsParen) ∧
          (function? = none → r = r') := by
    intro isAsync list mid h
    obtain ⟨x, behind, hx, h⟩ := Parse.bind_eq_ok.mp h
    obtain ⟨rfl, rfl⟩ : some x = function? ∧ behind = r' := by simpa using h
    refine ⟨fun e he => ?_, fun hnone => by cases hnone⟩
    obtain rfl := Option.some.inj he
    exact not_isParen_arrowTail _ _ _ _ _ hx
  generalize Heading.behind r.cursor = heading at h
  cases heading with
  | yes =>
    obtain ⟨⟨isAsync, parameters⟩, mid, -, h⟩ := Parse.bind_eq_ok.mp h
    exact htail h
  | maybe =>
    obtain ⟨head?, mid, hhead, h⟩ := Parse.bind_eq_ok.mp h
    cases head? with
    | some head => exact htail h
    | none =>
      obtain ⟨hnone, rfl⟩ := Parse.ok_inj h
      refine ⟨fun e he => (by rw [he] at hnone; cases hnone), fun _ => ?_⟩
      unfold attempt? at hhead
      split at hhead
      · cases hhead
      · exact (Parse.ok_inj hhead).2
  | no =>
    simp only [atAsyncNameArrow, Parse.bind_apply, atWord_apply, Parse.ok_bind, hasync] at h
    obtain ⟨hnone, rfl⟩ := Parse.ok_inj h
    exact ⟨fun e he => (by rw [he] at hnone; cases hnone), fun _ => rfl⟩

/-- What follows an expression that is one in parentheses. -/
theorem behindOperand_inv {op? : Option AssignOp}
    (h : (match op? with
      | some op => do
        let target ← anyTarget e
        pass
        let value ← g.assignment
        return .assign (← spanFrom start) op target value
      | none => do
        if ← eatMark "?" then
          let yes ← g.fullAssignment
          expectMark ":"
          let no ← g.assignment
          return .conditional (← spanFrom start) e yes no
        return e : Parse Expr) r = .ok (e', r')) (hop : r.lexeme.assignOp? = op?)
    (hparen : e'.IsParen) :
    e = e' ∧ r = r' ∧ r.lexeme.assignOp? = none ∧ r.lexeme.isMark "?" = false := by
  cases op? with
  | some op =>
    obtain ⟨_, _, -, h⟩ := Parse.bind_eq_ok.mp h
    obtain ⟨_, _, -, h⟩ := Parse.bind_eq_ok.mp h
    obtain ⟨_, _, -, h⟩ := Parse.bind_eq_ok.mp h
    obtain ⟨_, _, -, h⟩ := Parse.bind_eq_ok.mp h
    obtain ⟨rfl, -⟩ := Parse.ok_inj h
    cases hparen
  | none =>
    obtain ⟨eaten, mid, heat, h⟩ := Parse.bind_eq_ok.mp h
    cases eaten with
    | true =>
      obtain ⟨_, _, -, h⟩ := Parse.bind_eq_ok.mp h
      obtain ⟨_, _, -, h⟩ := Parse.bind_eq_ok.mp h
      obtain ⟨_, _, -, h⟩ := Parse.bind_eq_ok.mp h
      obtain ⟨_, _, -, h⟩ := Parse.bind_eq_ok.mp h
      obtain ⟨rfl, -⟩ := Parse.ok_inj h
      cases hparen
    | false =>
      obtain ⟨hmark, rfl⟩ := eatMark_inv heat
      obtain ⟨rfl, rfl⟩ := Parse.ok_inj h
      exact ⟨rfl, rfl, hop, hmark⟩

/-- Behind an expression in parentheses nothing is assigned and nothing decided. -/
theorem assignmentTail_inv (h : g.assignmentTail start e r = .ok (e', r')) (hparen : e'.IsParen) :
    e = e' ∧ r = r' ∧ r.lexeme.assignOp? = none ∧ r.lexeme.isMark "?" = false := by
  obtain ⟨l, mid, hahead, h⟩ := Parse.bind_eq_ok.mp h
  obtain ⟨rfl, rfl⟩ := Parse.ok_inj hahead
  have harrow : ∀ {span name}, g.nameArrow start false span name r = .ok (e', r') → False :=
    fun h => not_isParen_arrowTail _ _ _ _ _ h hparen
  split at h
  · split at h
    · exact (harrow h).elim
    · exact behindOperand_inv h rfl hparen
  · exact behindOperand_inv h rfl hparen

theorem assignmentStep_inv (hopen : r.lexeme.token = .mark "(")
    (h : g.assignmentStep r = .ok (e', r')) (hparen : e'.IsParen) :
    g.binary 0 r = .ok (e', r') ∧ r'.lexeme.assignOp? = none ∧ r'.lexeme.isMark "?" = false := by
  have hyield : r.lexeme.isWord "yield" = false := by simp [Lexeme.isWord, hopen]
  have hat : atYield r = .ok (false, r) := by simp [atYield, hyield]
  rw [assignmentStep, Parse.bind_apply, hat, Parse.ok_bind] at h
  obtain ⟨function?, mid, harrow, h⟩ := Parse.bind_eq_ok.mp h
  obtain ⟨hfunction, hnone⟩ := arrow?_inv hopen harrow
  cases function? with
  | some e =>
    obtain ⟨rfl, -⟩ := Parse.ok_inj h
    exact absurd hparen (hfunction e rfl)
  | none =>
    obtain rfl := hnone rfl
    obtain ⟨_, _, hhere, h⟩ := Parse.bind_eq_ok.mp h
    obtain ⟨-, rfl⟩ := Parse.ok_inj hhere
    obtain ⟨e, mid, hbinary, h⟩ := Parse.bind_eq_ok.mp h
    obtain ⟨rfl, rfl, hquiet⟩ := assignmentTail_inv h hparen
    exact ⟨hbinary, hquiet⟩

theorem expression_inv (h : g.expression r = .ok (e', r')) (hparen : e'.IsParen) :
    g.assignment r = .ok (e', r') ∧ r'.lexeme.isMark "," = false := by
  obtain ⟨_, _, hhere, h⟩ := Parse.bind_eq_ok.mp h
  obtain ⟨-, rfl⟩ := Parse.ok_inj hhere
  obtain ⟨e, mid, hassignment, h⟩ := Parse.bind_eq_ok.mp h
  obtain ⟨comma, _, hat, h⟩ := Parse.bind_eq_ok.mp h
  obtain ⟨rfl, rfl⟩ := Parse.ok_inj hat
  split at h
  · obtain ⟨_, _, -, h⟩ := Parse.bind_eq_ok.mp h
    obtain ⟨_, _, -, h⟩ := Parse.bind_eq_ok.mp h
    obtain ⟨rfl, -⟩ := Parse.ok_inj h
    cases hparen
  · rename_i hcomma
    obtain ⟨rfl, rfl⟩ := Parse.ok_inj h
    exact ⟨hassignment, by simpa using hcomma⟩

/-- Where an expression that begins with a parenthesis is one in parentheses, it ends behind the
operand that it begins with. -/
theorem expression_inv_primary (hopen : r.lexeme.token = .mark "(")
    (h : (bounded fuel (depth + 3)).expression r = .ok (e', r')) (hparen : e'.IsParen)
    (hfault : r'.fault = none) :
    (bounded fuel depth).primary r = .ok (e', r') ∧ NoLink r' ∧ r'.EndsExpression := by
  obtain ⟨hassignment, hcomma⟩ := expression_inv h hparen
  have hassignment : (bounded fuel (depth + 2)).assignmentStep r = .ok (e', r') := hassignment
  obtain ⟨hbinary, hassign, hcondition⟩ := assignmentStep_inv hopen hassignment hparen
  have hbinary : (bounded fuel (depth + 1)).binaryStep 0 r = .ok (e', r') := hbinary
  obtain ⟨hunary, hjoint⟩ := binaryStep_inv hopen hbinary hparen hfault
  have hunary : (bounded fuel depth).unaryStep r = .ok (e', r') := hunary
  obtain ⟨hlinked, hincrement⟩ := unaryStep_inv hopen hunary hparen
  obtain ⟨hprimary, hlink⟩ := linked_inv hlinked hparen
  exact ⟨hprimary, hlink, ⟨hincrement, hjoint, hassign, hcondition⟩, hcomma⟩

/-! ## Inside the parentheses -/

variable {mid : Reader} {span : Span}

/-- No operand begins with the mark of a spread. -/
theorem unary_spread (h : r.lexeme.token = .mark "...") :
    (bounded fuel depth).unary r ≠ .ok (e, r') := by
  cases depth with
  | zero => intro hread; cases hread
  | succ depth =>
    intro hread
    have hread : (bounded fuel depth).unaryStep r = .ok (e, r') := hread
    have hprimary : (bounded fuel depth).primary r =
        .error (r.verdict ⟨"unexpected token", r.lexeme.start⟩) := by
      simp only [primary, Parse.bind_apply, ahead_apply, Parse.ok_bind, h]
      rfl
    simp [unaryStep, atAwait, linked, Lexeme.unaryOp?, Lexeme.increment?, Lexeme.isWord, h,
      hprimary, Except.bind] at hread

theorem assignment_spread (h : r.lexeme.token = .mark "...") :
    (bounded fuel depth).assignment r ≠ .ok (e, r') := by
  intro hread
  have hbinary : ∀ {depth e' mid}, (bounded fuel depth).binary 0 r ≠ .ok (e', mid) := by
    intro depth e' mid hbinary
    cases depth with
    | zero => cases hbinary
    | succ depth =>
      have hbinary : (bounded fuel depth).binaryStep 0 r = .ok (e', mid) := hbinary
      simp only [binaryStep, Parse.bind_apply, ahead_apply, Parse.ok_bind, h] at hbinary
      obtain ⟨left, behind, hunary, -⟩ := Parse.bind_eq_ok_iff.mp hbinary
      exact unary_spread h hunary
  cases depth with
  | zero => cases hread
  | succ depth =>
    have hread : (bounded fuel depth).assignmentStep r = .ok (e, r') := hread
    have hmark : r.lexeme.isMark "(" = false := by simp [Lexeme.isMark, h]
    have hword : ∀ w, r.lexeme.isWord w = false := by simp [Lexeme.isWord, h]
    have hyield : atYield r = .ok (false, r) := by simp [atYield, hword]
    have harrow : (bounded fuel depth).arrow? r = .ok (none, r) := by
      simp [arrow?, headingAhead, atAsyncNameArrow, hmark, hword]
    rw [assignmentStep, Parse.bind_apply, hyield, Parse.ok_bind] at hread
    obtain ⟨function?, mid, hnone, hread⟩ := Parse.bind_eq_ok.mp hread
    rw [harrow] at hnone
    obtain ⟨rfl, rfl⟩ := Parse.ok_inj hnone
    obtain ⟨_, mid, hhere, hread⟩ := Parse.bind_eq_ok.mp hread
    obtain ⟨-, rfl⟩ := Parse.ok_inj hhere
    obtain ⟨left, behind, hleft, -⟩ := Parse.bind_eq_ok.mp hread
    exact hbinary hleft

theorem parenthesized_inv (h : g.parenthesized r = .ok (.paren span e, r'))
    (hsingle : ∀ span items, e ≠ .sequence span items) :
    r.lexeme.isMark "(" = true ∧ r.passed.lexeme.isMark ")" = false ∧
      ∃ mid, g.assignment (insideSettings r.passed) = .ok (e, mid) ∧
        mid.lexeme.isMark ")" = true ∧ r' = (mid.settled r.passed).passed := by
  obtain ⟨start, _, hhere, h⟩ := Parse.bind_eq_ok.mp h
  obtain ⟨-, rfl⟩ := Parse.ok_inj hhere
  obtain ⟨_, r₁, hopen, h⟩ := Parse.bind_eq_ok.mp h
  obtain ⟨hmark, rfl⟩ := expectMark_inv hopen
  obtain ⟨empty?, _, hat, h⟩ := Parse.bind_eq_ok.mp h
  obtain ⟨rfl, rfl⟩ := Parse.ok_inj hat
  split at h
  · obtain ⟨_, _, hrefuse, -⟩ := Parse.bind_eq_ok.mp h
    cases hrefuse
  · rename_i hnonempty
    obtain ⟨inner, r₂, hinner, h⟩ := Parse.bind_eq_ok.mp h
    obtain ⟨_, r₃, hclose, h⟩ := Parse.bind_eq_ok.mp h
    obtain ⟨hend, rfl⟩ := expectMark_inv hclose
    obtain ⟨he, rfl⟩ := Parse.ok_inj h
    obtain ⟨-, rfl⟩ := Expr.paren.inj he
    rw [within_apply] at hinner
    obtain ⟨x, r₃, hx, hsettled⟩ := Parse.bind_eq_ok_iff.mp hinner
    obtain ⟨rfl, rfl⟩ := Parse.ok_inj hsettled
    obtain ⟨first, r₄, hfirst, hx⟩ := Parse.bind_eq_ok.mp hx
    obtain ⟨more, r₅, hmore, hx⟩ := Parse.bind_eq_ok.mp hx
    split at hx
    · rename_i hnone
      obtain ⟨rfl, rfl⟩ := Parse.ok_inj hx
      obtain rfl := List.isEmpty_iff.mp hnone
      obtain ⟨_, hnil, hmany⟩ := many_of_manyFrom hmore
      obtain rfl := hnil.symm
      cases hmany with | nil hgoing =>
      obtain ⟨comma, _, hhere, hgoing⟩ := Parse.bind_eq_ok.mp hgoing
      obtain ⟨-, rfl⟩ := Parse.ok_inj hhere
      obtain ⟨eaten, _, heat, hgoing⟩ := Parse.bind_eq_ok.mp hgoing
      cases eaten with
      | true =>
        obtain ⟨trailing?, _, -, hgoing⟩ := Parse.bind_eq_ok.mp hgoing
        cases trailing? with
        | true =>
          obtain ⟨_, _, hrefuse, -⟩ := Parse.bind_eq_ok.mp hgoing
          cases hrefuse
        | false => cases hgoing
      | false =>
        obtain ⟨-, rfl⟩ := eatMark_inv heat
        obtain ⟨-, rfl⟩ := Parse.ok_inj hgoing
        exact ⟨hmark, by simpa using hnonempty, r₄, hfirst, hend, rfl⟩
    · obtain ⟨_, _, -, hx⟩ := Parse.bind_eq_ok.mp hx
      exact absurd (Parse.ok_inj hx).1.symm (hsingle _ _)

/-- What stands alone between parentheses is an argument there. -/
theorem arguments_eq (hopen : r.lexeme.isMark "(" = true)
    (hfirst : r.passed.lexeme.isMark ")" = false)
    (h : (bounded (fuel + 1) depth).assignment (insideSettings r.passed) = .ok (e, mid))
    (hend : mid.lexeme.isMark ")" = true) :
    (bounded (fuel + 1) depth).arguments r = .ok ([.item e], (mid.settled r.passed).passed) := by
  have hspread : r.passed.lexeme.isMark "..." = false := by
    refine Bool.eq_false_iff.mpr fun hmark => ?_
    exact assignment_spread (r := insideSettings r.passed) (Lexeme.token_of_isMark hmark) h
  have heat : eatMark "..." (insideSettings r.passed) = .ok (false, insideSettings r.passed) :=
    eatMark_of_not _ hspread
  have hitem : (bounded (fuel + 1) depth).spreadable (insideSettings r.passed) =
      .ok (.item e, mid.settled (insideSettings r.passed)) := by
    have hfull : (bounded (fuel + 1) depth).fullAssignment (insideSettings r.passed) =
        .ok (e, mid.settled (insideSettings r.passed)) := by
      rw [fullAssignment, within_apply]
      show ((bounded (fuel + 1) depth).assignment (insideSettings r.passed)).bind _ = _
      rw [h]
      rfl
    simp [spreadable, heat, hfull]
  have hclose : expectMark ")" (mid.settled (insideSettings r.passed)) = _ :=
    expectMark_of_isMark hend
  have hitems : (bounded (fuel + 1) depth).items ")" (bounded (fuel + 1) depth).spreadable
      (insideSettings r.passed) =
        .ok ([.item e], (mid.settled (insideSettings r.passed)).passed) := by
    have hcount : (bounded (fuel + 1) depth).fuel = fuel + 1 := rfl
    have hfirst : (insideSettings r.passed).lexeme.isMark ")" = false := hfirst
    have hend : (mid.settled (insideSettings r.passed)).lexeme.isMark ")" = true := hend
    simp [items, itemsAndComma, hcount, itemsFrom, hfirst, hitem, hend, hclose]
  rw [arguments, Parse.bind_apply, expectMark_of_isMark hopen, Parse.ok_bind, within_apply, hitems]
  rfl

/-- An expression in parentheses, at their place in the text of an operand. -/
theorem primary_inv (hopen : r.lexeme.isMark "(" = true)
    (h : g.primary r = .ok (.paren span e, r')) : g.parenthesized r = .ok (.paren span e, r') := by
  simp only [primary, Parse.bind_apply, ahead_apply, Parse.ok_bind,
    Lexeme.token_of_isMark hopen] at h
  exact h

theorem expressionStatement_inv
    (h : g.expressionStatement r = .ok (.expression (.paren span e), r')) :
    ∃ mid, g.expression r = .ok (.paren span e, mid) ∧ endStatement mid = .ok ((), r') := by
  obtain ⟨_, _, hhere, h⟩ := Parse.bind_eq_ok.mp h
  obtain ⟨-, rfl⟩ := Parse.ok_inj hhere
  obtain ⟨x, mid, hx, h⟩ := Parse.bind_eq_ok.mp h
  have hbehind : ∀ {x mid}, (do endStatement; return Stmt.expression x : Parse Stmt) mid =
      .ok (.expression (.paren span e), r') →
        x = .paren span e ∧ endStatement mid = .ok ((), r') := by
    intro x mid h
    obtain ⟨_, _, hover, h⟩ := Parse.bind_eq_ok.mp h
    obtain ⟨hx, rfl⟩ := Parse.ok_inj h
    exact ⟨Stmt.expression.inj hx, hover⟩
  split at h
  · obtain ⟨labelled, _, -, h⟩ := Parse.bind_eq_ok.mp h
    cases labelled with
    | true =>
      obtain ⟨_, _, -, h⟩ := Parse.bind_eq_ok.mp h
      obtain ⟨_, _, -, h⟩ := Parse.bind_eq_ok.mp h
      cases h
    | false => exact absurd (hbehind h).1 (by simp)
  · obtain ⟨rfl, hover⟩ := hbehind h
    exact ⟨mid, hx, hover⟩

/-! ## Statements and programs -/

/-- **What stands alone in parentheses as a statement can be written.** A call of the function that
writes, of which the parentheses are those of the arguments, is read with that argument alone and
ends in the same place. -/
theorem statement_write_of_paren {dialect : Bool} {c c₁ c₂ : Cursor} {place : Place}
    (hparen : r.lexeme.isMark "(" = true) (hpassed : r.passed = (Reader.facing dialect c₁).passed)
    (hname : c.Shows (.word "write" false) c₁) (hopen : c₁.Shows (.mark "(") c₂)
    (h : (bounded (fuel + 2) (depth + 4)).statement place r = .ok (.expression (.paren span e), r'))
    (hsingle : ∀ span items, e ≠ .sequence span items) (hfault : r'.fault = none) :
    ∃ callSpan nameSpan, (bounded (fuel + 2) (depth + 4)).statement place (.facing dialect c) =
      .ok (.expression (.call callSpan (.name nameSpan "write") [.item e] false), r') := by
  have htoken := Lexeme.token_of_isMark hparen
  have hstatement : (bounded (fuel + 2) (depth + 3)).expressionStatement r =
      .ok (.expression (.paren span e), r') := by
    have h : statementStep (bounded (fuel + 2) (depth + 3)) place r = _ := h
    simp only [statementStep, Parse.bind_apply, ahead_apply, Parse.ok_bind, htoken] at h
    exact h
  obtain ⟨mid, hexpression, hover⟩ := expressionStatement_inv hstatement
  obtain ⟨hprimary, hlink, hend⟩ := expression_inv_primary htoken hexpression trivial
    ((fault_endStatement hover).symm.trans hfault)
  obtain ⟨-, hfirst, inner, hinner, hclose, rfl⟩ :=
    parenthesized_inv (primary_inv hparen hprimary) hsingle
  rw [hpassed] at hfirst hinner hlink hend hover
  have hmark : (Reader.facing dialect c₁).lexeme.isMark "(" = true := by
    simp [Lexeme.isMark, hopen.token_eq]
  have hlist : (bounded (fuel + 2) depth).arguments (.facing dialect c₁) = _ :=
    arguments_eq hmark hfirst hinner hclose
  have hreserved := isName_write.notReserved
  have hawait := isName_write.notAwait
  have hbegin : (Reader.facing dialect c).BeginsOperand :=
    hname.beginsOperand_word hopen hreserved hawait (.inr ⟨"(", rfl, by simp⟩)
  have hcall := expression_eq hbegin hend (.inr (by simp))
    (linked_call hname hopen hreserved hawait hlist hlink)
  exact ⟨_, _, statement_word hname hopen (by simp) hreserved hawait (by simp) place hcall (by simp)
    hover⟩

end Grammar

/-- The code of a statement that is a text in parentheses, which stand where those of the call in
`writing` stand. -/
def parenthesizing (text : String) : String := ";     (" ++ text ++ ");"

/-- The code of a statement that writes what a text says. -/
def writing (text : String) : String := ";write(" ++ text ++ ");"

theorem toList_parenthesizing (text : String) : (parenthesizing text).toList =
    ';' :: ' ' :: ' ' :: ' ' :: ' ' :: ' ' :: '(' :: (text.toList ++ [')', ';']) := by
  simp [parenthesizing]

theorem toList_writing (text : String) : (writing text).toList =
    ';' :: 'w' :: 'r' :: 'i' :: 't' :: 'e' :: '(' :: (text.toList ++ [')', ';']) := by
  simp [writing]

/-- A source that begins with a semicolon is read from there. -/
theorem ofSource_semicolon (rest : List Char) : Reader.ofSource true (';' :: rest) =
    .facing true ⟨0, ';' :: rest, (';' :: rest).length⟩ :=
  Reader.ofSource_eq (shows_semicolon (';' :: rest).length 0) rfl

/-- What is ahead behind a token that has been passed is told by the place where it ends. -/
theorem Reader.passed_congr {dialect : Bool} {c₁ c₂ c' : Cursor} {token₁ token₂ : Token}
    (h₁ : c₁.Shows token₁ c') (h₂ : c₂.Shows token₂ c') :
    (facing dialect c₁).passed = (facing dialect c₂).passed := by
  obtain ⟨start₁, h₁⟩ := h₁
  obtain ⟨start₂, h₂⟩ := h₂
  simp [Reader.passed, Reader.facing, h₁, h₂]

theorem fault_of_finalFault? {r : Reader} (hstop : r.lexeme.token = .stop)
    (h : r.finalFault? = none) : r.fault = none := by
  simp only [Reader.finalFault?, hstop] at h
  cases hfault : r.fault with
  | none => rfl
  | some fault => simp [hfault] at h

/-- **What is read alone in parentheses is written.** Where a text in parentheses is a statement of
its own, which holds one expression, the same text behind the name of the function that writes is
read as a call with that expression as its only argument. -/
theorem readProgram_writing {text : String} {span : Span} {e : Expr}
    (h : readProgram (parenthesizing text) = .ok [.empty, .expression (.paren span e)])
    (hsingle : ∀ span items, e ≠ .sequence span items) :
    ∃ callSpan nameSpan, readProgram (writing text) =
      .ok [.empty, .expression (.call callSpan (.name nameSpan "write") [.item e] false)] := by
  simp only [readProgram_eq, readSource_eq_ok, toList_parenthesizing, toList_writing] at h ⊢
  simp only [ofSource_semicolon, List.length_cons] at h ⊢
  generalize text.toList ++ [')', ';'] = rest at h ⊢
  generalize hbound : rest.length + 1 + 1 + 1 + 1 + 1 + 1 + 1 = bound at h ⊢
  -- the bounds of the grammar leave room for the rules around the expression
  obtain ⟨depth, hdepth⟩ : ∃ depth, 20 * (bound + 2) = depth + 4 :=
    Nat.exists_eq_add_of_le' (by omega)
  have hgrammar : Grammar.forLength bound = .bounded (bound + 2) (depth + 4) := by
    rw [Grammar.forLength_eq, hdepth]
  rw [hgrammar] at h ⊢
  -- behind the first semicolon, the parentheses are ahead here, and the name of the call there
  have hblanks : Cursor.Shows ⟨1, List.replicate 5 ' ' ++ '(' :: rest, bound⟩ (.mark "(")
      ⟨7, rest, bound⟩ := ⟨6, rfl⟩
  have hopen : Cursor.Shows ⟨6, '(' :: rest, bound⟩ (.mark "(") ⟨7, rest, bound⟩ := ⟨6, rfl⟩
  have hname : Cursor.Shows ⟨1, 'w' :: 'r' :: 'i' :: 't' :: 'e' :: '(' :: rest, bound⟩
      (.word "write" false) ⟨6, '(' :: rest, bound⟩ :=
    shows_word bound 0 1 isName_write.plain (by show 5 ≤ bound; omega)
      (wordEnds_of_mem (by decide) rest)
  have hmark : ∀ rest, Cursor.Shows ⟨0, ';' :: rest, bound⟩ (.mark ";") ⟨1, rest, bound⟩ :=
    fun rest => shows_semicolon bound 0
  generalize hsource : ' ' :: ' ' :: ' ' :: ' ' :: ' ' :: '(' :: rest = source at h
  generalize hsource' : 'w' :: 'r' :: 'i' :: 't' :: 'e' :: '(' :: rest = source' at hname ⊢
  have hblanks : Cursor.Shows ⟨1, source, bound⟩ (.mark "(") ⟨7, rest, bound⟩ := hsource ▸ hblanks
  have hpassed : (Reader.facing true _).passed = _ := Reader.passed_facing (hmark source) hblanks
  have hpassed' : (Reader.facing true _).passed = _ := Reader.passed_facing (hmark source') hname
  have hsemicolon : ∀ rest, (Reader.facing true ⟨0, ';' :: rest, bound⟩).lexeme.isMark ";" = true :=
    fun rest => by simp [Lexeme.isMark, (hmark rest).token_eq]
  have hempty : ∀ rest, (Grammar.bounded (bound + 2) (depth + 4)).statement .list
      (.facing true ⟨0, ';' :: rest, bound⟩) = .ok (.empty, _) :=
    fun rest => Grammar.statement_semicolon (hsemicolon rest) .list
  obtain ⟨last, hread, hfault, hexport⟩ := h
  obtain ⟨_, hlist, hmany⟩ := many_of_manyFrom hread
  obtain rfl := hlist.symm
  cases hmany with
  | @cons _ _ _ _ _ _ hgoing hitem hmany =>
  cases hmany with
  | @cons _ _ _ _ _ _ hgoing' hitem' hmany =>
  cases hmany with
  | nil hgoing'' =>
  obtain ⟨rfl, -⟩ := goesOn_inv hgoing
  obtain ⟨rfl, -⟩ := goesOn_inv hgoing'
  obtain ⟨rfl, hstop⟩ := goesOn_inv hgoing''
  rw [hempty source] at hitem
  obtain ⟨-, rfl⟩ := Parse.ok_inj hitem
  rw [hpassed] at hitem'
  have hquiet : Reader.fault _ = none := fault_of_finalFault? (hstop.mp rfl) hfault
  have hparen : (Reader.facing true ⟨1, source, bound⟩).lexeme.isMark "(" = true := by
    simp [Lexeme.isMark, hblanks.token_eq]
  obtain ⟨callSpan, nameSpan, hcall⟩ := Grammar.statement_write_of_paren hparen
    (Reader.passed_congr hblanks hopen) hname hopen hitem' hsingle hquiet
  refine ⟨callSpan, nameSpan, _, ?_, hfault, hexport⟩
  have hgoes : goesOn (.facing true ⟨0, ';' :: source', bound⟩) = .ok (true, _) :=
    goesOn_of_ne (by simp [(hmark source').token_eq])
  have hgoes' : goesOn (.facing true ⟨1, source', bound⟩) = .ok (true, _) :=
    goesOn_of_ne (by simp [hname.token_eq])
  rw [← hpassed'] at hcall hgoes'
  have hcount : 2 < bound + 2 := by omega
  exact manyFrom_of_many (.cons hgoes (hempty source') (.cons hgoes' hcall (.nil hgoing''))) []
    hcount

end Stencil.Script
