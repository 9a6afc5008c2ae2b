import Stencil.Proofs.Script.Inversion

/-! # The form of what is read

Trees can say more than any source does: that a template has more values than there are gaps between
its texts, that an argument of a call is missing, or that a link is optional outside of a chain.
No rule of the grammar reads such a tree.  What holds of the results of all the rules is shown of
one step of each of them first, whose references are assumed to be sound.
-/
namespace Stencil.Script

mutual

/-- An expression as a source can say it, as far as its value may be known before anything runs. -/
def Expr.WellRead : Expr → Prop
  | .template _ texts values => texts.length = values.length + 1
  | .paren _ inner => inner.WellRead
  | .binary _ _ left right => left.WellRead ∧ right.WellRead
  | .member _ _ _ _ optional => optional = false
  | .call _ callee arguments optional =>
    optional = false ∧ callee.WellRead ∧ WellReadArguments arguments
  | _ => True

/-- Arguments as a source can say them: none is missing. -/
def WellReadArguments : List Element → Prop
  | [] => True
  | .item e :: rest => e.WellRead ∧ WellReadArguments rest
  | .spread _ _ :: rest => WellReadArguments rest
  | .hole :: _ => False

end

/-- An argument of a call as a source can say it. -/
def Element.WellRead : Element → Prop
  | .item e => e.WellRead
  | .spread _ _ => True
  | .hole => False

theorem wellReadArguments_iff {list : List Element} :
    WellReadArguments list ↔ ∀ x ∈ list, x.WellRead := by
  induction list with
  | nil => simp [WellReadArguments]
  | cons x rest ih => cases x <;> simp [WellReadArguments, Element.WellRead, ih]

/-! ## Rows and settings -/

namespace Parse

variable {α β : Type} {step : Parse α} {next : α → Parse β} {pre : α → Prop} {post : β → Prop}

/-- What the first step reads may be relied on behind it. -/
theorem Yields.bind_of (hstep : step.Yields pre) (hnext : ∀ a, pre a → (next a).Yields post) :
    (step >>= next).Yields post := by
  intro r b r' hb
  obtain ⟨a, mid, ha, hb⟩ := bind_eq_ok.mp hb
  exact hnext a (hstep r a mid ha) mid b r' hb

theorem Yields.map {f : α → β} (hstep : step.Yields pre) (hpost : ∀ a, pre a → post (f a)) :
    (f <$> step).Yields post := by
  show Parse.Yields (step >>= fun a => pure (f a)) post
  exact .bind_of hstep fun a ha => yields_pure (hpost a ha)

theorem Yields.ite {c : Prop} [Decidable c] {yes no : Parse β} (hyes : yes.Yields post)
    (hno : no.Yields post) : (if c then yes else no).Yields post := by
  split
  · exact hyes
  · exact hno

theorem yields_unexpected : (unexpected : Parse β).Yields post :=
  .bind fun _ => yields_refuse _

theorem Yields.within {change : Reader → Reader} (hstep : step.Yields pre) :
    (within change step).Yields pre :=
  .bind fun _ => .bind fun _ => .bind_of hstep fun _ ha => .bind fun _ => yields_pure ha

theorem yields_itemsFrom {close : String} (hitem : step.Yields pre) {done : List α}
    {comma? : Option Nat} {fuel : Nat} (hdone : ∀ x ∈ done, pre x) :
    (itemsFrom close step done comma? fuel).Yields fun p => ∀ x ∈ p.1, pre x := by
  induction fuel generalizing done comma? with
  | zero => exact yields_unexpected
  | succ fuel ih =>
    refine .bind fun closed => .ite ?_ (.bind_of hitem fun y hy => .bind fun ends => ?_)
    · exact yields_pure fun x hx => hdone x (List.mem_reverse.mp hx)
    · have hmore : ∀ x ∈ y :: done, pre x := List.forall_mem_cons.mpr ⟨hy, hdone⟩
      refine .ite (yields_pure fun x hx => ?_) (.bind fun _ => .bind fun _ => ih hmore)
      exact hmore x (List.mem_reverse.mp hx)

/-- A template has a text before each of its values and one behind them all. -/
theorem yields_templateFrom {tagged : Bool} {texts : List String} {values : List α} {fuel : Nat}
    (hlength : texts.length = values.length) :
    (templateFrom step tagged texts values fuel).Yields fun p =>
      p.1.length = p.2.length + 1 := by
  induction fuel generalizing texts values with
  | zero => exact yields_unexpected
  | succ fuel ih =>
    have hpart : ∀ (text : String) (last : Bool),
        (do
          pass
          if last then return ((text :: texts).reverse, values.reverse)
          let x ← step
          unless ← atMark "\x7d" do unexpected
          let r ← get
          reread (readTemplate r.lexeme.start) r.cursor
          templateFrom step tagged (text :: texts) (x :: values) fuel :
            Parse (List String × List α)).Yields fun p => p.1.length = p.2.length + 1 := by
      intro text last
      have hrest : ∀ x, (templateFrom step tagged (text :: texts) (x :: values) fuel).Yields
          fun p => p.1.length = p.2.length + 1 := fun x => ih (by simp [hlength])
      refine .bind fun _ => .ite (yields_pure (by simp [hlength])) ?_
      exact .bind fun x => .bind fun closed => .ite (.bind fun _ => .bind fun _ => hrest x)
        (.bind fun _ => .bind fun _ => .bind fun _ => hrest x)
    refine .bind fun l => ?_
    generalize l.token = token
    cases token with
    | template text last =>
      exact .ite (.bind fun _ => hpart _ last) (hpart _ last)
    | _ => exact yields_unexpected

end Parse

/-! ## One step of each rule -/

/-- What is shown of the result of a rule. -/
def Rule.Sound : (rule : Rule) → rule.Result → Prop
  | .assignment, e => Expr.WellRead e
  | .unary, e => Expr.WellRead e
  | .binary _, e => Expr.WellRead e
  | .operand, e => Expr.WellRead e
  | .construction, e => Expr.WellRead e
  | .statement _, _ => True
  | .pattern, _ => True
  | .type, _ => True

/-- All that a grammar reads is sound. -/
def Grammar.Sound (g : Grammar) : Prop := ∀ rule, (g.read rule).Yields rule.Sound

namespace Grammar
open Parse
variable {g : Grammar} {e : Expr} {start fuel : Nat}

theorem Sound.assignment (h : g.Sound) : g.assignment.Yields Expr.WellRead := h .assignment

theorem Sound.unary (h : g.Sound) : g.unary.Yields Expr.WellRead := h .unary

theorem Sound.binary (h : g.Sound) (level : Nat) : (g.binary level).Yields Expr.WellRead :=
  h (.binary level)

theorem Sound.expression (h : g.Sound) : g.expression.Yields Expr.WellRead := by
  refine .bind fun _ => .bind_of h.assignment fun first hfirst => .bind fun comma => ?_
  exact .ite (.bind fun _ => .bind fun _ => yields_pure trivial) (yields_pure hfirst)

theorem Sound.fullExpression (h : g.Sound) : g.fullExpression.Yields Expr.WellRead :=
  .within h.expression

theorem Sound.fullAssignment (h : g.Sound) : g.fullAssignment.Yields Expr.WellRead :=
  .within h.assignment

/-! ### Operands -/

theorem Sound.spreadable (h : g.Sound) : g.spreadable.Yields Element.WellRead := by
  refine .bind fun _ => .bind fun spread => .ite ?_ ?_
  · exact .bind fun _ => .bind fun _ => yields_pure trivial
  · exact .bind_of h.fullAssignment fun _ he => yields_pure he

theorem Sound.arguments (h : g.Sound) : g.arguments.Yields WellReadArguments := by
  have hitems : (g.itemsAndComma ")" g.spreadable).Yields fun p => ∀ x ∈ p.1, x.WellRead :=
    .bind_of (yields_itemsFrom h.spreadable (by simp)) fun _ hlist =>
      .bind fun _ => yields_pure hlist
  exact .bind fun _ => .within (.bind_of hitems fun _ hlist =>
    yields_pure (wellReadArguments_iff.mpr hlist))

theorem yields_template : g.template.Yields Expr.WellRead :=
  .bind fun _ => .bind_of (yields_templateFrom rfl) fun _ hlength =>
    .bind fun _ => yields_pure hlength

/-- A row in parentheses is read as one sequence. -/
theorem Sound.parenthesized (h : g.Sound) : g.parenthesized.Yields Expr.WellRead := by
  have hparen : ∀ (going : Parse Bool) (start : Nat), (do
      let inner ← within insideSettings do
        let first ← g.assignment
        let more ← manyFrom going g.assignment [] g.fuel
        if more.isEmpty then return first
        return .sequence (← spanFrom first.span.start) (first :: more)
      expectMark ")"
      return .paren (← spanFrom start) inner : Parse Expr).Yields Expr.WellRead := by
    intro going start
    refine .bind_of (.within (.bind_of h.assignment fun first hfirst => .bind fun more => ?_))
      fun inner hinner => .bind fun _ => .bind fun _ => yields_pure hinner
    exact .ite (yields_pure hfirst) (.bind fun _ => yields_pure trivial)
  exact .bind fun start => .bind fun _ => .bind fun empty =>
    .ite (.bind fun _ => hparen _ start) (hparen _ start)

theorem yields_newTail : (g.newTail start).Yields Expr.WellRead := by
  have hbehind : ∀ callee, (do
      let list ← if ← atMark "(" then g.arguments else pure []
      return .new (← spanFrom start) callee list : Parse Expr).Yields Expr.WellRead := by
    refine fun callee => .bind fun call => .ite ?_ ?_
    · exact .bind fun _ => .bind fun _ => yields_pure trivial
    · exact .bind fun _ => .bind fun _ => yields_pure trivial
  refine .bind fun point => .ite (.bind fun target => .ite ?_ ?_) ?_
  · exact .bind fun _ => yields_pure trivial
  · exact .bind fun _ => .bind fun _ => yields_pure trivial
  · refine .bind fun _ => .bind fun _ => .bind fun _ => .bind fun callee => ?_
    split
    · exact .ite (.bind fun _ => hbehind _) (hbehind _)
    · exact hbehind _

theorem yields_importTail : (g.importTail start).Yields Expr.WellRead := by
  have hclose : (do
      unless ← eatMark ")" do refuse ⟨"malformed import", start⟩
      return .unsupported (← spanFrom start) : Parse Expr).Yields Expr.WellRead := by
    refine .bind fun closed => .ite ?_ ?_
    · exact .bind fun _ => yields_pure trivial
    · exact .bind fun _ => .bind fun _ => yields_pure trivial
  have hopen : (do
      expectMark "("
      if ← atMark ")" then refuse ⟨"malformed import", start⟩
      within insideSettings do
        let _ ← g.assignment
        if ← eatMark "," then
          unless ← atMark ")" do
            let _ ← g.assignment
            let _ ← eatMark ","
      unless ← eatMark ")" do refuse ⟨"malformed import", start⟩
      return .unsupported (← spanFrom start) : Parse Expr).Yields Expr.WellRead := by
    refine .bind fun _ => .bind fun empty => .ite ?_ ?_
    · exact .bind fun _ => .bind fun _ => hclose
    · exact .bind fun _ => hclose
  refine .bind fun point => .ite (.bind fun known => .ite ?_ ?_) hopen
  · exact .bind fun _ => yields_pure trivial
  · exact .bind fun source => .bind fun defer => .ite hopen (.bind fun _ => hopen)

theorem yields_wordOperand (word : String) (second : Lexeme) :
    (g.wordOperand word start second).Yields Expr.WellRead := by
  refine .bind fun l => ?_
  split
  · exact .bind fun _ => yields_pure trivial
  · exact .bind fun _ => yields_pure trivial
  · exact .bind fun _ => yields_pure trivial
  · exact .bind fun _ => yields_pure trivial
  · exact .bind fun _ => .bind fun _ => .bind fun _ => yields_pure trivial
  · exact .bind fun _ => .bind fun _ => yields_pure trivial
  · exact .bind fun _ => yields_newTail
  · exact .bind fun _ => .bind fun _ => .bind fun _ => .bind fun _ =>
      .ite (yields_pure trivial) (.bind fun _ => yields_pure trivial)
  · exact .ite (.bind fun _ => yields_importTail) (.bind fun _ => .bind fun _ => yields_importTail)
  · exact .ite (.bind fun _ => .bind fun _ => .bind fun _ => .bind fun _ => yields_pure trivial)
      (.bind fun _ => yields_pure trivial)

theorem yields_regex (read : Cursor → Except Fault (Token × Cursor)) (cursor : Cursor) :
    (do
      reread read cursor
      match (← ahead).token with
      | .regex =>
        pass
        return .unsupported (← spanFrom start)
      | _ => unexpected : Parse Expr).Yields Expr.WellRead := by
  refine .bind fun _ => .bind fun l => ?_
  split
  · exact .bind fun _ => .bind fun _ => yields_pure trivial
  · exact yields_unexpected

theorem Sound.primary (h : g.Sound) : g.primary.Yields Expr.WellRead := by
  refine .bind fun l => ?_
  split
  · exact .bind fun _ => yields_pure trivial
  · exact .bind fun _ => yields_pure trivial
  · exact .bind fun _ => yields_pure trivial
  · exact yields_template
  · exact .bind fun _ => yields_wordOperand _ _
  · exact h.parenthesized
  · exact .bind fun _ => .bind fun _ => .bind fun _ => .bind fun _ => .bind fun _ =>
      yields_pure trivial
  · exact .bind fun _ => .bind fun _ => .bind fun _ => .bind fun _ => .bind fun _ =>
      yields_pure trivial
  · exact .bind fun _ => .bind fun _ => .bind fun _ => yields_pure trivial
  · exact .bind fun _ => yields_regex _ _
  · exact .bind fun _ => yields_regex _ _
  · exact yields_unexpected

/-! ### Links -/

theorem yields_memberLink : (memberLink start e false).Yields Expr.WellRead := by
  refine .bind fun l => ?_
  split
  · exact .bind fun _ => .bind fun _ => yields_pure trivial
  · exact .bind fun _ => .bind fun _ => yields_pure rfl

theorem yields_indexLink : (g.indexLink start e false).Yields Expr.WellRead :=
  .bind fun _ => .bind fun _ => .bind fun _ => .bind fun _ => yields_pure trivial

theorem Sound.callLink (h : g.Sound) (he : e.WellRead) :
    (g.callLink start e false).Yields Expr.WellRead :=
  .bind_of h.arguments fun _ hlist => .bind fun _ => yields_pure ⟨rfl, he, hlist⟩

theorem yields_taggedLink (chained : Bool) : (g.taggedLink start chained).Yields Expr.WellRead := by
  unfold taggedLink
  exact .ite (.bind fun _ => .bind fun _ => .bind fun _ => .bind fun _ => yields_pure trivial)
    (.bind fun _ => .bind fun _ => yields_pure trivial)

/-- Behind an optional link everything is part of the chain, about which nothing is said. -/
theorem Sound.linksFrom (h : g.Sound) {calls chained : Bool}
    (he : chained = false → e.WellRead) :
    (g.linksFrom calls start e chained fuel).Yields fun p => p.2 = false → p.1.WellRead := by
  induction fuel generalizing e chained with
  | zero => exact yields_unexpected
  | succ fuel ih =>
    refine .bind fun l => ?_
    split
    · exact .bind fun _ => .bind_of yields_memberLink fun _ hx => ih fun _ => hx
    · exact .ite (.bind fun _ => ih fun hchained => by cases hchained)
        (.bind fun _ => .bind fun _ => yields_pure he)
    · exact .bind fun r => .ite (yields_pure he)
        (.bind_of yields_indexLink fun _ hx => ih fun _ => hx)
    · refine .ite ?_ (yields_pure he)
      cases chained with
      | false => exact .bind_of (h.callLink (he rfl)) fun _ hx => ih fun _ => hx
      | true => exact .bind fun _ => ih fun hchained => by cases hchained
    · exact .bind_of (yields_taggedLink chained) fun _ hx => ih fun _ => hx
    · exact yields_pure he

theorem Sound.linked (h : g.Sound) (calls : Bool) : (g.linked calls).Yields Expr.WellRead := by
  refine .bind fun start => .bind_of h.primary fun e he =>
    .bind_of (h.linksFrom fun _ => he) ?_
  rintro ⟨x, chained⟩ hx
  cases chained with
  | true => exact .bind fun _ => yields_pure trivial
  | false => exact yields_pure (hx rfl)

/-! ### Operators and assignments -/

theorem Sound.unaryStep (h : g.Sound) : g.unaryStep.Yields Expr.WellRead := by
  refine .bind fun start => .bind fun l => ?_
  split
  · exact .bind fun _ => .bind fun _ => .bind fun _ => .bind fun _ => yields_pure trivial
  · split
    · exact .bind fun _ => .bind fun _ => .bind fun _ => .bind fun _ => yields_pure trivial
    · refine .bind fun awaits => ?_
      split
      · have hawait : (do
            pass
            let argument ← within (fun r => { r with inAsync := true }) g.unary
            let span ← spanFrom start
            notePower start
            return .await span argument : Parse Expr).Yields Expr.WellRead :=
          .bind fun _ => .bind fun _ => .bind fun _ => .bind fun _ => yields_pure trivial
        exact .bind fun r => .ite hawait (.bind fun _ => hawait)
      · refine .bind_of (h.linked true) fun e he => .bind fun l => ?_
        split
        · exact .ite (yields_pure he)
            (.bind fun _ => .bind fun _ => .bind fun _ => yields_pure trivial)
        · exact yields_pure he

/-- An operator and what is behind it, if all that is read from there on is sound. -/
theorem Sound.joint (h : g.Sound) {level : Nat} (he : e.WellRead)
    (hrest : ∀ {e : Expr}, e.WellRead → (g.jointsFrom level start e fuel).Yields Expr.WellRead) :
    (do
      let r ← get
      match r.lexeme.joint? r.allowIn with
      | none => return e
      | some joint =>
        if joint.level < level || (joint.level == level && level != powerLevel) then return e
        pass
        let right ← g.binary joint.level
        let span ← spanFrom start
        match joint.joining with
        | .binary op => g.jointsFrom level start (.binary span op e right) fuel
        | .logical op =>
          if op = .coalesce && mixesCoalesce e right then
            note "mixed logical operators" start
          g.jointsFrom level start (.logical span op e right) fuel :
            Parse Expr).Yields Expr.WellRead := by
  refine .bind fun r => ?_
  split
  · exact yields_pure he
  · refine .ite (yields_pure he) (.bind fun _ => ?_)
    refine .bind_of (h.binary _) fun right hright => .bind fun span => ?_
    split
    · exact hrest ⟨he, hright⟩
    · exact .ite (.bind fun _ => hrest trivial) (hrest trivial)

theorem Sound.jointsFrom (h : g.Sound) {level : Nat} (he : e.WellRead) :
    (g.jointsFrom level start e fuel).Yields Expr.WellRead := by
  induction fuel generalizing e with
  | zero => exact yields_unexpected
  | succ fuel ih =>
    refine .bind fun typing => .ite ?_ (h.joint he ih)
    exact .bind fun _ => .bind fun _ => .bind fun _ => .bind fun span => ih he

theorem yields_privateTest (level : Nat) : (g.privateTest level).Yields Expr.WellRead := by
  have htest : ∀ start, (do
      pass
      expectWord "in"
      let _ ← g.unary
      unless level < comparisonLevel do refuse ⟨"private name as an operand", start⟩
      return .unsupported (← spanFrom start) : Parse Expr).Yields Expr.WellRead := by
    refine fun start => .bind fun _ => .bind fun _ => .bind fun _ => .ite ?_ ?_
    · exact .bind fun _ => yields_pure trivial
    · exact .bind fun _ => .bind fun _ => yields_pure trivial
  exact .bind fun start => .bind fun r => .ite (htest start) (.bind fun _ => htest start)

theorem Sound.binaryStep (h : g.Sound) (level : Nat) :
    (g.binaryStep level).Yields Expr.WellRead := by
  refine .bind fun l => ?_
  split
  · exact .bind_of (yields_privateTest level) fun _ he => h.jointsFrom he
  · exact .bind_of h.unary fun _ he => h.jointsFrom he

theorem yields_arrowTail (isAsync : Bool) (list : List Pattern) :
    (g.arrowTail start isAsync list).Yields Expr.WellRead := by
  refine .bind fun l => .ite ?_ ?_
  · exact .bind fun _ => .bind fun _ => .bind fun _ => .bind fun _ => yields_pure trivial
  · exact .bind fun _ => .bind fun _ => .bind fun _ => yields_pure trivial

theorem yields_yieldedValue : (do
    pass
    unless (← ahead).onNewLine do
      let delegates ← eatMark "*"
      let l ← ahead
      let ends := match l.token with
        | .stop => true
        | .word w _ => w == "in"
        | .mark text => [")", "]", "\x7d", ",", ";", ":"].contains text
        | _ => false
      if delegates || !ends then
        let _ ← g.assignment
    return .unsupported (← spanFrom start) : Parse Expr).Yields Expr.WellRead := by
  refine .bind fun _ => .bind fun l => .ite ?_ (.bind fun _ => .bind fun _ => ?_)
  · exact .bind fun _ => yields_pure trivial
  · exact .ite (.bind fun _ => .bind fun _ => yields_pure trivial)
      (.bind fun _ => yields_pure trivial)

theorem yields_yielding : g.yielding.Yields Expr.WellRead :=
  .bind fun _ => .bind fun _ => .ite yields_yieldedValue (.bind fun _ => yields_yieldedValue)

theorem yields_behindOperand (he : e.WellRead) (op? : Option AssignOp) : (do
    match op? with
    | some op =>
      let target ← anyTarget e
      pass
      let value ← g.assignment
      return .assign (← spanFrom start) op target value
    | none =>
      if ← eatMark "?" then
        let yes ← g.fullAssignment
        expectMark ":"
        let no ← g.assignment
        return .conditional (← spanFrom start) e yes no
      return e : Parse Expr).Yields Expr.WellRead := by
  cases op? with
  | some op =>
    exact .bind fun _ => .bind fun _ => .bind fun _ => .bind fun _ => yields_pure trivial
  | none =>
    refine .bind fun condition => .ite ?_ (yields_pure he)
    exact .bind fun _ => .bind fun _ => .bind fun _ => .bind fun _ => yields_pure trivial

theorem yields_assignmentTail (he : e.WellRead) :
    (g.assignmentTail start e).Yields Expr.WellRead := by
  refine .bind fun l => .ite ?_ (yields_behindOperand he _)
  split
  · exact yields_arrowTail _ _
  · exact yields_behindOperand he _

theorem yields_asyncNameArrow : g.asyncNameArrow.Yields Expr.WellRead := by
  refine .bind fun start => .bind fun _ => .bind fun e => ?_
  split
  · exact .ite (.bind fun _ => yields_arrowTail _ _) (yields_arrowTail _ _)
  · exact yields_unexpected

theorem yields_arrow? : g.arrow?.Yields fun function? => ∀ e ∈ function?, e.WellRead := by
  have htail : ∀ {start isAsync list}, (do
      return some (← g.arrowTail start isAsync list) : Parse (Option Expr)).Yields
        fun function? => ∀ e ∈ function?, e.WellRead :=
    .bind_of (yields_arrowTail _ _) fun _ he => yields_pure (by simpa using he)
  refine .bind fun start => .bind fun heading => ?_
  cases heading with
  | yes => exact .bind fun _ => htail
  | maybe =>
    refine .bind fun head? => ?_
    cases head? with
    | some head => exact htail
    | none => exact yields_pure (by simp)
  | no =>
    exact .bind fun arrow => .ite (.map yields_asyncNameArrow (by simp)) (yields_pure (by simp))

theorem Sound.assignmentStep (h : g.Sound) : g.assignmentStep.Yields Expr.WellRead := by
  refine .bind fun yields => .ite ?_ (.bind_of yields_arrow? fun function? hfunction => ?_)
  · exact yields_yielding
  · split
    · exact yields_pure (hfunction _ rfl)
    · exact .bind fun start => .bind_of (h.binary 0) fun _ he => yields_assignmentTail he

/-- One step of a rule is sound if the rules that it refers to are. -/
theorem Sound.step (h : g.Sound) (rule : Rule) : (g.step rule).Yields rule.Sound := by
  cases rule with
  | assignment => exact h.assignmentStep
  | unary => exact h.unaryStep
  | binary level => exact h.binaryStep level
  | operand => exact h.linked true
  | construction => exact h.linked false
  | statement place => exact fun _ _ _ _ => trivial
  | pattern => exact fun _ _ _ _ => trivial
  | type => exact fun _ _ _ _ => trivial

/-- The grammar is sound, however far its rules go down. -/
theorem sound_bounded (fuel depth : Nat) : (bounded fuel depth).Sound := by
  induction depth with
  | zero => exact fun rule => yields_unexpected
  | succ depth ih => exact ih.step

end Grammar

/-- **No source says more than it can.** -/
theorem wellRead_readExpression {source : String} {e : Expr} (h : readExpression source = .ok e) :
    e.WellRead := by
  obtain ⟨r, hread, -⟩ := readSource_eq_ok.mp h
  exact (Grammar.sound_bounded _ _).fullExpression _ _ _ hread

end Stencil.Script
