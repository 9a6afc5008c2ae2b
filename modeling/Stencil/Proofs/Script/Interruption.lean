import Stencil.Proofs.Script.Lockstep

/-! # Interrupted runs

Every step of evaluation keeps two clocks in step, if the finalizers of the script give way: one
that is executed when the time is over ends normally, or because the time is over.  What is thrown
can be caught, but that the time is over cannot; a finalizer that ends in any other way puts its own
end in the place of it.
-/
namespace Stencil.Script

variable {good : List Stmt → Prop}

variable (good) in
/-- All finalizers in a task are good. -/
def Task.Keeps : Task → Prop
  | .expression e _ => e.Keeps good
  | .statement s _ => s.Keeps good
  | .bind p _ _ _ => p.Keeps good
  | .call _ _ _ => True

/-- A finalizer that does not change the way in which a run ends whose time is over. -/
def Runner.GivesWay (r : Runner) (finalizer : List Stmt) : Prop :=
  ∀ (scope : Nat) (m : Machine),
    match r.innerBlock finalizer scope (m.withLooks 0) with
    | .ok flow _ => flow = .normal
    | .error why _ => why.IsLimit

variable (good) in
/-- Runners that keep two clocks in step, and for which all good finalizers give way. -/
structure Runner.Reliable (r : Runner) : Prop where
  run : ∀ task : Task, task.Keeps good → Steady good (r.run task)
  givesWay : ∀ finalizer, good finalizer → r.GivesWay finalizer

namespace Runner.Reliable

variable {r : Runner} (h : r.Reliable good)

include h

theorem expression (e : Expr) (he : e.Keeps good) (scope : Nat) :
    Steady good (r.expression e scope) :=
  h.run (.expression e scope) he

theorem statement (s : Stmt) (hs : s.Keeps good) (scope : Nat) :
    Steady good (r.statement s scope) :=
  h.run (.statement s scope) hs

theorem bind (p : Pattern) (hp : p.Keeps good) (value : Value) (scope : Nat) (constant : Bool) :
    Steady good (r.bind p value scope constant) :=
  h.run (.bind p value scope constant) hp

theorem call (callee : Value) (values : List Value) (place : Nat) :
    Steady good (r.call callee values place) :=
  h.run (.call callee values place) trivial

theorem textOf (e : Expr) (he : e.Keeps good) (scope : Nat) : Steady good (r.textOf e scope) :=
  (h.expression _ he scope).then fun _ => (simple_textOf _).steady

theorem elements {list : List Element} (hlist : KeepElements good list) (scope : Nat) :
    Steady good (r.elements scope list) := by
  induction list with
  | nil => exact steady_pure _
  | cons element rest ih =>
    cases element with
    | item e =>
      exact (h.expression _ hlist.1 scope).then fun v => (ih hlist.2).then fun _ => steady_pure _
    | spread span e =>
      refine (h.expression _ hlist.1 scope).then fun v => ?_
      refine (simple_iterate anyPlace _ _).steady.then fun items => ?_
      exact (ih hlist.2).then fun _ => steady_pure _
    | hole => exact (ih hlist).then fun _ => steady_pure _

/-! ## Calls -/

theorem callEach (f receiver : Value) (place : Nat) (done : Array (Value × Value))
    (items : List Value) : Steady good (r.callEach f receiver place done items) := by
  induction items generalizing done with
  | nil => exact steady_pure _
  | cons item rest ih => exact (h.call _ _ _).then fun result => ih _

theorem arrayTraversal (items : Array Value) (receiver : Value) (m : Method) (f : Value)
    (place : Nat) : Steady good (r.arrayTraversal items receiver m f place) := by
  unfold Runner.arrayTraversal
  simp only
  split
  case' isFalse =>
    refine (simple_textOf f).steady.then fun _ => ?_
    refine (simple_raise anyPlace _ _).steady.then fun _ => ?_
  all_goals
    refine (h.callEach f receiver place _ _).then fun results => ?_
    split <;> simp

theorem arrayMethod (array : Nat) (m : Method) (values : List Value) (place : Nat) :
    Steady good (r.arrayMethod array m values place) := by
  cases m
  case map | filter | forEach =>
    exact (simple_itemsOf _).steady.then fun items => h.arrayTraversal items _ _ _ _
  all_goals exact (simple_arrayMethod anyPlace r array (by decide) values).steady

theorem replacement (f : Value) (pattern : String) (place : Nat) :
    Steady good (r.replacement f pattern place) := by
  unfold Runner.replacement
  split
  · exact (h.call _ _ _).then fun _ => (simple_textOf _).steady
  · exact (simple_textOf _).steady

theorem stringMethod (s : String) (m : Method) (values : List Value) (place : Nat) :
    Steady good (r.stringMethod s m values place) := by
  cases m
  case replace =>
    refine (simple_textOf _).steady.then fun pattern => ?_
    split
    · exact (h.replacement _ _ _).then fun _ => steady_pure _
    · exact steady_pure _
  all_goals exact (simple_stringMethod anyPlace r s (by decide) values).steady

theorem callMethod (receiver : Value) (m : Method) (values : List Value) (place : Nat) :
    Steady good (r.callMethod receiver m values place) := by
  unfold Runner.callMethod
  split
  · exact h.arrayMethod _ _ _ _
  · exact h.stringMethod _ _ _ _
  · exact (simple_numberMethod anyPlace _ _ _).steady
  · exact (simple_noMethod anyPlace _).steady

/-! ## Patterns -/

theorem bindFields {list : List PatternField} (hlist : KeepFields good list) (value : Value)
    (scope : Nat) (constant : Bool) (place : Nat) :
    Steady good (r.bindFields value scope constant place list) := by
  induction list with
  | nil => exact steady_pure _
  | cons field rest ih =>
    obtain ⟨key, p⟩ := field
    obtain ⟨hkey, hp, hrest⟩ := hlist
    refine (h.textOf _ hkey scope).then fun name => ?_
    refine (simple_getMember anyPlace _ _).steady.then fun part => ?_
    exact (h.bind _ hp _ _ _).then fun _ => (ih hrest).then fun _ => steady_pure _

theorem bindRest {rest : Pattern} (hrest : rest.Keeps good) (value : Value) (used : List String)
    (scope : Nat) (constant : Bool) : Steady good (r.bindRest rest value used scope constant) := by
  refine (simple_keysOf value).steady.then fun keys => Steady.get (fun _ _ => rfl) fun m => ?_
  exact (simple_newObject _).steady.then fun _ => h.bind _ hrest _ _ _

theorem bindElements {list : List Pattern} (hlist : KeepPatterns good list) (scope : Nat)
    (constant : Bool) (values : List Value) :
    Steady good (r.bindElements scope constant list values) := by
  induction list generalizing values with
  | nil => exact steady_pure _
  | cons p rest ih => exact (h.bind _ hlist.1 _ _ _).then fun _ => ih hlist.2 _

theorem bindStep {p : Pattern} (hp : p.Keeps good) (value : Value) (scope : Nat)
    (constant : Bool) : Steady good (r.bindStep p value scope constant) := by
  cases p with
  | hole => exact steady_pure _
  | name span name => exact (Simple.declare _ _ _ _).steady
  | object span fields rest =>
    simp only [Runner.bindStep]
    split
    case' isTrue =>
      refine (simple_textOf _).steady.then fun _ => ?_
      refine (simple_raise anyPlace _ _).steady.then fun _ => ?_
    all_goals
      refine (h.bindFields hp.1 _ _ _ _).then fun used => ?_
      split
      · exact steady_pure _
      · exact h.bindRest hp.2 _ _ _ _
  | array span elements rest =>
    refine (simple_iterate anyPlace _ _).steady.then fun items => ?_
    refine (h.bindElements hp.1 _ _ _).then fun _ => ?_
    split
    · exact steady_pure _
    · exact (simple_newArray _).steady.then fun _ => h.bind _ hp.2 _ _ _
  | fallback span p e =>
    simp only [Runner.bindStep]
    split
    · exact (h.expression _ hp.2 scope).then fun _ => h.bind _ hp.1 _ _ _
    · exact h.bind _ hp.1 _ _ _

/-! ## Expressions -/

theorem templateFrom {list : List Expr} (hlist : KeepExprs good list) (scope : Nat)
    (texts : List String) : Steady good (r.templateFrom scope texts list) := by
  induction list generalizing texts with
  | nil => cases texts <;> exact steady_pure _
  | cons e rest ih =>
    cases texts with
    | nil => exact steady_pure _
    | cons text texts =>
      exact (h.textOf _ hlist.1 scope).then fun _ => (ih hlist.2 texts).then fun _ => steady_pure _

theorem members {list : List Member} (hlist : KeepMembers good list) (scope : Nat)
    (fields : Fields) : Steady good (r.members scope fields list) := by
  induction list generalizing fields with
  | nil => exact steady_pure _
  | cons member rest ih =>
    cases member with
    | field key value =>
      obtain ⟨hkey, hvalue, hrest⟩ := hlist
      refine (h.textOf _ hkey scope).then fun _ => ?_
      exact (h.expression _ hvalue scope).then fun _ => ih hrest _
    | spread span e =>
      refine (h.expression _ hlist.1 scope).then fun _ => ?_
      exact (simple_spreadFields _ _).steady.then fun _ => ih hlist.2 _

theorem sequence {list : List Expr} (hlist : KeepExprs good list) (scope : Nat) (last : Value) :
    Steady good (r.sequence scope last list) := by
  induction list generalizing last with
  | nil => exact steady_pure _
  | cons e rest ih => exact (h.expression _ hlist.1 scope).then fun _ => ih hlist.2 _

theorem unary (operand : Expr) (he : operand.Keeps good) (op : UnaryOp) (scope : Nat) :
    Steady good (r.unary op operand scope) := by
  unfold Runner.unary
  split
  case h_1 => simp
  case h_2 owner _ _ _ =>
    refine (h.expression owner he scope).then fun v => ?_
    exact (simple_eraseMember _ _).steady.then fun _ => steady_pure _
  case h_3 =>
    refine (h.expression _ he.1 scope).then fun owner => (h.textOf _ he.2 scope).then fun key => ?_
    exact (simple_eraseMember _ _).steady.then fun _ => steady_pure _
  case h_4 => exact steady_pure _
  case h_5 => exact (h.expression _ he scope).then fun _ => (simple_unaryValue _ _).steady

theorem combine {e : Expr} (he : e.Keeps good) (op : AssignOp) (current : Value)
    (scope place : Nat) : Steady good (r.combine op current e scope place) := by
  cases op with
  | plain => exact (h.expression _ he scope).then fun _ => steady_pure _
  | compound op =>
    exact (h.expression _ he scope).then fun _ =>
      (simple_binaryValue anyPlace _ _ _).steady.then fun _ => steady_pure _
  | logical op =>
    simp only [Runner.combine]
    split
    · exact steady_pure _
    · exact (h.expression _ he scope).then fun _ => steady_pure _

/-- An assignment, once the value that its target has is known. -/
theorem store {e : Expr} (he : e.Keeps good) (op : AssignOp) (current : Value)
    (scope place : Nat) {set : Value → Exec Unit} (hset : ∀ v, Steady good (set v)) :
    Steady good (do
      let (value, stored) ← r.combine op current e scope place
      if stored then set value
      return value) := by
  refine (h.combine he op current scope place).then fun (value, stored) => ?_
  simp [hset]

theorem assignMember {e : Expr} (he : e.Keeps good) (owner : Value) (key : String)
    (op : AssignOp) (scope place : Nat) :
    Steady good (r.assignMember owner key op e scope place) := by
  have hplace : AnyPlace place := anyPlace
  have hstore current := h.store he op current scope place fun v =>
    (simple_setMember hplace owner key v).steady
  unfold Runner.assignMember
  split
  · exact (steady_pure _).then hstore
  · exact (simple_getMember anyPlace _ _).steady.then hstore

theorem assign {target : Target} {e : Expr} (htarget : target.Keeps good) (he : e.Keeps good)
    (op : AssignOp) (scope : Nat) (span : Span) :
    Steady good (r.assign op target e scope span) := by
  cases target with
  | name nameSpan name =>
    have hplace : AnyPlace nameSpan.start := anyPlace
    have hstore current := h.store he op current scope span.start fun v =>
      (simple_assignVariable hplace scope name v).steady
    simp only [Runner.assign]
    split
    · exact (steady_pure _).then hstore
    · exact (simple_readVariable anyPlace _ _).steady.then hstore
  | member owner name nameSpan =>
    exact (h.expression owner htarget scope).then fun _ => h.assignMember he _ _ _ _ _
  | index span owner key =>
    refine (h.expression _ htarget.1 scope).then fun _ => ?_
    exact (h.textOf _ htarget.2 scope).then fun _ => h.assignMember he _ _ _ _ _
  | _ => exact (simple_raise anyPlace _ _).steady

theorem addTo (target : Target) (htarget : target.Keeps good) (step : Float) (scope place : Nat) :
    Steady good (r.addTo step target scope place) := by
  cases target with
  | name span name =>
    refine (simple_readVariable anyPlace _ _).steady.then fun v => ?_
    refine (simple_numberOf v).steady.then fun old => ?_
    exact (simple_assignVariable anyPlace _ _ _).steady.then fun _ => steady_pure _
  | member owner name nameSpan =>
    refine (h.expression owner htarget scope).then fun owner => ?_
    refine (simple_getMember anyPlace _ _).steady.then fun v => ?_
    refine (simple_numberOf v).steady.then fun old => ?_
    exact (simple_setMember anyPlace _ _ _).steady.then fun _ => steady_pure _
  | index span owner key =>
    refine (h.expression _ htarget.1 scope).then fun owner => ?_
    refine (h.textOf _ htarget.2 scope).then fun name => ?_
    refine (simple_getMember anyPlace _ _).steady.then fun v => ?_
    refine (simple_numberOf v).steady.then fun old => ?_
    exact (simple_setMember anyPlace _ _ _).steady.then fun _ => steady_pure _
  | _ => exact (simple_raise anyPlace _ _).steady

theorem member (owner : Expr) (howner : owner.Keeps good) (name : String) (nameSpan : Span)
    (optional : Bool) (scope : Nat) :
    Steady good (r.member owner name nameSpan optional scope) := by
  refine (h.expression _ howner scope).then fun owner => ?_
  split
  · exact steady_pure _
  · exact (simple_getMember anyPlace _ _).steady

theorem index {owner key : Expr} (howner : owner.Keeps good) (hkey : key.Keeps good)
    (optional : Bool) (scope : Nat) : Steady good (r.index owner key optional scope) := by
  refine (h.expression _ howner scope).then fun owner => ?_
  split
  · exact steady_pure _
  · exact (h.textOf _ hkey scope).then fun _ => (simple_getMember anyPlace _ _).steady

theorem callExpression {callee : Expr} {list : List Element} (hcallee : callee.Keeps good)
    (hlist : KeepElements good list) (optional : Bool) (scope place : Nat) :
    Steady good (r.callExpression callee list optional scope place) := by
  refine steady_tick.then fun _ => (h.expression _ hcallee scope).then fun f => ?_
  split
  · exact steady_pure _
  · refine (h.elements hlist scope).then fun values => ?_
    split
    · exact h.call _ _ _
    · exact (simple_raise anyPlace _ _).steady

theorem construct {callee : Expr} {list : List Element} (hcallee : callee.Keeps good)
    (hlist : KeepElements good list) (scope place : Nat) :
    Steady good (r.construct callee list scope place) := by
  refine steady_tick.then fun _ => (h.expression _ hcallee scope).then fun f => ?_
  refine (h.elements hlist scope).then fun values => ?_
  split
  · split
    · exact h.call _ _ _
    · exact (simple_raise anyPlace _ _).steady
  · exact (simple_raise anyPlace _ _).steady

theorem expressionStep {e : Expr} (he : e.Keeps good) (scope : Nat) :
    Steady good (r.expressionStep e scope) := by
  cases e with
  | boolean | null | number | string | this => exact steady_pure _
  | template span texts values => exact (h.templateFrom he scope texts).then fun _ => steady_pure _
  | name span name => exact (simple_readVariable anyPlace _ _).steady
  | paren span inner => exact h.expression inner he scope
  | await span inner => exact h.expression inner he scope
  | sequence span items => exact h.sequence he scope _
  | array span elements => exact (h.elements he scope).then fun _ => (simple_newArray _).steady
  | object span members => exact (h.members he scope _).then fun _ => (simple_newObject _).steady
  | function span name parameters body => exact steady_newFunction name scope he.1 he.2
  | unary span op operand => exact h.unary operand he op scope
  | binary span op left right =>
    refine (h.expression _ he.1 scope).then fun a => (h.expression _ he.2 scope).then fun b => ?_
    exact (simple_binaryValue anyPlace _ _ _).steady
  | logical span op left right =>
    refine (h.expression _ he.1 scope).then fun first => ?_
    split
    · exact steady_pure _
    · exact h.expression _ he.2 scope
  | conditional span test yes no =>
    refine (h.expression _ he.1 scope).then fun v => ?_
    split
    · exact h.expression _ he.2.1 scope
    · exact h.expression _ he.2.2 scope
  | assign span op target value => exact h.assign he.1 he.2 op scope span
  | update span increment first target => exact (h.addTo _ he _ scope _).then fun _ => steady_pure _
  | member span owner name nameSpan optional => exact h.member owner he _ _ _ _
  | index span owner key optional => exact h.index he.1 he.2 _ _
  | call span callee arguments optional => exact h.callExpression he.1 he.2 _ _ _
  | new span callee arguments => exact h.construct he.1 he.2 _ _
  | chain span inner =>
    have hinner : Steady good (r.expression inner scope) := h.expression inner he scope
    cases inner with
    | privateMember span => exact (simple_raise anyPlace _ _).steady
    | _ => exact hinner
  | privateMember span | unsupported span => exact (simple_raise anyPlace _ _).steady

end Runner.Reliable

end Stencil.Script
