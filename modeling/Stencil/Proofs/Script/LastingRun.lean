import Stencil.Proofs.Script.Lasting
import Stencil.Proofs.Script.Writing

/-! # What lasts in statements and calls

The relations that no single change breaks are followed by the steps of statements and of calls as
well, and then, by induction on the depth, by every task of a run.
-/
namespace Stencil.Script

variable {R : Machine → Option Abort → Machine → Prop} [Lasting R]

theorem follows_hoist (scope : Nat) (s : Stmt) : Follows R (hoist scope s) := by
  cases s with
  | function name parameters body =>
    exact (follows_newFunction _ _).bind fun f => (Simple.declare _ _ _ _).follows
  | «variables» kind declarators => exact (simple_hoist scope kind declarators).follows
  | _ => exact follows_pure _

theorem follows_hoistAll (scope : Nat) (list : List Stmt) :
    Follows R (forIn list PUnit.unit fun s _ => do
      hoist scope s
      pure (ForInStep.yield PUnit.unit)) :=
  follows_forIn fun s => (follows_hoist scope s).bind fun _ => follows_pure _

namespace Runner.Lasts

variable {r : Runner} (h : r.Lasts R)

include h

/-! ## Lists of statements -/

theorem statements (scope : Nat) (list : List Stmt) : Follows R (r.statements scope list) := by
  induction list with
  | nil => exact follows_pure _
  | cons s rest ih =>
    refine (h.statement s scope).bind fun flow => ?_
    split
    · exact ih
    · exact follows_pure _

theorem block (list : List Stmt) (scope : Nat) : Follows R (r.block list scope) :=
  (follows_hoistAll scope list).bind fun _ => h.statements scope list

theorem innerBlock (list : List Stmt) (scope : Nat) : Follows R (r.innerBlock list scope) :=
  (Simple.child _ _).follows.bind fun inner => h.block list inner

/-! ## Declarations -/

theorem declareAll (kind : VariableKind) (scope target : Nat) (list : List Declarator) :
    Follows R (r.declareAll kind scope target list) := by
  induction list with
  | nil => exact follows_pure _
  | cons d rest ih =>
    obtain ⟨p, _ | e⟩ := d
    · have hbind : Follows R (r.bind p .undefined target (kind = .const)) := h.bind p _ _ _
      simp only [Runner.declareAll]
      split
      · exact ih
      · exact hbind.bind fun _ => ih
    · exact (h.expression e scope).bind fun v => (h.bind p _ _ _).bind fun _ => ih

/-! ## Loops -/

omit h in
theorem repeatFrom {round : Exec (Option Flow)} (hround : Follows R round) (n : Nat) :
    Follows R (Runner.repeatFrom round n) := by
  induction n with
  | zero => exact follows_exhausted
  | succ n ih =>
    refine hround.bind fun result => ?_
    split
    · exact follows_pure _
    · exact ih

theorem forLoop (start : Stmt) (test update : Option Expr) (body : Stmt) (scope : Nat) :
    Follows R (r.forLoop start test update body scope) := by
  refine (Simple.child _ _).follows.bind fun inner => (h.statement start inner).bind fun _ => ?_
  refine repeatFrom (follows_tick.bind fun _ => ?_) _
  cases test
  case' none => refine (follows_pure _).bind fun goesOn => ?_
  case' some e => refine ((h.expression e inner).map _).bind fun goesOn => ?_
  all_goals
    cases goesOn with
    | false => exact follows_pure _
    | true =>
      refine (h.statement body inner).bind fun flow => ?_
      split
      · exact follows_pure _
      · cases update with
        | none => exact follows_pure _
        | some e => exact (h.expression e inner).bind fun _ => follows_pure _

theorem bindItem (target : Target) (item : Value) (outer inner : Nat) :
    Follows R (r.bindItem target item outer inner) := by
  cases target with
  | «variable» kind p => exact (simple_targetScope kind inner).follows.bind fun _ => h.bind p _ _ _
  | name span name => exact (simple_assignVariable anyPlace _ _ _).follows
  | _ => exact (simple_raise anyPlace _ _).follows

theorem forItems (target : Target) (body : Stmt) (scope : Nat) (items : List Value) :
    Follows R (r.forItems target body scope items) := by
  induction items with
  | nil => exact follows_pure _
  | cons item rest ih =>
    refine follows_tick.bind fun _ => (Simple.child _ _).follows.bind fun inner => ?_
    refine (h.bindItem target _ _ _).bind fun _ => (h.statement body inner).bind fun flow => ?_
    split
    · exact follows_pure _
    · exact ih

theorem forEach (traversal : Traversal) (target : Target) (collection : Expr) (body : Stmt)
    (scope : Nat) : Follows R (r.forEach traversal target collection body scope) := by
  refine (h.expression collection scope).bind fun v => ?_
  cases traversal with
  | values =>
    exact (simple_iterate anyPlace _ _).follows.bind fun items => h.forItems target body scope items
  | keys =>
    exact ((simple_keysOf v).follows.map _).bind fun items => h.forItems target body scope items

theorem whileLoop (test : Expr) (body : Stmt) (scope : Nat) :
    Follows R (r.whileLoop test body scope) := by
  refine repeatFrom (follows_tick.bind fun _ => (h.expression test scope).bind fun v => ?_) _
  split
  · exact (h.statement body scope).bind fun _ => follows_pure _
  · exact follows_pure _

theorem doLoop (body : Stmt) (test : Expr) (scope : Nat) :
    Follows R (r.doLoop body test scope) := by
  refine repeatFrom (follows_tick.bind fun _ => (h.statement body scope).bind fun flow => ?_) _
  split
  · exact follows_pure _
  · refine (h.expression test scope).bind fun v => ?_
    split <;> exact follows_pure _

/-! ## Attempts and selections -/

theorem tryCatch (list : List Stmt) (parameter : Pattern) (handler : List Stmt) (scope : Nat) :
    Follows R (r.tryCatch list parameter handler scope) := by
  refine (h.innerBlock list scope).tryCatch fun why => ?_
  cases why with
  | throw v place =>
    refine Follows.stop ((Simple.child _ _).follows.bind fun inner => ?_) _
    exact (h.bind parameter _ _ _).bind fun _ => h.block handler inner
  | timeout | exhausted => exact followsStop_throw _

theorem tryFinally (body : Stmt) (finalizer : List Stmt) (scope : Nat) :
    Follows R (r.tryFinally body finalizer scope) := by
  have hfinalizer := h.innerBlock finalizer scope
  refine (h.statement body scope).attempt (fun flow => ?_) fun why => ?_
  · refine hfinalizer.bind fun flow' => ?_
    split <;> exact follows_pure _
  · refine hfinalizer.bindStop fun flow' => ?_
    split
    · exact followsStop_throw why
    · exact (follows_pure _).stop why

theorem matching (v : Value) (scope : Nat) (list : List Case) :
    Follows R (r.matching v scope list) := by
  induction list with
  | nil => exact follows_pure _
  | cons c rest ih =>
    obtain ⟨_ | e, body⟩ := c
    · exact ih
    · refine (h.expression e scope).bind fun value => ?_
      split
      · exact follows_pure _
      · exact ih

theorem cases (scope : Nat) (list : List Case) : Follows R (r.cases scope list) := by
  induction list with
  | nil => exact follows_pure _
  | cons c rest ih =>
    obtain ⟨test, body⟩ := c
    refine (h.statements scope body).bind fun flow => ?_
    split
    · exact ih
    · exact follows_pure _
    · exact follows_pure _

theorem select (e : Expr) (list : List Case) (scope : Nat) :
    Follows R (r.select e list scope) := by
  refine (h.expression e scope).bind fun v => (Simple.child _ _).follows.bind fun inner => ?_
  refine (h.matching v inner list).bind fun found => ?_
  split
  · exact h.cases inner _
  · exact h.cases inner _

theorem statementStep (s : Stmt) (scope : Nat) : Follows R (r.statementStep s scope) := by
  cases s with
  | empty | function | «break» | «continue» => exact follows_pure _
  | expression e => exact (h.expression e scope).bind fun _ => follows_pure _
  | «variables» kind list =>
    exact (simple_targetScope kind scope).follows.bind fun target =>
      (h.declareAll kind scope target list).bind fun _ => follows_pure _
  | block list => exact h.innerBlock list scope
  | branch test yes no =>
    refine (h.expression test scope).bind fun v => ?_
    split
    · exact h.statement yes scope
    · exact h.statement no scope
  | forLoop start test update body => exact h.forLoop start test update body scope
  | forEach traversal target collection body =>
    exact h.forEach traversal target collection body scope
  | whileLoop test body => exact h.whileLoop test body scope
  | doLoop body test => exact h.doLoop body test scope
  | «return» value =>
    cases value with
    | none => exact follows_pure _
    | some e => exact (h.expression e scope).bind fun _ => follows_pure _
  | throw e => exact (h.expression e scope).bind fun v => follows_throw v _
  | tryCatch list parameter handler => exact h.tryCatch list parameter handler scope
  | tryFinally body finalizer => exact h.tryFinally body finalizer scope
  | select e list => exact h.select e list scope
  | unsupported span => exact (simple_raise anyPlace _ _).follows

/-! ## Functions of the script -/

theorem bindParameters (scope : Nat) (list : List Pattern) (values : List Value) :
    Follows R (r.bindParameters scope list values) := by
  induction list generalizing values with
  | nil => exact follows_pure _
  | cons p rest ih => exact (h.bind p _ _ _).bind fun _ => ih _

omit h in
theorem deeper {α : Type} {step : Exec α} (hstep : Follows R step) :
    Follows R (Runner.deeper step) := by
  have hdepth : ∀ change : Nat → Nat, Follows R
      (modify fun m : Machine => { m with depth := change m.depth }) :=
    fun _ => follows_modify fun m => Lasting.depth m _
  refine (hdepth (· + 1)).bind fun _ => hstep.attempt (fun a => ?_) fun why => ?_
  · exact (hdepth (· - 1)).bind fun _ => follows_pure a
  · exact (hdepth (· - 1)).bindStop fun _ => followsStop_throw why

theorem callClosure (closure : Closure) (values : List Value) (place : Nat) :
    Follows R (r.callClosure closure values place) := by
  refine Follows.get fun m => ?_
  split
  case' isTrue => refine (simple_raise anyPlace _ _).follows.bind fun _ => ?_
  all_goals
    refine (Simple.child _ _).follows.bind fun scope => ?_
    refine (h.bindParameters scope closure.parameters values).bind fun _ => ?_
    refine (deeper (h.block closure.body scope)).bind fun flow => ?_
    split <;> exact follows_pure _

theorem callStep (callee : Value) (values : List Value) (place : Nat) :
    Follows R (r.callStep callee values place) := by
  unfold Runner.callStep
  split
  · exact Follows.get fun m => h.callClosure _ values place
  · exact (simple_callNative trivial _ _).follows
  · exact h.callMethod _ _ _ _
  · exact (simple_textOf _).follows.bind fun _ => (simple_raise anyPlace _ _).follows

/-- One step of any task. -/
theorem step (task : Task) : Follows R (r.step task) := by
  cases task with
  | expression e scope => exact h.expressionStep e scope
  | statement s scope => exact h.statementStep s scope
  | bind p value scope constant => exact h.bindStep p value scope constant
  | call callee values place => exact h.callStep callee values place

end Runner.Lasts

/-! ## Runs -/

/-- **What no single change breaks lasts through every task.** -/
theorem Runner.lasts_deep (source : List Char) (bound depth : Nat) :
    (deep source bound depth).Lasts R := by
  induction depth with
  | zero => exact fun task => follows_exhausted
  | succ depth ih => exact ih.step

theorem follows_execProgram (source : List Char) (bound : Nat) (globals : Globals)
    (program : Program) : Follows R (execProgram source bound globals program) :=
  (simple_install globals).follows.bind fun _ =>
    ((Runner.lasts_deep source bound bound).block program _).bind fun _ => follows_pure _

end Stencil.Script
