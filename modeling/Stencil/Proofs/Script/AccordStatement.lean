import Stencil.Proofs.Script.AccordExpression

/-! # Executing in accord

What was said of expressions goes on to statements and to calls.  Functions are called with two
couplings, one for what is done before the function runs, and one that is a level deeper.
-/
namespace Stencil.Script

variable {D : Demand} {silent : Bool} {d : Nat}

theorem accord_hoist {s : Stmt} (hs : s.Meets D silent) (scope : Nat) :
    Accord D d (hoist scope s) (hoist scope s) := by
  cases s with
  | function name parameters body =>
    exact (accord_newFunction _ scope hs.1 hs.2).then fun f => (Simple.declare _ _ _ _).accord
  | «variables» kind declarators => exact (simple_hoist scope kind declarators).accord
  | _ => exact accord_pure _

namespace Runner.Coupled

variable {r : Runner} {run' : (task : Task) → Exec task.Result}
variable (h : r.Coupled D silent d run')

include h

/-! ## Lists of statements -/

theorem statements {list : List Stmt} (hlist : MeetStmts D silent list) (scope : Nat) :
    Accord D d (r.statements scope list) ((r.via run').statements scope list) := by
  induction list with
  | nil => exact accord_pure _
  | cons s rest ih =>
    refine (h.statement hlist.1 scope).then fun flow => ?_
    split
    · exact ih hlist.2
    · exact accord_pure _

theorem block {list : List Stmt} (hlist : MeetStmts D silent list) (scope : Nat) :
    Accord D d (r.block list scope) ((r.via run').block list scope) := by
  refine Accord.then (accord_forIn fun s hs => ?_) fun _ => h.statements hlist scope
  exact (accord_hoist (hlist.of_mem hs) scope).then fun _ => accord_pure _

theorem innerBlock {list : List Stmt} (hlist : MeetStmts D silent list) (scope : Nat) :
    Accord D d (r.innerBlock list scope) ((r.via run').innerBlock list scope) :=
  (Simple.child _ _).accord.then fun inner => h.block hlist inner

/-! ## Declarations -/

theorem declareAll {list : List Declarator} (hlist : MeetDeclarators D silent list)
    (kind : VariableKind) (scope target : Nat) :
    Accord D d (r.declareAll kind scope target list)
      ((r.via run').declareAll kind scope target list) := by
  induction list with
  | nil => exact accord_pure _
  | cons declarator rest ih =>
    obtain ⟨p, _ | e⟩ := declarator
    · have hbind : Accord D d (r.bind p .undefined target (kind = .const))
          ((r.via run').bind p .undefined target (kind = .const)) :=
        h.bind hlist.1 _ _ _
      simp only [Runner.declareAll]
      split
      · exact ih hlist.2
      · exact hbind.then fun _ => ih hlist.2
    · obtain ⟨hp, he, hrest⟩ := hlist
      refine (h.expression he scope).then fun v => ?_
      exact (h.bind hp _ _ _).then fun _ => ih hrest

/-! ## Loops -/

omit h in
theorem repeatFrom {round round' : Exec (Option Flow)} (hround : Accord D d round round')
    (n : Nat) : Accord D d (Runner.repeatFrom round n) (Runner.repeatFrom round' n) := by
  induction n with
  | zero => exact accord_exhausted
  | succ n ih =>
    refine hround.then fun result => ?_
    split
    · exact accord_pure _
    · exact ih

theorem forLoop {start body : Stmt} {test update : Option Expr} (hstart : start.Meets D silent)
    (htest : MeetOption D silent test) (hupdate : MeetOption D silent update)
    (hbody : body.Meets D silent) (scope : Nat) :
    Accord D d (r.forLoop start test update body scope)
      ((r.via run').forLoop start test update body scope) := by
  refine (Simple.child _ _).accord.then fun inner => (h.statement hstart inner).then fun _ => ?_
  refine repeatFrom (accord_tick.then fun _ => ?_) _
  cases test
  case' none => refine (accord_pure _).then fun goesOn => ?_
  case' some e => refine ((h.expression htest inner).map _).then fun goesOn => ?_
  all_goals
    cases goesOn with
    | false => exact accord_pure _
    | true =>
      refine (h.statement hbody inner).then fun flow => ?_
      split
      · exact accord_pure _
      · cases update with
        | none => exact accord_pure _
        | some e => exact (h.expression hupdate inner).then fun _ => accord_pure _

theorem bindItem {target : Target} (htarget : target.Meets D silent) (item : Value)
    (outer inner : Nat) :
    Accord D d (r.bindItem target item outer inner)
      ((r.via run').bindItem target item outer inner) := by
  cases target with
  | «variable» kind p =>
    exact (simple_targetScope kind inner).accord.then fun _ => h.bind htarget _ _ _
  | name span name => exact (simple_assignVariable (Demand.place_start htarget) _ _ _).accord
  | member owner name nameSpan => exact (simple_raise htarget.2.place _ _).accord
  | index span owner key => exact (simple_raise (Demand.place_start htarget.1) _ _).accord
  | unsupported span => exact (simple_raise (Demand.place_start htarget) _ _).accord

theorem forItems {target : Target} {body : Stmt} (htarget : target.Meets D silent)
    (hbody : body.Meets D silent) (scope : Nat) (items : List Value) :
    Accord D d (r.forItems target body scope items)
      ((r.via run').forItems target body scope items) := by
  induction items with
  | nil => exact accord_pure _
  | cons item rest ih =>
    refine accord_tick.then fun _ => (Simple.child _ _).accord.then fun inner => ?_
    refine (h.bindItem htarget _ _ _).then fun _ => (h.statement hbody inner).then fun flow => ?_
    split
    · exact accord_pure _
    · exact ih

theorem forEach {target : Target} {collection : Expr} {body : Stmt}
    (htarget : target.Meets D silent) (hcollection : collection.Meets D silent)
    (hbody : body.Meets D silent) (traversal : Traversal) (scope : Nat) :
    Accord D d (r.forEach traversal target collection body scope)
      ((r.via run').forEach traversal target collection body scope) := by
  refine (h.expression hcollection scope).then fun v => ?_
  cases traversal with
  | values =>
    exact (simple_iterate (Demand.place_start hcollection.span) _ _).accord.then fun items =>
      h.forItems htarget hbody scope items
  | keys =>
    exact ((simple_keysOf v).accord.map _).then fun items => h.forItems htarget hbody scope items

theorem whileLoop {test : Expr} {body : Stmt} (htest : test.Meets D silent)
    (hbody : body.Meets D silent) (scope : Nat) :
    Accord D d (r.whileLoop test body scope) ((r.via run').whileLoop test body scope) := by
  refine repeatFrom (accord_tick.then fun _ => (h.expression htest scope).then fun v => ?_) _
  split
  · exact (h.statement hbody scope).then fun _ => accord_pure _
  · exact accord_pure _

theorem doLoop {test : Expr} {body : Stmt} (htest : test.Meets D silent)
    (hbody : body.Meets D silent) (scope : Nat) :
    Accord D d (r.doLoop body test scope) ((r.via run').doLoop body test scope) := by
  refine repeatFrom (accord_tick.then fun _ => (h.statement hbody scope).then fun flow => ?_) _
  split
  · exact accord_pure _
  · refine (h.expression htest scope).then fun v => ?_
    split <;> exact accord_pure _

/-! ## Attempts -/

theorem tryCatch {list handler : List Stmt} {parameter : Pattern}
    (hlist : MeetStmts D silent list) (hparameter : parameter.Meets D silent)
    (hhandler : MeetStmts D silent handler) (scope : Nat) :
    Accord D d (r.tryCatch list parameter handler scope)
      ((r.via run').tryCatch list parameter handler scope) := by
  refine (h.innerBlock hlist scope).catch fun why hwhy => ?_
  cases why with
  | throw v place =>
    refine (Simple.child _ _).accord.then fun inner => ?_
    exact (h.bind hparameter _ _ _).then fun _ => h.block hhandler inner
  | timeout => exact inAccord_throw .timeout hwhy
  | exhausted => exact inAccord_throw .exhausted hwhy

theorem tryFinally {body : Stmt} {finalizer : List Stmt} (hbody : body.Meets D silent)
    (hfinalizer : MeetStmts D silent finalizer) (scope : Nat) :
    Accord D d (r.tryFinally body finalizer scope)
      ((r.via run').tryFinally body finalizer scope) := by
  refine (h.statement hbody scope).attempt (fun flow => ?_) fun why hwhy => ?_
  · refine (h.innerBlock hfinalizer scope).then fun flow => ?_
    split <;> exact accord_pure _
  · refine (h.innerBlock hfinalizer scope).then fun flow => ?_
    split
    · exact inAccord_throw why hwhy
    · exact accord_pure _

/-! ## Selections -/

theorem matching {list : List Case} (hlist : MeetCases D silent list) (v : Value) (scope : Nat) :
    InAccord D d (r.matching v scope list) ((r.via run').matching v scope list)
      fun found => ∀ rest ∈ found, MeetCases D silent rest := by
  induction list with
  | nil => exact .pure fun _ hrest => by cases hrest
  | cons c rest ih =>
    obtain ⟨_ | e, body⟩ := c
    · exact ih hlist.2
    · refine InAccord.then (h.expression hlist.1 scope) fun value => ?_
      split
      · refine .pure fun _ hrest => ?_
        cases hrest
        exact hlist
      · exact ih hlist.2.2

theorem cases {list : List Case} (hlist : MeetCases D silent list) (scope : Nat) :
    Accord D d (r.cases scope list) ((r.via run').cases scope list) := by
  induction list with
  | nil => exact accord_pure _
  | cons c rest ih =>
    have hbody : MeetStmts D silent c.2 ∧ MeetCases D silent rest := by
      obtain ⟨_ | e, body⟩ := c
      · exact hlist
      · exact hlist.2
    obtain ⟨test, body⟩ := c
    refine (h.statements hbody.1 scope).then fun flow => ?_
    split
    · exact ih hbody.2
    · exact accord_pure _
    · exact accord_pure _

theorem select {e : Expr} {list : List Case} (he : e.Meets D silent)
    (hlist : MeetCases D silent list) (scope : Nat) :
    Accord D d (r.select e list scope) ((r.via run').select e list scope) := by
  refine (h.expression he scope).then fun v => (Simple.child _ _).accord.then fun inner => ?_
  refine (h.matching hlist v inner).bind fun found hfound => ?_
  split
  · exact h.cases (hfound _ rfl) inner
  · exact h.cases (hlist.dropWhile _) inner

/-- One step of executing a statement. -/
theorem statementStep {s : Stmt} (hs : s.Meets D silent) (scope : Nat) :
    Accord D d (r.statementStep s scope) ((r.via run').statementStep s scope) := by
  cases s with
  | empty | function | «break» | «continue» => exact accord_pure _
  | expression e => exact (h.expression hs scope).then fun _ => accord_pure _
  | «variables» kind list =>
    refine (simple_targetScope kind scope).accord.then fun target => ?_
    exact (h.declareAll hs kind scope target).then fun _ => accord_pure _
  | block list => exact h.innerBlock hs scope
  | branch test yes no =>
    refine (h.expression hs.1 scope).then fun v => ?_
    split
    · exact h.statement hs.2.1 scope
    · exact h.statement hs.2.2 scope
  | forLoop start test update body => exact h.forLoop hs.1 hs.2.1 hs.2.2.1 hs.2.2.2 scope
  | forEach traversal target collection body =>
    exact h.forEach hs.1 hs.2.1 hs.2.2 traversal scope
  | whileLoop test body => exact h.whileLoop hs.1 hs.2 scope
  | doLoop body test => exact h.doLoop hs.1 hs.2 scope
  | «return» value =>
    cases value with
    | none => exact accord_pure _
    | some e => exact (h.expression hs scope).then fun _ => accord_pure _
  | throw e =>
    exact (h.expression hs scope).then fun v =>
      inAccord_throw (.throw v e.span.start) (Expr.Meets.place hs)
  | tryCatch list parameter handler => exact h.tryCatch hs.1 hs.2.1 hs.2.2 scope
  | tryFinally body finalizer => exact h.tryFinally hs.1 hs.2 scope
  | select e list => exact h.select hs.1 hs.2 scope
  | unsupported span => exact (simple_raise (Demand.place_start hs) _ _).accord

/-! ## Functions of the script -/

theorem bindParameters {list : List Pattern} (hlist : MeetPatterns D silent list) (scope : Nat)
    (values : List Value) :
    Accord D d (r.bindParameters scope list values)
      ((r.via run').bindParameters scope list values) := by
  induction list generalizing values with
  | nil => exact accord_pure _
  | cons p rest ih => exact (h.bind hlist.1 _ _ _).then fun _ => ih hlist.2 _

end Runner.Coupled

/-! ## Calls -/

/-- Calls a function of the script, with one runner for its parameters and one for its body. -/
def Runner.enter (binder inner : Runner) (closure : Closure) (values : List Value) (place : Nat) :
    Exec Value := do
  if maxDepth ≤ (← get).depth then
    raise .rangeError "Maximum call stack size exceeded" place
  let scope ← newScope closure.scope true
  binder.bindParameters scope closure.parameters values
  match ← deeper (inner.block closure.body scope) with
  | .return v => return v
  | _ => return .undefined

/-- One step of a task, with another way of calling the functions of the script. -/
def Runner.stepWith (r : Runner) (call : Closure → List Value → Nat → Exec Value) :
    (task : Task) → Exec task.Result
  | .call (.function f _) values place => do
    call ((← get).closures.getD f default) values place
  | task => r.step task

variable {r : Runner} {run' : (task : Task) → Exec task.Result}

theorem Runner.stepWith_callClosure (task : Task) :
    r.stepWith r.callClosure task = r.step task := by
  unfold Runner.stepWith
  split <;> rfl

/-- A function is called in accord if its parameters are bound so, and a level deeper its body is
executed so.  Where no more functions are entered nothing is asked of the body. -/
theorem accord_enter {binder inner : (task : Task) → Exec task.Result}
    (hbinder : r.Coupled D D.silent d binder)
    (hinner : d < maxDepth → r.Coupled D false (d + 1) inner) {closure : Closure}
    (hclosure : closure.Meets D) (values : List Value) {place : Nat} (hplace : D.place place) :
    Accord D d (r.callClosure closure values place)
      (Runner.enter (r.via binder) (r.via inner) closure values place) := by
  refine InAccord.get fun m hm => ?_
  rw [hm.depth]
  split
  case isTrue => exact InAccord.bind (inAccord_raise hplace _ _) fun _ h => h.elim
  case isFalse hroom =>
    refine (Simple.child _ _).accord.then fun scope => ?_
    refine (hbinder.bindParameters hclosure.parameters scope values).then fun _ => ?_
    refine (Accord.deeper ((hinner (by omega)).block hclosure.body scope)).then fun flow => ?_
    cases flow <;> exact accord_pure _

/-- **One step of any task is in accord** if runners for what it refers to are, and the calls of
functions. -/
theorem Runner.Coupled.step (h : r.Coupled D silent d run')
    {call : Closure → List Value → Nat → Exec Value}
    (hcall : silent = false → ∀ closure values place, closure.Meets D → D.place place →
      Accord D d (r.callClosure closure values place) (call closure values place))
    {task : Task} (htask : task.Meets D silent) :
    Accord D d (r.step task) ((r.via run').stepWith call task) := by
  cases task with
  | expression e scope => exact h.expressionStep htask scope
  | statement s scope => exact h.statementStep htask scope
  | bind p value scope constant => exact h.bindStep htask value scope constant
  | call callee values place =>
    obtain ⟨rfl, hplace⟩ := htask
    cases callee with
    | function f name =>
      exact InAccord.get fun m hm => hcall rfl _ _ _ (hm.meets f) hplace
    | native f => exact (simple_callNative trivial _ _).accord
    | method receiver m => exact h.callMethod hplace _ _ _
    | _ => exact (simple_textOf _).accord.then fun _ => (simple_raise hplace _ _).accord

/-! ## Whole runs -/

/-- The whole of a program as a step, with some way of doing tasks. -/
def execWith (source : List Char) (bound : Nat) (run : (task : Task) → Exec task.Result)
    (globals : Globals) (program : Program) : Exec Unit := do
  install globals
  let _ ← (Runner.mk source bound run).block program Scopes.globalPlace

/-- A machine that has not begun runs no functions, and keeps none. -/
theorem Machine.at_start (clock : Clock) : (Machine.start clock).At D 0 :=
  ⟨Machine.meets_start clock, rfl⟩

theorem accord_execWith {source : List Char} {bound : Nat} {run : (task : Task) → Exec task.Result}
    (h : (Runner.mk source bound run).Coupled D silent d run') (globals : Globals)
    {program : Program} (hprogram : MeetStmts D silent program) :
    Accord D d (execWith source bound run globals program)
      (execWith source bound run' globals program) :=
  (simple_install globals).accord.then fun _ => (h.block hprogram _).then fun _ => accord_pure _

end Stencil.Script
