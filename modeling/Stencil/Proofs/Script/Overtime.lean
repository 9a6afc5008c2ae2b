import Stencil.Proofs.Script.Nested
import Stencil.Proofs.Script.Tally

/-! # What a run does out of time

Each form of expressions, patterns and statements takes at most one task for each of its parts that
can be reached: it looks at the clock in front of every call and every round of a loop, finalizers
and handlers are executed once, and all else goes on to smaller parts.  So out of time evaluation
comes to an end, whatever room there is, and no function of the script is entered.
-/
namespace Stencil.Script

/-- A runner, and one that makes strokes: out of time their tasks are late by no more than can be
reached, if there is room for it. -/
structure Runner.Overtime (room : Nat) (r r' : Runner) : Prop where
  source : r'.source = r.source
  rounds : r.bound ≠ 0
  rounds' : r'.bound ≠ 0
  expression (e : Expr) (scope : Nat) :
    LateBy room e.reach (r.expression e scope) (r'.expression e scope)
  statement (s : Stmt) (scope : Nat) :
    LateBy room s.reach (r.statement s scope) (r'.statement s scope)
  bind (p : Pattern) (value : Value) (scope : Nat) (constant : Bool) :
    LateBy room p.reach (r.bind p value scope constant) (r'.bind p value scope constant)

namespace Runner.Overtime

variable {room : Nat} {r r' : Runner} (h : r.Overtime room r')

include h

/-! ## Expressions -/

theorem textOf (e : Expr) (scope : Nat) :
    LateBy room e.reach (r.textOf e scope) (r'.textOf e scope) :=
  (h.expression e scope).last fun v => (simple_textOf v).quiet

theorem elements (scope : Nat) (list : List Element) :
    LateBy room (reachElements list) (r.elements scope list) (r'.elements scope list) := by
  induction list with
  | nil => exact (quiet_pure _).lateBy
  | cons element rest ih =>
    cases element with
    | item e => exact (h.expression e scope).bind fun v => ih.last fun _ => quiet_pure _
    | spread span e =>
      refine (h.expression e scope).bind fun v => ?_
      rw [h.source]
      exact (simple_iterate anyPlace _ _).quiet.then fun items => ih.last fun _ => quiet_pure _
    | hole => exact ih.last fun _ => quiet_pure _

theorem templateFrom (scope : Nat) (texts : List String) (list : List Expr) :
    LateBy room (reachExprs list) (r.templateFrom scope texts list)
      (r'.templateFrom scope texts list) := by
  induction list generalizing texts with
  | nil => cases texts <;> exact (quiet_pure _).lateBy
  | cons e rest ih =>
    cases texts with
    | nil => exact (quiet_pure _).lateBy.mono (Nat.zero_le _)
    | cons text texts =>
      exact (h.textOf e scope).bind fun _ => (ih texts).last fun _ => quiet_pure _

theorem members (scope : Nat) (fields : Fields) (list : List Member) :
    LateBy room (reachMembers list) (r.members scope fields list)
      (r'.members scope fields list) := by
  induction list generalizing fields with
  | nil => exact (quiet_pure _).lateBy
  | cons member rest ih =>
    cases member with
    | field key value =>
      exact (h.textOf key scope).bind fun _ => (h.expression value scope).bind fun _ => ih _
    | spread span e =>
      exact (h.expression e scope).bind fun _ => (simple_spreadFields _ _).quiet.then fun _ => ih _

theorem sequence (scope : Nat) (last : Value) (list : List Expr) :
    LateBy room (reachExprs list) (r.sequence scope last list) (r'.sequence scope last list) := by
  induction list generalizing last with
  | nil => exact (quiet_pure _).lateBy
  | cons e rest ih => exact (h.expression e scope).bind fun _ => ih _

theorem unary (op : UnaryOp) (operand : Expr) (scope : Nat) :
    LateBy room operand.reach (r.unary op operand scope) (r'.unary op operand scope) := by
  unfold Runner.unary
  split
  case h_1 => exact (Quiet.lateBy (by simp)).mono (Nat.zero_le _)
  case h_2 owner _ _ _ =>
    refine LateBy.mono ((h.expression owner scope).last fun v => ?_) (Nat.le_succ _)
    exact (simple_eraseMember _ _).quiet.bind fun _ => quiet_pure _
  case h_3 owner key _ =>
    refine LateBy.mono ?_ (Nat.le_succ _)
    refine (h.expression owner scope).bind fun v => (h.textOf key scope).last fun name => ?_
    exact (simple_eraseMember _ _).quiet.bind fun _ => quiet_pure _
  case h_4 => exact (quiet_pure _).lateBy.mono (Nat.zero_le _)
  case h_5 => exact (h.expression operand scope).last fun _ => (simple_unaryValue _ _).quiet

theorem combine (op : AssignOp) (current : Value) (e : Expr) (scope place : Nat) :
    LateBy room e.reach (r.combine op current e scope place)
      (r'.combine op current e scope place) := by
  cases op with
  | plain => exact (h.expression e scope).last fun _ => quiet_pure _
  | compound op =>
    exact (h.expression e scope).last fun _ =>
      (simple_binaryValue anyPlace _ _ _).quiet.bind fun _ => quiet_pure _
  | logical op =>
    simp only [Runner.combine]
    split
    · exact (quiet_pure _).lateBy.mono (Nat.zero_le _)
    · exact (h.expression e scope).last fun _ => quiet_pure _

/-- An assignment, once the value that its target has is known. -/
theorem store (op : AssignOp) (current : Value) (e : Expr) (scope place : Nat)
    {set : Value → Exec Unit} (hset : ∀ v, Quiet (set v)) :
    LateBy room e.reach
      (do
        let (value, stored) ← r.combine op current e scope place
        if stored then set value
        return value)
      (do
        let (value, stored) ← r'.combine op current e scope place
        if stored then set value
        return value) := by
  refine (h.combine op current e scope place).last fun result => ?_
  obtain ⟨value, stored⟩ := result
  simp [hset]

theorem assignMember (owner : Value) (key : String) (op : AssignOp) (e : Expr)
    (scope place : Nat) :
    LateBy room e.reach (r.assignMember owner key op e scope place)
      (r'.assignMember owner key op e scope place) := by
  have hplace : AnyPlace place := anyPlace
  have hstore current := h.store op current e scope place fun v =>
    (simple_setMember hplace owner key v).quiet
  unfold Runner.assignMember
  split
  · exact (quiet_pure _).then hstore
  · exact (simple_getMember anyPlace _ _).quiet.then hstore

theorem assign (op : AssignOp) (target : Target) (e : Expr) (scope : Nat) (span : Span) :
    LateBy room (target.reach + e.reach) (r.assign op target e scope span)
      (r'.assign op target e scope span) := by
  cases target with
  | name nameSpan name =>
    have hplace : AnyPlace nameSpan.start := anyPlace
    have hstore current := h.store op current e scope span.start fun v =>
      (simple_assignVariable hplace scope name v).quiet
    refine LateBy.mono ?_ (Nat.le_add_left _ _)
    simp only [Runner.assign]
    split
    · exact (quiet_pure _).then hstore
    · exact (simple_readVariable anyPlace _ _).quiet.then hstore
  | member owner name nameSpan =>
    exact (h.expression owner scope).bind fun _ => h.assignMember _ _ _ _ _ _
  | index span owner key =>
    refine LateBy.mono ?_ (Nat.le_of_eq (Nat.add_assoc _ _ _).symm)
    exact (h.expression owner scope).bind fun _ =>
      (h.textOf key scope).bind fun _ => h.assignMember _ _ _ _ _ _
  | _ => exact (simple_raise anyPlace _ _).quiet.lateBy.mono (Nat.zero_le _)

theorem addTo (step : Float) (target : Target) (scope place : Nat) :
    LateBy room target.reach (r.addTo step target scope place)
      (r'.addTo step target scope place) := by
  cases target with
  | name span name =>
    refine Quiet.lateBy ((simple_readVariable anyPlace _ _).quiet.bind fun v => ?_)
    refine (simple_numberOf v).quiet.bind fun old => ?_
    exact (simple_assignVariable anyPlace _ _ _).quiet.bind fun _ => quiet_pure _
  | member owner name nameSpan =>
    refine (h.expression owner scope).last fun owner => ?_
    refine (simple_getMember anyPlace _ _).quiet.bind fun v => ?_
    refine (simple_numberOf v).quiet.bind fun old => ?_
    exact (simple_setMember anyPlace _ _ _).quiet.bind fun _ => quiet_pure _
  | index span owner key =>
    refine (h.expression owner scope).bind fun owner => (h.textOf key scope).last fun name => ?_
    refine (simple_getMember anyPlace _ _).quiet.bind fun v => ?_
    refine (simple_numberOf v).quiet.bind fun old => ?_
    exact (simple_setMember anyPlace _ _ _).quiet.bind fun _ => quiet_pure _
  | _ => exact (simple_raise anyPlace _ _).quiet.lateBy

theorem member (owner : Expr) (name : String) (nameSpan : Span) (optional : Bool) (scope : Nat) :
    LateBy room owner.reach (r.member owner name nameSpan optional scope)
      (r'.member owner name nameSpan optional scope) := by
  refine (h.expression owner scope).last fun owner => ?_
  split
  · exact quiet_pure _
  · exact (simple_getMember anyPlace _ _).quiet

theorem index (owner key : Expr) (optional : Bool) (scope : Nat) :
    LateBy room (owner.reach + key.reach) (r.index owner key optional scope)
      (r'.index owner key optional scope) := by
  refine (h.expression owner scope).bind fun owner => ?_
  split
  · exact (quiet_pure _).lateBy.mono (Nat.zero_le _)
  · exact (h.textOf key scope).last fun _ => (simple_getMember anyPlace _ _).quiet

/-- A step of an expression takes its parts that can be reached, besides the task that it is. -/
theorem expressionStep (e : Expr) (scope : Nat) :
    LateBy room (e.reach - 1) (r.expressionStep e scope) (r'.expressionStep e scope) := by
  cases e with
  | boolean | null | number | string | this => exact (quiet_pure _).lateBy
  | template span texts values =>
    exact (h.templateFrom scope texts values).last fun _ => quiet_pure _
  | name span name => exact (simple_readVariable anyPlace _ _).quiet.lateBy
  | paren span inner => exact h.expression inner scope
  | await span inner => exact h.expression inner scope
  | sequence span items => exact h.sequence scope _ items
  | array span elements => exact (h.elements scope elements).last fun _ => (simple_newArray _).quiet
  | object span members =>
    exact (h.members scope _ members).last fun _ => (simple_newObject _).quiet
  | function span name parameters body => exact (quiet_newFunction name _).lateBy
  | unary span op operand => exact h.unary op operand scope
  | binary span op left right =>
    refine (h.expression left scope).bind fun a => (h.expression right scope).last fun b => ?_
    exact (simple_binaryValue anyPlace _ _ _).quiet
  | logical span op left right =>
    refine (h.expression left scope).bind fun first => ?_
    split
    · exact (quiet_pure _).lateBy.mono (Nat.zero_le _)
    · exact h.expression right scope
  | conditional span test yes no =>
    refine (h.expression test scope).bind fun v => ?_
    split
    · exact (h.expression yes scope).mono (Nat.le_add_right _ _)
    · exact (h.expression no scope).mono (Nat.le_add_left _ _)
  | assign span op target value => exact h.assign op target value scope span
  | update span increment first target =>
    exact (h.addTo _ target scope _).last fun _ => quiet_pure _
  | member span owner name nameSpan optional => exact h.member owner _ _ _ _
  | index span owner key optional => exact h.index owner key _ _
  | call span callee arguments optional => exact lateBy_tick
  | new span callee arguments => exact lateBy_tick
  | chain span inner =>
    have hinner := h.expression inner scope
    cases inner with
    | privateMember span => exact (simple_raise anyPlace _ _).quiet.lateBy.mono (Nat.zero_le _)
    | _ => exact hinner
  | privateMember span | unsupported span => exact (simple_raise anyPlace _ _).quiet.lateBy

/-! ## Patterns -/

theorem bindFields (value : Value) (scope : Nat) (constant : Bool) (place : Nat)
    (list : List PatternField) :
    LateBy room (reachFields list) (r.bindFields value scope constant place list)
      (r'.bindFields value scope constant place list) := by
  induction list with
  | nil => exact (quiet_pure _).lateBy
  | cons field rest ih =>
    obtain ⟨key, p⟩ := field
    refine (h.textOf key scope).bind fun name => ?_
    refine (simple_getMember anyPlace _ _).quiet.then fun part => ?_
    exact (h.bind p part scope constant).bind fun _ => ih.last fun _ => quiet_pure _

theorem bindRest (rest : Pattern) (value : Value) (used : List String) (scope : Nat)
    (constant : Bool) :
    LateBy room rest.reach (r.bindRest rest value used scope constant)
      (r'.bindRest rest value used scope constant) := by
  refine (simple_keysOf value).quiet.then fun keys => LateBy.get (fun _ _ => by simp) fun m => ?_
  exact (simple_newObject _).quiet.then fun _ => h.bind rest _ _ _

theorem bindElements (scope : Nat) (constant : Bool) (list : List Pattern) (values : List Value) :
    LateBy room (reachPatterns list) (r.bindElements scope constant list values)
      (r'.bindElements scope constant list values) := by
  induction list generalizing values with
  | nil => exact (quiet_pure _).lateBy
  | cons p rest ih => exact (h.bind p _ _ _).bind fun _ => ih _

theorem bindStep (p : Pattern) (value : Value) (scope : Nat) (constant : Bool) :
    LateBy room (p.reach - 1) (r.bindStep p value scope constant)
      (r'.bindStep p value scope constant) := by
  cases p with
  | hole => exact (quiet_pure _).lateBy
  | name span name => exact (Simple.declare _ _ _ _).quiet.lateBy
  | object span fields rest =>
    simp only [Runner.bindStep]
    split
    case' isTrue =>
      refine (simple_textOf _).quiet.then fun _ => ?_
      refine (simple_raise anyPlace _ _).quiet.then fun _ => ?_
    all_goals
      refine (h.bindFields _ _ _ _ fields).bind fun used => ?_
      split
      · exact (quiet_pure _).lateBy.mono (Nat.zero_le _)
      · exact h.bindRest _ _ _ _ _
  | array span elements rest =>
    simp only [Runner.bindStep]
    rw [h.source]
    refine (simple_iterate anyPlace _ _).quiet.then fun items => ?_
    refine (h.bindElements _ _ _ _).bind fun _ => ?_
    split
    · exact (quiet_pure _).lateBy.mono (Nat.zero_le _)
    · exact (simple_newArray _).quiet.then fun _ => h.bind _ _ _ _
  | fallback span p e =>
    simp only [Runner.bindStep]
    split
    · exact (h.expression e scope).bind fun _ => h.bind p _ _ _
    · exact (h.bind p _ _ _).mono (Nat.le_add_left _ _)

/-! ## Lists of statements -/

omit h in
theorem quiet_hoist (scope : Nat) (s : Stmt) : Quiet (hoist scope s) := by
  cases s with
  | function name parameters body =>
    exact (quiet_newFunction _ _).bind fun f => (Simple.declare _ _ _ _).quiet
  | «variables» kind declarators => exact (simple_hoist scope kind declarators).quiet
  | _ => exact quiet_pure _

theorem statements (scope : Nat) (list : List Stmt) :
    LateBy room (reachStmts list) (r.statements scope list) (r'.statements scope list) := by
  induction list with
  | nil => exact (quiet_pure _).lateBy
  | cons s rest ih =>
    refine (h.statement s scope).bind fun flow => ?_
    split
    · exact ih
    · exact (quiet_pure _).lateBy.mono (Nat.zero_le _)

theorem block (list : List Stmt) (scope : Nat) :
    LateBy room (reachStmts list) (r.block list scope) (r'.block list scope) := by
  refine Quiet.then (quiet_forIn fun s => ?_) fun _ => h.statements scope list
  exact (quiet_hoist scope s).bind fun _ => quiet_pure _

theorem innerBlock (list : List Stmt) (scope : Nat) :
    LateBy room (reachStmts list) (r.innerBlock list scope) (r'.innerBlock list scope) :=
  (Simple.child _ _).quiet.then fun inner => h.block list inner

theorem declareAll (kind : VariableKind) (scope target : Nat) (list : List Declarator) :
    LateBy room (reachDeclarators list) (r.declareAll kind scope target list)
      (r'.declareAll kind scope target list) := by
  induction list with
  | nil => exact (quiet_pure _).lateBy
  | cons d rest ih =>
    obtain ⟨p, _ | e⟩ := d
    · have hbind := h.bind p .undefined target (kind = .const)
      simp only [Runner.declareAll]
      split
      · exact ih.mono (Nat.le_add_left _ _)
      · exact hbind.bind fun _ => ih
    · exact (h.expression e scope).bind fun v => (h.bind p _ _ _).bind fun _ => ih

/-! ## Loops -/

/-- A loop ends in its first round, at the look at the clock. -/
theorem loop {round round' : Unit → Exec (Option Flow)} :
    LateBy room 0 (r.loop (tick >>= round)) (r'.loop (tick >>= round')) := by
  obtain ⟨n, hn⟩ := Nat.exists_eq_succ_of_ne_zero h.rounds
  obtain ⟨n', hn'⟩ := Nat.exists_eq_succ_of_ne_zero h.rounds'
  rw [Runner.loop, Runner.loop, hn, hn']
  simp only [Runner.repeatFrom, bind_assoc]
  exact lateBy_tick

omit h in
theorem forItems (target : Target) (body : Stmt) (scope : Nat) (items : List Value) :
    LateBy room 0 (r.forItems target body scope items) (r'.forItems target body scope items) := by
  cases items with
  | nil => exact (quiet_pure _).lateBy
  | cons item rest => exact lateBy_tick

theorem forEach (traversal : Traversal) (target : Target) (collection : Expr) (body : Stmt)
    (scope : Nat) :
    LateBy room collection.reach (r.forEach traversal target collection body scope)
      (r'.forEach traversal target collection body scope) := by
  unfold Runner.forEach
  rw [h.source]
  show LateBy room (collection.reach + 0) _ _
  refine (h.expression collection scope).bind fun v => ?_
  cases traversal with
  | values =>
    exact (simple_iterate anyPlace _ _).quiet.then fun items => forItems target body scope items
  | keys => exact ((simple_keysOf v).quiet.map _).then fun items => forItems target body scope items

/-! ## Attempts and selections -/

theorem tryCatch (list : List Stmt) (parameter : Pattern) (handler : List Stmt) (scope : Nat) :
    LateBy room (reachStmts list + (parameter.reach + reachStmts handler))
      (r.tryCatch list parameter handler scope) (r'.tryCatch list parameter handler scope) := by
  unfold Runner.tryCatch
  rw [tryCatch_eq_attempt, tryCatch_eq_attempt]
  refine (h.innerBlock list scope).attempt (fun flow => ?_) fun why hwhy => ?_
  · exact (quiet_pure _).lateBy.mono (Nat.zero_le _)
  · cases why with
    | throw v place =>
      refine (Simple.child _ _).quiet.then fun inner => ?_
      exact (h.bind parameter _ _ _).bind fun _ => h.block handler inner
    | timeout | exhausted => exact (quiet_throw hwhy).lateBy.mono (Nat.zero_le _)

theorem tryFinally (body : Stmt) (finalizer : List Stmt) (scope : Nat) :
    LateBy room (body.reach + reachStmts finalizer) (r.tryFinally body finalizer scope)
      (r'.tryFinally body finalizer scope) := by
  have hfinalizer := h.innerBlock finalizer scope
  refine (h.statement body scope).attempt (fun flow => ?_) fun why hwhy => ?_
  · refine hfinalizer.last fun flow' => ?_
    split <;> exact quiet_pure _
  · refine hfinalizer.last fun flow' => ?_
    split
    · exact quiet_throw hwhy
    · exact quiet_pure _

theorem cases (scope : Nat) (list : List Case) :
    LateBy room (reachBodies list) (r.cases scope list) (r'.cases scope list) := by
  induction list with
  | nil => exact (quiet_pure _).lateBy
  | cons c rest ih =>
    obtain ⟨test, body⟩ := c
    refine (h.statements scope body).bind fun flow => ?_
    split
    · exact ih
    · exact (quiet_pure _).lateBy.mono (Nat.zero_le _)
    · exact (quiet_pure _).lateBy.mono (Nat.zero_le _)

omit h in
theorem reachBodies_le_of_suffix {rest list : List Case} (hsuffix : rest <:+ list) :
    reachBodies rest ≤ reachBodies list := by
  induction list with
  | nil => rw [List.suffix_nil.mp hsuffix]
  | cons c list ih =>
    obtain ⟨test, body⟩ := c
    rcases List.suffix_cons_iff.mp hsuffix with rfl | hsuffix
    · exact Nat.le_refl _
    · exact Nat.le_trans (ih hsuffix) (Nat.le_add_left _ _)

/-- The tests of cases, and what is done with what they have found: some of the last of the cases.
-/
theorem matching {β : Type} {n : Nat} (v : Value) (scope : Nat) (list : List Case)
    {next next' : Option (List Case) → Exec β} (hnone : LateBy room n (next none) (next' none))
    (hsome : ∀ rest, rest <:+ list → LateBy room n (next (some rest)) (next' (some rest))) :
    LateBy room (reachTests list + n) (r.matching v scope list >>= next)
      (r'.matching v scope list >>= next') := by
  induction list with
  | nil => exact hnone.mono (Nat.le_add_left _ _)
  | cons c rest ih =>
    have hrest := ih fun found hfound => hsome found (hfound.trans (List.suffix_cons c rest))
    obtain ⟨_ | e, body⟩ := c
    · exact hrest
    · refine LateBy.mono ?_ (Nat.le_of_eq (Nat.add_assoc _ _ _).symm)
      simp only [Runner.matching, bind_assoc]
      refine (h.expression e scope).bind fun value => ?_
      split
      · exact (hsome _ (List.suffix_refl _)).mono (Nat.le_add_left _ _)
      · exact hrest

theorem select (e : Expr) (list : List Case) (scope : Nat) :
    LateBy room (e.reach + (reachTests list + reachBodies list)) (r.select e list scope)
      (r'.select e list scope) := by
  refine (h.expression e scope).bind fun v => (Simple.child _ _).quiet.then fun inner => ?_
  refine h.matching v inner list ?_ fun rest hrest => ?_
  · exact (h.cases inner _).mono (reachBodies_le_of_suffix (List.dropWhile_suffix _))
  · exact (h.cases inner rest).mono (reachBodies_le_of_suffix hrest)

/-- A step of a statement takes its parts that can be reached, besides the task that it is. -/
theorem statementStep (s : Stmt) (scope : Nat) :
    LateBy room (s.reach - 1) (r.statementStep s scope) (r'.statementStep s scope) := by
  cases s with
  | empty | function | «break» | «continue» => exact (quiet_pure _).lateBy
  | expression e => exact (h.expression e scope).last fun _ => quiet_pure _
  | «variables» kind list =>
    refine (simple_targetScope kind scope).quiet.then fun target => ?_
    exact (h.declareAll kind scope target list).last fun _ => quiet_pure _
  | block list => exact h.innerBlock list scope
  | branch test yes no =>
    refine (h.expression test scope).bind fun v => ?_
    split
    · exact (h.statement yes scope).mono (Nat.le_add_right _ _)
    · exact (h.statement no scope).mono (Nat.le_add_left _ _)
  | forLoop start test update body =>
    refine (Simple.child _ _).quiet.then fun inner => ?_
    exact (h.statement start inner).bind fun _ => h.loop
  | forEach traversal target collection body =>
    exact h.forEach traversal target collection body scope
  | whileLoop test body => exact h.loop
  | doLoop body test => exact h.loop
  | «return» value =>
    cases value with
    | none => exact (quiet_pure _).lateBy
    | some e => exact (h.expression e scope).last fun _ => quiet_pure _
  | throw e => exact (h.expression e scope).last fun v => quiet_throw_value v _
  | tryCatch list parameter handler => exact h.tryCatch list parameter handler scope
  | tryFinally body finalizer => exact h.tryFinally body finalizer scope
  | select e list => exact h.select e list scope
  | unsupported span => exact (simple_raise anyPlace _ _).quiet.lateBy

/-- A step of any task but a call. -/
theorem step {task : Task} {n : Nat} (hreach : task.reach? = some n) :
    LateBy room (n - 1) (r.step task) (r'.step task) := by
  cases task with
  | expression e scope =>
    obtain rfl := Option.some.inj hreach
    exact h.expressionStep e scope
  | statement s scope =>
    obtain rfl := Option.some.inj hreach
    exact h.statementStep s scope
  | bind p value scope constant =>
    obtain rfl := Option.some.inj hreach
    exact h.bindStep p value scope constant
  | call => cases hreach

end Runner.Overtime

/-! ## Runs -/

variable {source : List Char} {bound bound' room depth depth' : Nat}

/-- The tasks of two runners are late by no more than can be reached. -/
theorem Runner.overtime_of_run (hbound : bound ≠ 0) (hbound' : bound' ≠ 0)
    (h : ∀ (task : Task) (n : Nat), task.reach? = some n →
      LateBy room n (runTask source bound depth task) (runTallied source bound' depth' task)) :
    (deep source bound depth).Overtime room (tallied source bound' depth') where
  source := rfl
  rounds := hbound
  rounds' := hbound'
  expression e scope := h (.expression e scope) e.reach rfl
  statement s scope := h (.statement s scope) s.reach rfl
  bind p value scope constant := h (.bind p value scope constant) p.reach rfl

theorem lateBy_runTask (hbound : bound ≠ 0) (hbound' : bound' ≠ 0) (hdepth : room ≤ depth)
    (hdepth' : room ≤ depth') {task : Task} {n : Nat} (hreach : task.reach? = some n) :
    LateBy room n (runTask source bound depth task) (runTallied source bound' depth' task) := by
  induction room generalizing depth depth' task n with
  | zero =>
    -- there is no room even for the task itself
    exact fun hroom => absurd hroom (Nat.not_le.mpr (Task.reach?_pos hreach))
  | succ room ih =>
    obtain _ | depth := depth
    · cases hdepth
    obtain _ | depth' := depth'
    · cases hdepth'
    obtain _ | n := n
    · exact absurd (Task.reach?_pos hreach) (Nat.lt_irrefl 0)
    have hrunners : (Runner.deep source bound depth).Overtime room
        (Runner.tallied source bound' depth') :=
      Runner.overtime_of_run hbound hbound' fun task n =>
        ih (Nat.le_of_succ_le_succ hdepth) (Nat.le_of_succ_le_succ hdepth')
    have hcalls : ¬ task.reach? = none := by simp [hreach]
    rw [runTask, runTallied, if_neg hcalls]
    exact (hrunners.step hreach).stroke

theorem Runner.overtime (hbound : bound ≠ 0) (hbound' : bound' ≠ 0) (hdepth : room ≤ depth)
    (hdepth' : room ≤ depth') :
    (deep source bound depth).Overtime room (tallied source bound' depth') :=
  overtime_of_run hbound hbound' fun _ _ => lateBy_runTask hbound hbound' hdepth hdepth'

/-- The whole of a program, by a runner. -/
def Runner.program (r : Runner) (globals : Globals) (program : Program) : Exec Unit := do
  install globals
  let _ ← r.block program Scopes.globalPlace

theorem execProgram_eq (source : List Char) (bound : Nat) (globals : Globals)
    (program : Program) :
    execProgram source bound globals program =
      (Runner.bounded source bound).program globals program := rfl

/-- Evaluation from a machine comes to an end after at most `n` tasks: it ends in the same way with
every bound above this number, and not for want of room, with the time over and nothing written.
With a stroke for each of its tasks, and no room for calls, it still ends so, and makes at most `n`
strokes. -/
def EndsWithin {α : Type} (source : List Char) (n : Nat) (evaluate : Runner → Exec α)
    (m : Machine) : Prop :=
  ∃ ending : Ending α, Ending.abort? ending ≠ some .exhausted ∧
    (Ending.machine ending).Expired ∧ (Ending.machine ending).output = m.output ∧
    ∀ bound, n < bound → evaluate (.bounded source bound) m = ending ∧
      ∃ count ≤ n, evaluate (.tallied source bound bound) m =
        Ending.onMachine (·.marked count) ending

/-- Evaluation that is late by no more than `n` tasks, whatever room there is above this number,
comes to an end. -/
theorem endsWithin_of_lateBy {α : Type} {evaluate : Runner → Exec α} {n : Nat} {m : Machine}
    (hm : m.Expired) (h : ∀ bound bound', n < bound → n < bound' →
      LateBy n n (evaluate (.bounded source bound)) (evaluate (.tallied source bound' bound'))) :
    EndsWithin source n evaluate m := by
  have hlate : ∀ bound bound', n < bound → n < bound' → Late n 0 m.output
      (evaluate (.bounded source bound) m) (evaluate (.tallied source bound' bound') m) := by
    intro bound bound' hbound hbound'
    have hpair := h bound bound' hbound hbound' (Nat.le_refl n) m 0 hm
    rwa [m.marked_zero] at hpair
  have hfirst := hlate (n + 1) (n + 1) (Nat.lt_succ_self n) (Nat.lt_succ_self n)
  obtain ⟨hroom, hexpired, houtput, -⟩ := hfirst.ends
  refine ⟨_, hroom, hexpired, houtput, fun bound hbound => ⟨?_, ?_⟩⟩
  · exact (hlate bound (n + 1) hbound (Nat.lt_succ_self n)).unique hfirst
  · obtain ⟨-, -, -, count, hcount, htally⟩ :=
      (hlate (n + 1) bound (Nat.lt_succ_self n) hbound).ends
    rw [Nat.zero_add] at htally
    exact ⟨count, hcount, htally⟩

/-- What evaluation comes to out of time, from one machine. -/
structure OutOfTime (source : List Char) (m : Machine) : Prop where
  /-- Every call is stopped by the clock before what it calls is known, -/
  call (r : Runner) (callee : Expr) (list : List Element) (optional : Bool) (scope place : Nat) :
    r.callExpression callee list optional scope place m = .error .timeout m
  /-- and so is every making of a value, -/
  construct (r : Runner) (callee : Expr) (list : List Element) (scope place : Nat) :
    r.construct callee list scope place m = .error .timeout m
  /-- every loop in its first round -/
  loop (r : Runner) (hr : r.bound ≠ 0) (round : Unit → Exec (Option Flow)) :
    r.loop (tick >>= round) m = .error .timeout m
  /-- or with its first item. -/
  item (r : Runner) (target : Target) (body : Stmt) (scope : Nat) (item : Value)
    (rest : List Value) : r.forItems target body scope (item :: rest) m = .error .timeout m
  /-- An expression ends within what can be reached of it, -/
  expression (e : Expr) (scope : Nat) : EndsWithin source e.reach (·.expression e scope) m
  /-- and so does a statement, handlers and finalizers included, -/
  statement (s : Stmt) (scope : Nat) : EndsWithin source s.reach (·.statement s scope) m
  /-- and a program. -/
  program (globals : Globals) (program : Program) :
    EndsWithin source (reachStmts program) (·.program globals program) m
  /-- The conversions on the way go down into the parts of their values and end with them. -/
  conversion (h : Heap) (v : Value) (n : Nat) (hv : h.Nests n v) :
    h.text v = h.textWithin n v ∧ h.number v = h.numberWithin n v ∧ h.json? v = h.jsonWithin n v

end Stencil.Script
