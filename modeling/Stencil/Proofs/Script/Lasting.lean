import Stencil.Proofs.Script.Lockstep
import Stencil.Script.Run

/-! # What lasts in a run

A step leads from a machine to another one, and may stop there for a reason.  A relation between the
two and the reason lasts if no single change that a run makes breaks it, to the heap, the functions,
the scopes, the output, the depth or the clock, and if it goes on through what stands behind a step
or behind a stop.  Then every step of evaluation leads from a machine to one that is related to it,
and so does every task.
-/
namespace Stencil.Script

variable {α β : Type}

/-- Why a step has stopped, unless it has ended normally. -/
def Ending.abort? : Ending α → Option Abort
  | .ok _ _ => none
  | .error why _ => some why

/-- A relation of earlier machines to later ones, in which a step has ended or stopped for a reason,
that holds through every single change. -/
class Lasting (R : Machine → Option Abort → Machine → Prop) : Prop where
  refl (m : Machine) : R m none m
  trans {first second third : Machine} {why? : Option Abort} (h : R first none second)
    (h' : R second why? third) : R first why? third
  /-- What comes behind a stop may take its place, -/
  handled {first second third : Machine} {why : Abort} {why? : Option Abort}
    (h : R first (some why) second) (h' : R second why? third) : R first why? third
  /-- or pass it on. -/
  passed {first second third : Machine} {why : Abort} (h : R first (some why) second)
    (h' : R second none third) : R first (some why) third
  throw (m : Machine) (value : Value) (place : Nat) : R m (some (.throw value place)) m
  exhausted (m : Machine) : R m (some .exhausted) m
  timeout {m : Machine} (h : m.clock.looksLeft = some 0) : R m (some .timeout) m
  look {m : Machine} {n : Nat} (h : m.clock.looksLeft = some (n + 1)) :
    R m none { m with clock := ⟨some n⟩ }
  heap (m : Machine) (heap : Heap) : R m none { m with heap }
  closure (m : Machine) (closure : Closure) :
    R m none { m with closures := m.closures.push closure }
  child (m : Machine) (parent : Nat) (isFunction : Bool) :
    R m none { m with scopes := (m.scopes.child parent isFunction).2 }
  declare (m : Machine) (place : Nat) (name : String) (value : Value) (constant : Bool) :
    R m none { m with scopes := m.scopes.declare place name value constant }
  output (m : Machine) (output : String) : R m none { m with output }
  depth (m : Machine) (depth : Nat) : R m none { m with depth }

variable (R : Machine → Option Abort → Machine → Prop)

/-- A step leads to machines that are related to the one it began with. -/
def Follows (step : Exec α) : Prop := ∀ m, R m (Ending.abort? (step m)) (Ending.machine (step m))

/-- A step leads on from a stop to machines that are related to the one from which the stop came. -/
def FollowsStop (why : Abort) (step : Exec α) : Prop :=
  ∀ first m, R first (some why) m → R first (Ending.abort? (step m)) (Ending.machine (step m))

variable {R} [Lasting R]

/-! ## Steps and their sequences -/

@[simp] theorem follows_pure (a : α) : Follows R (pure a) := fun m => Lasting.refl m

@[simp] theorem follows_throw (value : Value) (place : Nat) :
    Follows R (throw (.throw value place) : Exec α) :=
  fun m => Lasting.throw m value place

@[simp] theorem follows_exhausted : Follows R (throw .exhausted : Exec α) :=
  fun m => Lasting.exhausted m

@[simp] theorem Follows.bind {step : Exec α} {next : α → Exec β} (h : Follows R step)
    (h' : ∀ a, Follows R (next a)) : Follows R (step >>= next) := by
  intro m
  have hstep := h m
  rw [bind_apply]
  cases hend : step m with
  | ok a m' =>
    rw [hend] at hstep
    exact Lasting.trans hstep (h' a m')
  | error why m' =>
    rw [hend] at hstep
    exact hstep

@[simp] theorem Follows.map {step : Exec α} (f : α → β) (h : Follows R step) :
    Follows R (f <$> step) :=
  h.bind fun a => follows_pure (f a)

omit [Lasting R] in
@[simp] theorem Follows.get {next : Machine → Exec β} (h : ∀ m, Follows R (next m)) :
    Follows R (get >>= next) :=
  fun m => h m m

omit [Lasting R] in
@[simp] theorem Follows.ite {c : Prop} [Decidable c] {yes no : Exec α} (h : Follows R yes)
    (h' : Follows R no) : Follows R (if c then yes else no) := by
  split
  · exact h
  · exact h'

omit [Lasting R] in
/-- A stop is passed on just as it is. -/
theorem followsStop_throw (why : Abort) : FollowsStop R why (throw why : Exec α) :=
  fun _ _ h => h

theorem Follows.stop {step : Exec α} (h : Follows R step) (why : Abort) : FollowsStop R why step :=
  fun _ m hstop => Lasting.handled hstop (h m)

/-- What is done between a stop and a step that leads on from it. -/
theorem Follows.bindStop {why : Abort} {step : Exec α} {next : α → Exec β} (h : Follows R step)
    (h' : ∀ a, FollowsStop R why (next a)) : FollowsStop R why (step >>= next) := by
  intro first m hstop
  have hstep := h m
  rw [bind_apply]
  cases hend : step m with
  | ok a m' =>
    rw [hend] at hstep
    exact h' a first m' (Lasting.passed hstop hstep)
  | error other m' =>
    rw [hend] at hstep
    exact Lasting.handled hstop hstep

/-- A step whose ending is given to another one. -/
theorem Follows.attempt {step : Exec α} {next : Except Abort α → Exec β} (h : Follows R step)
    (hok : ∀ a, Follows R (next (.ok a))) (herror : ∀ why, FollowsStop R why (next (.error why))) :
    Follows R (attempt step next) := by
  intro m
  have hstep := h m
  rw [attempt_apply]
  cases hend : step m with
  | ok a m' =>
    rw [hend] at hstep
    exact Lasting.trans hstep (hok a m')
  | error why m' =>
    rw [hend] at hstep
    exact herror why m m' hstep

theorem Follows.tryCatch {step : Exec α} {handle : Abort → Exec α} (h : Follows R step)
    (h' : ∀ why, FollowsStop R why (handle why)) : Follows R (EStateM.tryCatch step handle) := by
  rw [tryCatch_eq_attempt]
  exact h.attempt (fun a => follows_pure a) h'

/-- A loop over a list follows if its rounds do. -/
theorem follows_forIn {list : List α} {round : α → PUnit → Exec (ForInStep PUnit)}
    (h : ∀ x, Follows R (round x ⟨⟩)) : Follows R (forIn list ⟨⟩ round) := by
  induction list with
  | nil => exact follows_pure _
  | cons x list ih =>
    rw [List.forIn_cons]
    refine (h x).bind fun result => ?_
    cases result with
    | done _ => exact follows_pure _
    | yield _ => exact ih

/-! ## Steps that change the machine -/

omit [Lasting R] in
theorem follows_modify {change : Machine → Machine} (h : ∀ m, R m none (change m)) :
    Follows R (modify change) := h

@[simp] theorem follows_newFunction (name : Option String) (closure : Closure) :
    Follows R (newFunction name closure) :=
  fun m => Lasting.closure m closure

@[simp] theorem follows_tick : Follows R tick := by
  rintro ⟨scopes, heap, closures, output, depth, ⟨looks⟩⟩
  match looks with
  | none => exact Lasting.refl _
  | some 0 => exact Lasting.timeout rfl
  | some (n + 1) => exact Lasting.look rfl

@[simp] theorem Simple.follows {step : Exec α} (h : Simple AnyPlace True step) :
    Follows R step := by
  induction h with
  | pure a => exact follows_pure a
  | throw value => exact follows_throw value _
  | bind _ _ ih ih' => exact ih.bind ih'
  | get _ _ ih => exact Follows.get ih
  | heap change => exact fun m => Lasting.heap m _
  | child parent isFunction => exact fun m => Lasting.child m parent isFunction
  | declare scope name value constant =>
    exact follows_modify fun m => Lasting.declare m scope name value constant
  | write _ text => exact follows_modify fun m => Lasting.output m _

/-! ## Tasks -/

variable (R) in
/-- All tasks of a runner lead to machines that are related to the ones they begin with. -/
def Runner.Lasts (r : Runner) : Prop := ∀ task, Follows R (r.run task)

namespace Runner.Lasts

variable {r : Runner} (h : r.Lasts R)

include h

omit [Lasting R] in
theorem expression (e : Expr) (scope : Nat) : Follows R (r.expression e scope) :=
  h (.expression e scope)

omit [Lasting R] in
theorem statement (s : Stmt) (scope : Nat) : Follows R (r.statement s scope) :=
  h (.statement s scope)

omit [Lasting R] in
theorem bind (p : Pattern) (value : Value) (scope : Nat) (constant : Bool) :
    Follows R (r.bind p value scope constant) :=
  h (.bind p value scope constant)

omit [Lasting R] in
theorem call (callee : Value) (values : List Value) (place : Nat) :
    Follows R (r.call callee values place) :=
  h (.call callee values place)

theorem textOf (e : Expr) (scope : Nat) : Follows R (r.textOf e scope) :=
  (h.expression e scope).bind fun v => (simple_textOf v).follows

theorem elements (scope : Nat) (list : List Element) : Follows R (r.elements scope list) := by
  induction list with
  | nil => exact follows_pure _
  | cons element rest ih =>
    cases element with
    | item e => exact (h.expression e scope).bind fun v => ih.bind fun _ => follows_pure _
    | spread span e =>
      refine (h.expression e scope).bind fun v => ?_
      refine (simple_iterate anyPlace _ _).follows.bind fun items => ?_
      exact ih.bind fun _ => follows_pure _
    | hole => exact ih.bind fun _ => follows_pure _

/-! ### Calls -/

theorem callEach (f receiver : Value) (place : Nat) (done : Array (Value × Value))
    (items : List Value) : Follows R (r.callEach f receiver place done items) := by
  induction items generalizing done with
  | nil => exact follows_pure _
  | cons item rest ih => exact (h.call _ _ _).bind fun result => ih _

theorem arrayTraversal (items : Array Value) (receiver : Value) (m : Method) (f : Value)
    (place : Nat) : Follows R (r.arrayTraversal items receiver m f place) := by
  unfold Runner.arrayTraversal
  simp only
  split
  case' isFalse =>
    refine (simple_textOf f).follows.bind fun _ => ?_
    refine (simple_raise anyPlace _ _).follows.bind fun _ => ?_
  all_goals
    refine (h.callEach f receiver place _ _).bind fun results => ?_
    split <;> simp

theorem arrayMethod (array : Nat) (m : Method) (values : List Value) (place : Nat) :
    Follows R (r.arrayMethod array m values place) := by
  cases m
  case map | filter | forEach =>
    exact (simple_itemsOf _).follows.bind fun items => h.arrayTraversal items _ _ _ _
  all_goals exact (simple_arrayMethod anyPlace r array (by decide) values).follows

theorem replacement (f : Value) (pattern : String) (place : Nat) :
    Follows R (r.replacement f pattern place) := by
  unfold Runner.replacement
  split
  · exact (h.call _ _ _).bind fun _ => (simple_textOf _).follows
  · exact (simple_textOf _).follows

theorem stringMethod (s : String) (m : Method) (values : List Value) (place : Nat) :
    Follows R (r.stringMethod s m values place) := by
  cases m
  case replace =>
    refine (simple_textOf _).follows.bind fun pattern => ?_
    split
    · exact (h.replacement _ _ _).bind fun _ => follows_pure _
    · exact follows_pure _
  all_goals exact (simple_stringMethod anyPlace r s (by decide) values).follows

theorem callMethod (receiver : Value) (m : Method) (values : List Value) (place : Nat) :
    Follows R (r.callMethod receiver m values place) := by
  unfold Runner.callMethod
  split
  · exact h.arrayMethod _ _ _ _
  · exact h.stringMethod _ _ _ _
  · exact (simple_numberMethod anyPlace _ _ _).follows
  · exact (simple_noMethod anyPlace _).follows

/-! ### Patterns -/

theorem bindFields (value : Value) (scope : Nat) (constant : Bool) (place : Nat)
    (list : List PatternField) : Follows R (r.bindFields value scope constant place list) := by
  induction list with
  | nil => exact follows_pure _
  | cons field rest ih =>
    obtain ⟨key, p⟩ := field
    refine (h.textOf key scope).bind fun name => ?_
    refine (simple_getMember anyPlace _ _).follows.bind fun part => ?_
    exact (h.bind p part scope constant).bind fun _ => ih.bind fun _ => follows_pure _

theorem bindRest (rest : Pattern) (value : Value) (used : List String) (scope : Nat)
    (constant : Bool) : Follows R (r.bindRest rest value used scope constant) := by
  refine (simple_keysOf value).follows.bind fun keys => Follows.get fun m => ?_
  exact (simple_newObject _).follows.bind fun _ => h.bind rest _ _ _

theorem bindElements (scope : Nat) (constant : Bool) (list : List Pattern) (values : List Value) :
    Follows R (r.bindElements scope constant list values) := by
  induction list generalizing values with
  | nil => exact follows_pure _
  | cons p rest ih => exact (h.bind p _ _ _).bind fun _ => ih _

theorem bindStep (p : Pattern) (value : Value) (scope : Nat) (constant : Bool) :
    Follows R (r.bindStep p value scope constant) := by
  cases p with
  | hole => exact follows_pure _
  | name span name => exact (Simple.declare _ _ _ _).follows
  | object span fields rest =>
    simp only [Runner.bindStep]
    split
    case' isTrue =>
      refine (simple_textOf _).follows.bind fun _ => ?_
      refine (simple_raise anyPlace _ _).follows.bind fun _ => ?_
    all_goals
      refine (h.bindFields _ _ _ _ fields).bind fun used => ?_
      split
      · exact follows_pure _
      · exact h.bindRest _ _ _ _ _
  | array span elements rest =>
    refine (simple_iterate anyPlace _ _).follows.bind fun items => ?_
    refine (h.bindElements _ _ _ _).bind fun _ => ?_
    split
    · exact follows_pure _
    · exact (simple_newArray _).follows.bind fun _ => h.bind _ _ _ _
  | fallback span p e =>
    simp only [Runner.bindStep]
    split
    · exact (h.expression e scope).bind fun _ => h.bind p _ _ _
    · exact h.bind p _ _ _

/-! ### Expressions -/

theorem templateFrom (scope : Nat) (texts : List String) (list : List Expr) :
    Follows R (r.templateFrom scope texts list) := by
  induction list generalizing texts with
  | nil => cases texts <;> exact follows_pure _
  | cons e rest ih =>
    cases texts with
    | nil => exact follows_pure _
    | cons text texts =>
      exact (h.textOf e scope).bind fun _ => (ih texts).bind fun _ => follows_pure _

theorem members (scope : Nat) (fields : Fields) (list : List Member) :
    Follows R (r.members scope fields list) := by
  induction list generalizing fields with
  | nil => exact follows_pure _
  | cons member rest ih =>
    cases member with
    | field key value =>
      exact (h.textOf key scope).bind fun _ => (h.expression value scope).bind fun _ => ih _
    | spread span e =>
      exact (h.expression e scope).bind fun _ =>
        (simple_spreadFields _ _).follows.bind fun _ => ih _

theorem sequence (scope : Nat) (last : Value) (list : List Expr) :
    Follows R (r.sequence scope last list) := by
  induction list generalizing last with
  | nil => exact follows_pure _
  | cons e rest ih => exact (h.expression e scope).bind fun _ => ih _

theorem unary (op : UnaryOp) (operand : Expr) (scope : Nat) :
    Follows R (r.unary op operand scope) := by
  unfold Runner.unary
  split
  case h_1 => simp
  case h_2 owner _ _ _ =>
    exact (h.expression owner scope).bind fun v =>
      (simple_eraseMember _ _).follows.bind fun _ => follows_pure _
  case h_3 owner key _ =>
    refine (h.expression owner scope).bind fun v => (h.textOf key scope).bind fun name => ?_
    exact (simple_eraseMember _ _).follows.bind fun _ => follows_pure _
  case h_4 => exact follows_pure _
  case h_5 => exact (h.expression operand scope).bind fun _ => (simple_unaryValue _ _).follows

theorem combine (op : AssignOp) (current : Value) (e : Expr) (scope place : Nat) :
    Follows R (r.combine op current e scope place) := by
  cases op with
  | plain => exact (h.expression e scope).bind fun _ => follows_pure _
  | compound op =>
    exact (h.expression e scope).bind fun _ =>
      (simple_binaryValue anyPlace _ _ _).follows.bind fun _ => follows_pure _
  | logical op =>
    simp only [Runner.combine]
    split
    · exact follows_pure _
    · exact (h.expression e scope).bind fun _ => follows_pure _

/-- An assignment, once the value that its target has is known. -/
theorem store (op : AssignOp) (current : Value) (e : Expr) (scope place : Nat)
    {set : Value → Exec Unit} (hset : ∀ v, Follows R (set v)) :
    Follows R (do
      let (value, stored) ← r.combine op current e scope place
      if stored then set value
      return value) := by
  refine (h.combine op current e scope place).bind fun (value, stored) => ?_
  simp [hset]

theorem assignMember (owner : Value) (key : String) (op : AssignOp) (e : Expr)
    (scope place : Nat) : Follows R (r.assignMember owner key op e scope place) := by
  have hplace : AnyPlace place := anyPlace
  have hstore current := h.store op current e scope place fun v =>
    (simple_setMember hplace owner key v).follows
  unfold Runner.assignMember
  split
  · exact (follows_pure _).bind hstore
  · exact (simple_getMember anyPlace _ _).follows.bind hstore

theorem assign (op : AssignOp) (target : Target) (e : Expr) (scope : Nat) (span : Span) :
    Follows R (r.assign op target e scope span) := by
  cases target with
  | name nameSpan name =>
    have hplace : AnyPlace nameSpan.start := anyPlace
    have hstore current := h.store op current e scope span.start fun v =>
      (simple_assignVariable hplace scope name v).follows
    simp only [Runner.assign]
    split
    · exact (follows_pure _).bind hstore
    · exact (simple_readVariable anyPlace _ _).follows.bind hstore
  | member owner name nameSpan =>
    exact (h.expression owner scope).bind fun _ => h.assignMember _ _ _ _ _ _
  | index span owner key =>
    exact (h.expression owner scope).bind fun _ =>
      (h.textOf key scope).bind fun _ => h.assignMember _ _ _ _ _ _
  | _ => exact (simple_raise anyPlace _ _).follows

theorem addTo (step : Float) (target : Target) (scope place : Nat) :
    Follows R (r.addTo step target scope place) := by
  cases target with
  | name span name =>
    refine (simple_readVariable anyPlace _ _).follows.bind fun v => ?_
    refine (simple_numberOf v).follows.bind fun old => ?_
    exact (simple_assignVariable anyPlace _ _ _).follows.bind fun _ => follows_pure _
  | member owner name nameSpan =>
    refine (h.expression owner scope).bind fun owner => ?_
    refine (simple_getMember anyPlace _ _).follows.bind fun v => ?_
    refine (simple_numberOf v).follows.bind fun old => ?_
    exact (simple_setMember anyPlace _ _ _).follows.bind fun _ => follows_pure _
  | index span owner key =>
    refine (h.expression owner scope).bind fun owner => (h.textOf key scope).bind fun name => ?_
    refine (simple_getMember anyPlace _ _).follows.bind fun v => ?_
    refine (simple_numberOf v).follows.bind fun old => ?_
    exact (simple_setMember anyPlace _ _ _).follows.bind fun _ => follows_pure _
  | _ => exact (simple_raise anyPlace _ _).follows

theorem member (owner : Expr) (name : String) (nameSpan : Span) (optional : Bool) (scope : Nat) :
    Follows R (r.member owner name nameSpan optional scope) := by
  refine (h.expression owner scope).bind fun owner => ?_
  split
  · exact follows_pure _
  · exact (simple_getMember anyPlace _ _).follows

theorem index (owner key : Expr) (optional : Bool) (scope : Nat) :
    Follows R (r.index owner key optional scope) := by
  refine (h.expression owner scope).bind fun owner => ?_
  split
  · exact follows_pure _
  · exact (h.textOf key scope).bind fun _ => (simple_getMember anyPlace _ _).follows

theorem callExpression (callee : Expr) (list : List Element) (optional : Bool)
    (scope place : Nat) : Follows R (r.callExpression callee list optional scope place) := by
  refine follows_tick.bind fun _ => (h.expression callee scope).bind fun f => ?_
  split
  · exact follows_pure _
  · refine (h.elements scope list).bind fun values => ?_
    split
    · exact h.call _ _ _
    · exact (simple_raise anyPlace _ _).follows

theorem construct (callee : Expr) (list : List Element) (scope place : Nat) :
    Follows R (r.construct callee list scope place) := by
  refine follows_tick.bind fun _ => (h.expression callee scope).bind fun f => ?_
  refine (h.elements scope list).bind fun values => ?_
  split
  · split
    · exact h.call _ _ _
    · exact (simple_raise anyPlace _ _).follows
  · exact (simple_raise anyPlace _ _).follows

theorem expressionStep (e : Expr) (scope : Nat) : Follows R (r.expressionStep e scope) := by
  cases e with
  | boolean | null | number | string | this => exact follows_pure _
  | template span texts values =>
    exact (h.templateFrom scope texts values).bind fun _ => follows_pure _
  | name span name => exact (simple_readVariable anyPlace _ _).follows
  | paren span inner => exact h.expression inner scope
  | await span inner => exact h.expression inner scope
  | sequence span items => exact h.sequence scope _ items
  | array span elements =>
    exact (h.elements scope elements).bind fun _ => (simple_newArray _).follows
  | object span members =>
    exact (h.members scope _ members).bind fun _ => (simple_newObject _).follows
  | function span name parameters body => exact follows_newFunction name _
  | unary span op operand => exact h.unary op operand scope
  | binary span op left right =>
    refine (h.expression left scope).bind fun a => (h.expression right scope).bind fun b => ?_
    exact (simple_binaryValue anyPlace _ _ _).follows
  | logical span op left right =>
    refine (h.expression left scope).bind fun first => ?_
    split
    · exact follows_pure _
    · exact h.expression right scope
  | conditional span test yes no =>
    refine (h.expression test scope).bind fun v => ?_
    split
    · exact h.expression yes scope
    · exact h.expression no scope
  | assign span op target value => exact h.assign op target value scope span
  | update span increment first target =>
    exact (h.addTo _ target scope _).bind fun _ => follows_pure _
  | member span owner name nameSpan optional => exact h.member owner _ _ _ _
  | index span owner key optional => exact h.index owner key _ _
  | call span callee arguments optional => exact h.callExpression callee arguments _ _ _
  | new span callee arguments => exact h.construct callee arguments _ _
  | chain span inner =>
    have hinner : Follows R (r.expression inner scope) := h.expression inner scope
    cases inner with
    | privateMember span => exact (simple_raise anyPlace _ _).follows
    | _ => exact hinner
  | privateMember span | unsupported span => exact (simple_raise anyPlace _ _).follows

end Runner.Lasts

end Stencil.Script
