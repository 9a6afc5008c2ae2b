import Stencil.Proofs.Script.Accord

/-! # Evaluating in accord

Two runners are coupled if they do their tasks in accord.  Then what is evaluated through the one
and through the other is in accord too: one lemma for each form of expressions, patterns and
methods.
-/
namespace Stencil.Script

variable {D : Demand} {silent : Bool} {d : Nat}

/-- A runner that has another way of doing its tasks. -/
abbrev Runner.via (r : Runner) (run : (task : Task) → Exec task.Result) : Runner :=
  { r with run := run }

variable (D silent d) in
/-- Another way of doing tasks is in accord with that of a runner while `d` functions are running,
for all tasks that meet a demand. -/
structure Runner.Coupled (r : Runner) (run' : (task : Task) → Exec task.Result) : Prop where
  run : ∀ task : Task, task.Meets D silent → Accord D d (r.run task) (run' task)

namespace Runner.Coupled

variable {r : Runner} {run' : (task : Task) → Exec task.Result}

/-! ## Tasks -/

section

variable (h : r.Coupled D silent d run')
include h

theorem expression {e : Expr} (he : e.Meets D silent) (scope : Nat) :
    Accord D d (r.expression e scope) ((r.via run').expression e scope) :=
  h.run (.expression e scope) he

theorem statement {s : Stmt} (hs : s.Meets D silent) (scope : Nat) :
    Accord D d (r.statement s scope) ((r.via run').statement s scope) :=
  h.run (.statement s scope) hs

theorem bind {p : Pattern} (hp : p.Meets D silent) (value : Value) (scope : Nat)
    (constant : Bool) :
    Accord D d (r.bind p value scope constant) ((r.via run').bind p value scope constant) :=
  h.run (.bind p value scope constant) hp

theorem textOf {e : Expr} (he : e.Meets D silent) (scope : Nat) :
    Accord D d (r.textOf e scope) ((r.via run').textOf e scope) :=
  (h.expression he scope).then fun _ => (simple_textOf _).accord

theorem elements {list : List Element} (hlist : MeetElements D silent list) (scope : Nat) :
    Accord D d (r.elements scope list) ((r.via run').elements scope list) := by
  induction list with
  | nil => exact accord_pure _
  | cons element rest ih =>
    cases element with
    | item e =>
      exact (h.expression hlist.1 scope).then fun v => (ih hlist.2).then fun _ => accord_pure _
    | spread span e =>
      obtain ⟨hspan, he, hrest⟩ := hlist
      refine (h.expression he scope).then fun v => ?_
      refine (simple_iterate (Demand.place_start hspan) _ _).accord.then fun items => ?_
      exact (ih hrest).then fun _ => accord_pure _
    | hole => exact (ih hlist).then fun _ => accord_pure _

end

/-! ## Methods -/

section

variable (h : r.Coupled D false d run') {place : Nat} (hplace : D.place place)
include h hplace

theorem call (callee : Value) (values : List Value) :
    Accord D d (r.call callee values place) ((r.via run').call callee values place) :=
  h.run (.call callee values place) ⟨rfl, hplace⟩

theorem callEach (f receiver : Value) (done : Array (Value × Value)) (items : List Value) :
    Accord D d (r.callEach f receiver place done items)
      ((r.via run').callEach f receiver place done items) := by
  induction items generalizing done with
  | nil => exact accord_pure _
  | cons item rest ih => exact (h.call hplace _ _).then fun result => ih _

theorem arrayTraversal (items : Array Value) (receiver : Value) (m : Method) (f : Value) :
    Accord D d (r.arrayTraversal items receiver m f place)
      ((r.via run').arrayTraversal items receiver m f place) := by
  unfold Runner.arrayTraversal
  simp only
  split
  case' isFalse =>
    refine (simple_textOf f).accord.then fun _ => (simple_raise hplace _ _).accord.then fun _ => ?_
  all_goals
    refine (h.callEach hplace f receiver _ _).then fun results => ?_
    split <;> simp

theorem arrayMethod (array : Nat) (m : Method) (values : List Value) :
    Accord D d (r.arrayMethod array m values place)
      ((r.via run').arrayMethod array m values place) := by
  cases m
  case map | filter | forEach =>
    exact (simple_itemsOf _).accord.then fun items => h.arrayTraversal hplace items _ _ _
  all_goals exact (simple_arrayMethod hplace r array (by decide) values).accord

theorem replacement (f : Value) (pattern : String) :
    Accord D d (r.replacement f pattern place) ((r.via run').replacement f pattern place) := by
  unfold Runner.replacement
  split
  · exact (h.call hplace _ _).then fun _ => (simple_textOf _).accord
  · exact (simple_textOf _).accord

theorem stringMethod (s : String) (m : Method) (values : List Value) :
    Accord D d (r.stringMethod s m values place)
      ((r.via run').stringMethod s m values place) := by
  cases m
  case replace =>
    refine (simple_textOf _).accord.then fun pattern => ?_
    split
    · exact (h.replacement hplace _ _).then fun _ => accord_pure _
    · exact accord_pure _
  all_goals exact (simple_stringMethod hplace r s (by decide) values).accord

theorem callMethod (receiver : Value) (m : Method) (values : List Value) :
    Accord D d (r.callMethod receiver m values place)
      ((r.via run').callMethod receiver m values place) := by
  unfold Runner.callMethod
  split
  · exact h.arrayMethod hplace _ _ _
  · exact h.stringMethod hplace _ _ _
  · exact (simple_numberMethod hplace _ _ _).accord
  · exact (simple_noMethod hplace _).accord

end

variable (h : r.Coupled D silent d run')
include h

/-! ## Patterns -/

theorem bindFields {list : List PatternField} (hlist : MeetFields D silent list) (value : Value)
    (scope : Nat) (constant : Bool) {place : Nat} (hplace : D.place place) :
    Accord D d (r.bindFields value scope constant place list)
      ((r.via run').bindFields value scope constant place list) := by
  induction list with
  | nil => exact accord_pure _
  | cons field rest ih =>
    obtain ⟨key, p⟩ := field
    obtain ⟨hkey, hp, hrest⟩ := hlist
    refine (h.textOf hkey scope).then fun name => ?_
    refine (simple_getMember hplace _ _).accord.then fun part => ?_
    exact (h.bind hp _ _ _).then fun _ => (ih hrest).then fun _ => accord_pure _

theorem bindRest {rest : Pattern} (hrest : rest.Meets D silent) (value : Value)
    (used : List String) (scope : Nat) (constant : Bool) :
    Accord D d (r.bindRest rest value used scope constant)
      ((r.via run').bindRest rest value used scope constant) := by
  refine (simple_keysOf value).accord.then fun keys => Accord.get fun m => ?_
  exact (simple_newObject _).accord.then fun _ => h.bind hrest _ _ _

theorem bindElements {list : List Pattern} (hlist : MeetPatterns D silent list) (scope : Nat)
    (constant : Bool) (values : List Value) :
    Accord D d (r.bindElements scope constant list values)
      ((r.via run').bindElements scope constant list values) := by
  induction list generalizing values with
  | nil => exact accord_pure _
  | cons p rest ih => exact (h.bind hlist.1 _ _ _).then fun _ => ih hlist.2 _

theorem bindStep {p : Pattern} (hp : p.Meets D silent) (value : Value) (scope : Nat)
    (constant : Bool) :
    Accord D d (r.bindStep p value scope constant)
      ((r.via run').bindStep p value scope constant) := by
  cases p with
  | hole => exact accord_pure _
  | name span name => exact (Simple.declare _ _ _ _).accord
  | object span fields rest =>
    obtain ⟨hspan, hfields, hrest⟩ := hp
    have hplace := Demand.place_start hspan
    simp only [Runner.bindStep]
    split
    case' isTrue =>
      refine (simple_textOf _).accord.then fun _ => ?_
      refine (simple_raise hplace _ _).accord.then fun _ => ?_
    all_goals
      refine (h.bindFields hfields _ _ _ hplace).then fun used => ?_
      split
      · exact accord_pure _
      · exact h.bindRest hrest _ _ _ _
  | array span elements rest =>
    obtain ⟨hspan, helements, hrest⟩ := hp
    refine (simple_iterate (Demand.place_start hspan) _ _).accord.then fun items => ?_
    refine (h.bindElements helements _ _ _).then fun _ => ?_
    split
    · exact accord_pure _
    · exact (simple_newArray _).accord.then fun _ => h.bind hrest _ _ _
  | fallback span p e =>
    simp only [Runner.bindStep]
    split
    · exact (h.expression hp.2 scope).then fun _ => h.bind hp.1 _ _ _
    · exact h.bind hp.1 _ _ _

/-! ## Literals and operators -/

theorem templateFrom {list : List Expr} (hlist : MeetExprs D silent list) (scope : Nat)
    (texts : List String) :
    Accord D d (r.templateFrom scope texts list) ((r.via run').templateFrom scope texts list) := by
  induction list generalizing texts with
  | nil => cases texts <;> exact accord_pure _
  | cons e rest ih =>
    cases texts with
    | nil => exact accord_pure _
    | cons text texts =>
      exact (h.textOf hlist.1 scope).then fun _ => (ih hlist.2 texts).then fun _ => accord_pure _

theorem members {list : List Member} (hlist : MeetMembers D silent list) (scope : Nat)
    (fields : Fields) :
    Accord D d (r.members scope fields list) ((r.via run').members scope fields list) := by
  induction list generalizing fields with
  | nil => exact accord_pure _
  | cons member rest ih =>
    cases member with
    | field key value =>
      obtain ⟨hkey, hvalue, hrest⟩ := hlist
      refine (h.textOf hkey scope).then fun _ => ?_
      exact (h.expression hvalue scope).then fun _ => ih hrest _
    | spread span e =>
      refine (h.expression hlist.1 scope).then fun _ => ?_
      exact (simple_spreadFields _ _).accord.then fun _ => ih hlist.2 _

theorem sequence {list : List Expr} (hlist : MeetExprs D silent list) (scope : Nat)
    (last : Value) :
    Accord D d (r.sequence scope last list) ((r.via run').sequence scope last list) := by
  induction list generalizing last with
  | nil => exact accord_pure _
  | cons e rest ih => exact (h.expression hlist.1 scope).then fun _ => ih hlist.2 _

theorem unary {operand : Expr} (he : operand.Meets D silent) (op : UnaryOp) (scope : Nat) :
    Accord D d (r.unary op operand scope) ((r.via run').unary op operand scope) := by
  unfold Runner.unary
  split
  case h_1 => simp
  case h_2 owner _ _ _ =>
    refine (h.expression he.2.2 scope).then fun v => ?_
    exact (simple_eraseMember _ _).accord.then fun _ => accord_pure _
  case h_3 =>
    refine (h.expression he.2.1 scope).then fun owner => ?_
    refine (h.textOf he.2.2 scope).then fun key => ?_
    exact (simple_eraseMember _ _).accord.then fun _ => accord_pure _
  case h_4 => exact accord_pure _
  case h_5 => exact (h.expression he scope).then fun _ => (simple_unaryValue _ _).accord

/-! ## Assignments -/

theorem combine {e : Expr} (he : e.Meets D silent) (op : AssignOp) (current : Value)
    (scope : Nat) {place : Nat} (hplace : D.place place) :
    Accord D d (r.combine op current e scope place)
      ((r.via run').combine op current e scope place) := by
  cases op with
  | plain => exact (h.expression he scope).then fun _ => accord_pure _
  | compound op =>
    exact (h.expression he scope).then fun _ =>
      (simple_binaryValue hplace _ _ _).accord.then fun _ => accord_pure _
  | logical op =>
    simp only [Runner.combine]
    split
    · exact accord_pure _
    · exact (h.expression he scope).then fun _ => accord_pure _

/-- An assignment, once the value that its target has is known. -/
theorem store {e : Expr} (he : e.Meets D silent) (op : AssignOp) (current : Value)
    (scope : Nat) {place : Nat} (hplace : D.place place) {set : Value → Exec Unit}
    (hset : ∀ v, Accord D d (set v) (set v)) :
    Accord D d
      (do
        let (value, stored) ← r.combine op current e scope place
        if stored then set value
        return value)
      (do
        let (value, stored) ← (r.via run').combine op current e scope place
        if stored then set value
        return value) := by
  refine (h.combine he op current scope hplace).then fun (value, stored) => ?_
  simp [hset]

theorem assignMember {e : Expr} (he : e.Meets D silent) (owner : Value) (key : String)
    (op : AssignOp) (scope : Nat) {place : Nat} (hplace : D.place place) :
    Accord D d (r.assignMember owner key op e scope place)
      ((r.via run').assignMember owner key op e scope place) := by
  have hstore current := h.store he op current scope hplace fun v =>
    (simple_setMember hplace owner key v).accord
  unfold Runner.assignMember
  split
  · exact (accord_pure _).then hstore
  · exact (simple_getMember hplace _ _).accord.then hstore

theorem assign {target : Target} {e : Expr} (htarget : target.Meets D silent)
    (he : e.Meets D silent) (op : AssignOp) (scope : Nat) {span : Span} (hspan : D.span span) :
    Accord D d (r.assign op target e scope span) ((r.via run').assign op target e scope span) := by
  have hplace := Demand.place_start hspan
  cases target with
  | name nameSpan name =>
    have hname := Demand.place_start htarget
    have hstore current := h.store he op current scope hplace fun v =>
      (simple_assignVariable hname scope name v).accord
    simp only [Runner.assign]
    split
    · exact (accord_pure _).then hstore
    · exact (simple_readVariable hname _ _).accord.then hstore
  | member owner name nameSpan =>
    refine (h.expression htarget.2 scope).then fun _ => ?_
    exact h.assignMember he _ _ _ _ (Demand.place_start htarget.1)
  | index span owner key =>
    obtain ⟨_, howner, hkey⟩ := htarget
    refine (h.expression howner scope).then fun _ => (h.textOf hkey scope).then fun _ => ?_
    exact h.assignMember he _ _ _ _ hkey.place
  | unsupported span => exact (simple_raise (Demand.place_start htarget) _ _).accord
  | «variable» kind p => exact (simple_raise hplace _ _).accord

theorem addTo {target : Target} (htarget : target.Meets D silent) (step : Float) (scope : Nat)
    {place : Nat} (hplace : D.place place) :
    Accord D d (r.addTo step target scope place) ((r.via run').addTo step target scope place) := by
  cases target with
  | name span name =>
    have hname := Demand.place_start htarget
    refine (simple_readVariable hname _ _).accord.then fun v => ?_
    refine (simple_numberOf v).accord.then fun old => ?_
    exact (simple_assignVariable hname _ _ _).accord.then fun _ => accord_pure _
  | member owner name nameSpan =>
    have hname := Demand.place_start htarget.1
    refine (h.expression htarget.2 scope).then fun owner => ?_
    refine (simple_getMember hname _ _).accord.then fun v => ?_
    refine (simple_numberOf v).accord.then fun old => ?_
    exact (simple_setMember hname _ _ _).accord.then fun _ => accord_pure _
  | index span owner key =>
    obtain ⟨hspan, howner, hkey⟩ := htarget
    have hindex := Demand.place_start hspan
    refine (h.expression howner scope).then fun owner => (h.textOf hkey scope).then fun name => ?_
    refine (simple_getMember hindex _ _).accord.then fun v => ?_
    refine (simple_numberOf v).accord.then fun old => ?_
    exact (simple_setMember hindex _ _ _).accord.then fun _ => accord_pure _
  | unsupported span => exact (simple_raise (Demand.place_start htarget) _ _).accord
  | «variable» kind p => exact (simple_raise hplace _ _).accord

/-! ## Members and calls -/

theorem member {owner : Expr} (howner : owner.Meets D silent) (name : String) {nameSpan : Span}
    (hname : D.span nameSpan) (optional : Bool) (scope : Nat) :
    Accord D d (r.member owner name nameSpan optional scope)
      ((r.via run').member owner name nameSpan optional scope) := by
  refine (h.expression howner scope).then fun owner => ?_
  split
  · exact accord_pure _
  · exact (simple_getMember (Demand.place_start hname) _ _).accord

theorem index {owner key : Expr} (howner : owner.Meets D silent) (hkey : key.Meets D silent)
    (optional : Bool) (scope : Nat) :
    Accord D d (r.index owner key optional scope)
      ((r.via run').index owner key optional scope) := by
  refine (h.expression howner scope).then fun owner => ?_
  split
  · exact accord_pure _
  · exact (h.textOf hkey scope).then fun _ => (simple_getMember hkey.place _ _).accord

omit h in
theorem callExpression (h : r.Coupled D false d run') {callee : Expr} {list : List Element}
    (hcallee : callee.Meets D false) (hlist : MeetElements D false list) (optional : Bool)
    (scope : Nat) {place : Nat} (hplace : D.place place) :
    Accord D d (r.callExpression callee list optional scope place)
      ((r.via run').callExpression callee list optional scope place) := by
  refine accord_tick.then fun _ => (h.expression hcallee scope).then fun f => ?_
  split
  · exact accord_pure _
  · refine (h.elements hlist scope).then fun values => ?_
    split
    · exact h.call hplace _ _
    · exact (simple_raise hcallee.place _ _).accord

omit h in
theorem construct (h : r.Coupled D false d run') {callee : Expr} {list : List Element}
    (hcallee : callee.Meets D false) (hlist : MeetElements D false list) (scope : Nat)
    {place : Nat} (hplace : D.place place) :
    Accord D d (r.construct callee list scope place)
      ((r.via run').construct callee list scope place) := by
  refine accord_tick.then fun _ => (h.expression hcallee scope).then fun f => ?_
  refine (h.elements hlist scope).then fun values => ?_
  split
  · split
    · exact h.call hplace _ _
    · exact (simple_raise hcallee.place _ _).accord
  · exact (simple_raise hcallee.place _ _).accord

/-- One step of evaluating an expression. -/
theorem expressionStep {e : Expr} (he : e.Meets D silent) (scope : Nat) :
    Accord D d (r.expressionStep e scope) ((r.via run').expressionStep e scope) := by
  have hplace := he.place
  cases e with
  | boolean | null | number | string | this => exact accord_pure _
  | template span texts values =>
    exact (h.templateFrom he.2 scope texts).then fun _ => accord_pure _
  | name span name => exact (simple_readVariable hplace _ _).accord
  | paren span inner => exact h.expression he.2 scope
  | await span inner => exact h.expression he.2 scope
  | sequence span items => exact h.sequence he.2 scope _
  | array span elements => exact (h.elements he.2 scope).then fun _ => (simple_newArray _).accord
  | object span members => exact (h.members he.2 scope _).then fun _ => (simple_newObject _).accord
  | function span name parameters body => exact accord_newFunction name scope he.2.1 he.2.2
  | unary span op operand => exact h.unary he.2 op scope
  | binary span op left right =>
    refine (h.expression he.2.1 scope).then fun a => (h.expression he.2.2 scope).then fun b => ?_
    exact (simple_binaryValue hplace _ _ _).accord
  | logical span op left right =>
    refine (h.expression he.2.1 scope).then fun first => ?_
    split
    · exact accord_pure _
    · exact h.expression he.2.2 scope
  | conditional span test yes no =>
    refine (h.expression he.2.1 scope).then fun v => ?_
    split
    · exact h.expression he.2.2.1 scope
    · exact h.expression he.2.2.2 scope
  | assign span op target value => exact h.assign he.2.1 he.2.2 op scope he.1
  | update span increment first target =>
    exact (h.addTo he.2 _ scope hplace).then fun _ => accord_pure _
  | member span owner name nameSpan optional => exact h.member he.2.2 _ he.2.1 _ _
  | index span owner key optional => exact h.index he.2.1 he.2.2 _ _
  | call span callee arguments optional =>
    obtain ⟨_, rfl, hcallee, hlist⟩ := he
    exact callExpression h hcallee hlist _ _ hplace
  | new span callee arguments =>
    obtain ⟨_, rfl, hcallee, hlist⟩ := he
    exact construct h hcallee hlist _ hplace
  | chain span inner =>
    have hinner : Accord D d (r.expression inner scope) ((r.via run').expression inner scope) :=
      h.expression he.2 scope
    cases inner with
    | privateMember span => exact (simple_raise he.2.place _ _).accord
    | _ => exact hinner
  | privateMember span | unsupported span => exact (simple_raise hplace _ _).accord

end Runner.Coupled

end Stencil.Script
