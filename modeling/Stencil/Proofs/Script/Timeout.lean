import Stencil.Proofs.Script.Interruption
import Stencil.Proofs.Script.Writing

/-! # Runs whose time is over

What was said of expressions goes on to statements, to calls, and by induction on the depth to whole
runs.  So a run whose time is over is reported with just that, whatever the script has around the
place where its time was over.
-/
namespace Stencil.Script

variable {good : List Stmt → Prop}

/-- Statements of which all finalizers are good are such statements each. -/
theorem KeepStmts.of_mem {list : List Stmt} (hlist : KeepStmts good list) {s : Stmt}
    (hs : s ∈ list) : s.Keeps good := by
  induction list with
  | nil => cases hs
  | cons first rest ih =>
    rcases List.mem_cons.1 hs with rfl | hs
    · exact hlist.1
    · exact ih hlist.2 hs

theorem steady_hoist {s : Stmt} (hs : s.Keeps good) (scope : Nat) :
    Steady good (hoist scope s) := by
  cases s with
  | function name parameters body =>
    exact (steady_newFunction _ scope hs.1 hs.2).then fun f => (Simple.declare _ _ _ _).steady
  | «variables» kind declarators => exact (simple_hoist scope kind declarators).steady
  | _ => exact steady_pure _

namespace Runner.Reliable

variable {r : Runner} (h : r.Reliable good)

include h

/-! ## Lists of statements -/

theorem statements {list : List Stmt} (hlist : KeepStmts good list) (scope : Nat) :
    Steady good (r.statements scope list) := by
  induction list with
  | nil => exact steady_pure _
  | cons s rest ih =>
    refine (h.statement s hlist.1 scope).then fun flow => ?_
    split
    · exact ih hlist.2
    · exact steady_pure _

theorem block {list : List Stmt} (hlist : KeepStmts good list) (scope : Nat) :
    Steady good (r.block list scope) := by
  refine Steady.then (steady_forIn fun s hs => ?_) fun _ => h.statements hlist scope
  exact (steady_hoist (hlist.of_mem hs) scope).then fun _ => steady_pure _

theorem innerBlock {list : List Stmt} (hlist : KeepStmts good list) (scope : Nat) :
    Steady good (r.innerBlock list scope) :=
  (Simple.child _ _).steady.then fun inner => h.block hlist inner

/-! ## Declarations -/

theorem declareAll {list : List Declarator} (hlist : KeepDeclarators good list)
    (kind : VariableKind) (scope target : Nat) :
    Steady good (r.declareAll kind scope target list) := by
  induction list with
  | nil => exact steady_pure _
  | cons d rest ih =>
    obtain ⟨p, _ | e⟩ := d
    · have hbind : Steady good (r.bind p .undefined target (kind = .const)) :=
        h.bind p hlist.1 _ _ _
      simp only [Runner.declareAll]
      split
      · exact ih hlist.2
      · exact hbind.then fun _ => ih hlist.2
    · obtain ⟨hp, he, hrest⟩ := hlist
      refine (h.expression e he scope).then fun v => ?_
      exact (h.bind p hp _ _ _).then fun _ => ih hrest

/-! ## Loops -/

omit h in
theorem repeatFrom {round : Exec (Option Flow)} (hround : Steady good round) (n : Nat) :
    Steady good (Runner.repeatFrom round n) := by
  induction n with
  | zero => exact steady_throw _
  | succ n ih =>
    refine hround.then fun result => ?_
    split
    · exact steady_pure _
    · exact ih

theorem forLoop {start body : Stmt} {test update : Option Expr} (hstart : start.Keeps good)
    (htest : KeepOption good test) (hupdate : KeepOption good update) (hbody : body.Keeps good)
    (scope : Nat) : Steady good (r.forLoop start test update body scope) := by
  refine (Simple.child _ _).steady.then fun inner => ?_
  refine (h.statement start hstart inner).then fun _ => ?_
  refine repeatFrom (steady_tick.then fun _ => ?_) _
  cases test
  case' none => refine (steady_pure _).then fun goesOn => ?_
  case' some e => refine ((h.expression e htest inner).map _).then fun goesOn => ?_
  all_goals
    cases goesOn with
    | false => exact steady_pure _
    | true =>
      refine (h.statement body hbody inner).then fun flow => ?_
      split
      · exact steady_pure _
      · cases update with
        | none => exact steady_pure _
        | some e => exact (h.expression e hupdate inner).then fun _ => steady_pure _

theorem bindItem {target : Target} (htarget : target.Keeps good) (item : Value)
    (outer inner : Nat) : Steady good (r.bindItem target item outer inner) := by
  cases target with
  | «variable» kind p =>
    exact (simple_targetScope kind inner).steady.then fun _ => h.bind p htarget _ _ _
  | name span name => exact (simple_assignVariable anyPlace _ _ _).steady
  | _ => exact (simple_raise anyPlace _ _).steady

theorem forItems {target : Target} {body : Stmt} (htarget : target.Keeps good)
    (hbody : body.Keeps good) (scope : Nat) (items : List Value) :
    Steady good (r.forItems target body scope items) := by
  induction items with
  | nil => exact steady_pure _
  | cons item rest ih =>
    refine steady_tick.then fun _ => (Simple.child _ _).steady.then fun inner => ?_
    refine (h.bindItem htarget _ _ _).then fun _ => ?_
    refine (h.statement body hbody inner).then fun flow => ?_
    split
    · exact steady_pure _
    · exact ih

theorem forEach {target : Target} {collection : Expr} {body : Stmt} (htarget : target.Keeps good)
    (hcollection : collection.Keeps good) (hbody : body.Keeps good) (traversal : Traversal)
    (scope : Nat) : Steady good (r.forEach traversal target collection body scope) := by
  refine (h.expression _ hcollection scope).then fun v => ?_
  cases traversal with
  | values =>
    exact (simple_iterate anyPlace _ _).steady.then fun items =>
      h.forItems htarget hbody scope items
  | keys =>
    exact ((simple_keysOf v).steady.map _).then fun items => h.forItems htarget hbody scope items

theorem whileLoop {test : Expr} {body : Stmt} (htest : test.Keeps good) (hbody : body.Keeps good)
    (scope : Nat) : Steady good (r.whileLoop test body scope) := by
  refine repeatFrom (steady_tick.then fun _ => (h.expression _ htest scope).then fun v => ?_) _
  split
  · exact (h.statement _ hbody scope).then fun _ => steady_pure _
  · exact steady_pure _

theorem doLoop {test : Expr} {body : Stmt} (htest : test.Keeps good) (hbody : body.Keeps good)
    (scope : Nat) : Steady good (r.doLoop body test scope) := by
  refine repeatFrom (steady_tick.then fun _ => (h.statement _ hbody scope).then fun flow => ?_) _
  split
  · exact steady_pure _
  · refine (h.expression _ htest scope).then fun v => ?_
    split <;> exact steady_pure _

/-! ## Attempts -/

theorem tryCatch {list handler : List Stmt} {parameter : Pattern} (hlist : KeepStmts good list)
    (hparameter : parameter.Keeps good) (hhandler : KeepStmts good handler) (scope : Nat) :
    Steady good (r.tryCatch list parameter handler scope) := by
  refine (h.innerBlock hlist scope).catch (fun v place => ?_) fun why hwhy => ?_
  · refine (Simple.child _ _).steady.then fun inner => ?_
    exact (h.bind parameter hparameter _ _ _).then fun _ => h.block hhandler inner
  · cases why with
    | throw v place => cases hwhy
    | timeout | exhausted => rfl

/-- A good finalizer that is executed when the time is over. -/
theorem finalizer_over {finalizer : List Stmt} (hgood : good finalizer)
    (hfinalizer : KeepStmts good finalizer) (scope : Nat) {m : Machine} (hm : m.Keeps good) :
    ∃ m' : Machine, m'.Keeps good ∧
      (r.innerBlock finalizer scope (m.withLooks 0) = .ok .normal (m'.withLooks 0) ∨
        ∃ why, Abort.IsLimit why ∧
          r.innerBlock finalizer scope (m.withLooks 0) = .error why (m'.withLooks 0)) := by
  have hway := h.givesWay finalizer hgood scope m
  have hover := (h.innerBlock hfinalizer scope).stopped m hm
  generalize r.innerBlock finalizer scope (m.withLooks 0) = x at hway hover
  cases hover with
  | @ok flow m' _ hm' =>
    obtain rfl : flow = .normal := hway
    exact ⟨m', hm', .inl rfl⟩
  | @error why m' hm' => exact ⟨m', hm', .inr ⟨why, hway, rfl⟩⟩

theorem tryFinally {body : Stmt} {finalizer : List Stmt} (hgood : good finalizer)
    (hbody : body.Keeps good) (hfinalizer : KeepStmts good finalizer) (scope : Nat) :
    Steady good (r.tryFinally body finalizer scope) := by
  refine (h.statement body hbody scope).attempt (fun result => ?_) fun why m hwhy hm => ?_
  · refine (h.innerBlock hfinalizer scope).then fun flow => ?_
    split
    · split
      · exact steady_pure _
      · exact steady_throw _
    · exact steady_pure _
  · obtain ⟨m', hm', hend | ⟨why', hwhy', hend⟩⟩ := h.finalizer_over hgood hfinalizer scope hm
    · refine ⟨why, m', hwhy, hm', ?_⟩
      rw [bind_apply, hend]
      rfl
    · refine ⟨why', m', hwhy', hm', ?_⟩
      rw [bind_apply, hend]
      rfl

/-! ## Selections -/

theorem matching {list : List Case} (hlist : KeepCases good list) (v : Value) (scope : Nat) :
    InStep good (r.matching v scope list) fun found => ∀ rest ∈ found, KeepCases good rest := by
  induction list with
  | nil => exact .pure fun _ hrest => by cases hrest
  | cons c rest ih =>
    obtain ⟨_ | e, body⟩ := c
    · exact ih hlist.2
    · refine InStep.then (h.expression e hlist.1 scope) fun value => ?_
      split
      · refine .pure fun _ hrest => ?_
        cases hrest
        exact hlist
      · exact ih hlist.2.2

omit h in
theorem keepCases_dropWhile {list : List Case} (hlist : KeepCases good list) (p : Case → Bool) :
    KeepCases good (list.dropWhile p) := by
  induction list with
  | nil => exact hlist
  | cons c rest ih =>
    rw [List.dropWhile_cons]
    split
    · obtain ⟨_ | e, body⟩ := c
      · exact ih hlist.2
      · exact ih hlist.2.2
    · exact hlist

theorem cases {list : List Case} (hlist : KeepCases good list) (scope : Nat) :
    Steady good (r.cases scope list) := by
  induction list with
  | nil => exact steady_pure _
  | cons c rest ih =>
    have hbody : KeepStmts good c.2 ∧ KeepCases good rest := by
      obtain ⟨_ | e, body⟩ := c
      · exact hlist
      · exact hlist.2
    obtain ⟨test, body⟩ := c
    refine (h.statements hbody.1 scope).then fun flow => ?_
    split
    · exact ih hbody.2
    · exact steady_pure _
    · exact steady_pure _

theorem select {e : Expr} {list : List Case} (he : e.Keeps good) (hlist : KeepCases good list)
    (scope : Nat) : Steady good (r.select e list scope) := by
  refine (h.expression e he scope).then fun v => (Simple.child _ _).steady.then fun inner => ?_
  refine (h.matching hlist v inner).bind fun found hfound => ?_
  split
  · exact h.cases (hfound _ rfl) inner
  · exact h.cases (keepCases_dropWhile hlist _) inner

theorem statementStep {s : Stmt} (hs : s.Keeps good) (scope : Nat) :
    Steady good (r.statementStep s scope) := by
  cases s with
  | empty | function | «break» | «continue» => exact steady_pure _
  | expression e => exact (h.expression e hs scope).then fun _ => steady_pure _
  | «variables» kind list =>
    refine (simple_targetScope kind scope).steady.then fun target => ?_
    exact (h.declareAll hs kind scope target).then fun _ => steady_pure _
  | block list => exact h.innerBlock hs scope
  | branch test yes no =>
    refine (h.expression test hs.1 scope).then fun v => ?_
    split
    · exact h.statement yes hs.2.1 scope
    · exact h.statement no hs.2.2 scope
  | forLoop start test update body => exact h.forLoop hs.1 hs.2.1 hs.2.2.1 hs.2.2.2 scope
  | forEach traversal target collection body =>
    exact h.forEach hs.1 hs.2.1 hs.2.2 traversal scope
  | whileLoop test body => exact h.whileLoop hs.1 hs.2 scope
  | doLoop body test => exact h.doLoop hs.1 hs.2 scope
  | «return» value =>
    cases value with
    | none => exact steady_pure _
    | some e => exact (h.expression e hs scope).then fun _ => steady_pure _
  | throw e => exact (h.expression e hs scope).then fun v => steady_throw _
  | tryCatch list parameter handler => exact h.tryCatch hs.1 hs.2.1 hs.2.2 scope
  | tryFinally body finalizer => exact h.tryFinally hs.1 hs.2.1 hs.2.2 scope
  | select e list => exact h.select hs.1 hs.2 scope
  | unsupported span => exact (simple_raise anyPlace _ _).steady

/-! ## Functions of the script -/

theorem bindParameters {list : List Pattern} (hlist : KeepPatterns good list) (scope : Nat)
    (values : List Value) : Steady good (r.bindParameters scope list values) := by
  induction list generalizing values with
  | nil => exact steady_pure _
  | cons p rest ih => exact (h.bind p hlist.1 _ _ _).then fun _ => ih hlist.2 _

omit h in
theorem deeper {α : Type} {step : Exec α} (hstep : Steady good step) :
    Steady good (Runner.deeper step) := by
  have hdepth : ∀ change : Nat → Nat, Steady good
      (modify fun m : Machine => { m with depth := change m.depth }) :=
    fun _ => steady_modify (fun _ _ => rfl) fun _ => rfl
  refine (hdepth (· + 1)).then fun _ => ?_
  refine hstep.attempt (fun result => ?_) fun why m hwhy hm => ?_
  · refine (hdepth (· - 1)).then fun _ => ?_
    split
    · exact steady_pure _
    · exact steady_throw _
  · exact ⟨why, { m with depth := m.depth - 1 }, hwhy, hm, rfl⟩

theorem callClosure {closure : Closure} (hparameters : KeepPatterns good closure.parameters)
    (hbody : KeepStmts good closure.body) (values : List Value) (place : Nat) :
    Steady good (r.callClosure closure values place) := by
  refine Steady.get (fun _ _ => rfl) fun m => ?_
  split
  case' isTrue => refine (simple_raise anyPlace _ _).steady.then fun _ => ?_
  all_goals
    refine (Simple.child _ _).steady.then fun scope => ?_
    refine (h.bindParameters hparameters scope values).then fun _ => ?_
    refine (deeper (h.block hbody scope)).then fun flow => ?_
    split <;> exact steady_pure _

theorem callStep (callee : Value) (values : List Value) (place : Nat) :
    Steady good (r.callStep callee values place) := by
  unfold Runner.callStep
  split
  · exact InStep.get (fun _ _ => rfl) fun m hm => h.callClosure (hm _).1 (hm _).2 values place
  · exact (simple_callNative trivial _ _).steady
  · exact h.callMethod _ _ _ _
  · exact (simple_textOf _).steady.then fun _ => (simple_raise anyPlace _ _).steady

/-- One step of any task. -/
theorem step {task : Task} (htask : task.Keeps good) : Steady good (r.step task) := by
  cases task with
  | expression e scope => exact h.expressionStep htask scope
  | statement s scope => exact h.statementStep htask scope
  | bind p value scope constant => exact h.bindStep htask value scope constant
  | call callee values place => exact h.callStep callee values place

end Runner.Reliable

/-! ## Whole runs -/

/-- A finalizer that gives way however deep it stands in a run. -/
def AlwaysGivesWay (source : List Char) (bound : Nat) (finalizer : List Stmt) : Prop :=
  ∀ depth, (Runner.deep source bound depth).GivesWay finalizer

variable {source : List Char} {bound : Nat}

/-- **Every runner keeps two clocks in step**, by induction on the depth that it goes down. -/
theorem reliable_deep (source : List Char) (bound depth : Nat) :
    (Runner.deep source bound depth).Reliable (AlwaysGivesWay source bound) := by
  refine ⟨?_, fun _ hgood => hgood depth⟩
  induction depth with
  | zero => exact fun task _ => steady_throw _
  | succ depth ih =>
    have h : (Runner.deep source bound depth).Reliable (AlwaysGivesWay source bound) :=
      ⟨ih, fun _ hgood => hgood depth⟩
    exact fun task htask => h.step htask

theorem steady_execProgram (globals : Globals) {program : Program}
    (hprogram : KeepStmts (AlwaysGivesWay source bound) program) :
    Steady (AlwaysGivesWay source bound) (execProgram source bound globals program) :=
  (simple_install globals).steady.then fun _ =>
    ((reliable_deep source bound bound).block hprogram _).then fun _ => steady_pure _

theorem withLooks_start (clock : Clock) (looks : Nat) :
    (Machine.start clock).withLooks looks = .start ⟨some looks⟩ := rfl

/-- What a whole run is reported with. -/
def Ending.report (source : List Char) : Ending Unit → Except ScriptError String
  | .ok _ m => .ok m.output
  | .error why m => .error (reportAbort source m.heap why)

theorem runProgram_eq_report (globals : Globals) (clock : Clock) (program : Program) :
    runProgram source bound globals clock program =
      Ending.report source (execProgram source bound globals program (.start clock)) := by
  unfold runProgram
  cases execProgram source bound globals program (.start clock) <;> rfl

/-- That a limit was reached is reported in the same way from every machine. -/
theorem reportAbort_limit {why : Abort} (h : why.IsLimit) (heap : Heap) :
    reportAbort source heap why = reportAbort source .empty why := by
  cases why with
  | throw v place => cases h
  | timeout | exhausted => rfl

theorem Over.looksLeft {α : Type} {post : α → Prop} {x : Ending α} (h : Over good post x) :
    (Ending.machine x).clock.looksLeft = some 0 := by
  cases h <;> rfl

/-- From the clock of the longer of two paired runs it can be read off how the shorter one ended. -/
theorem Paired.report {post : Unit → Prop} {x y : Ending Unit} (h : Paired good post x y) :
    ((Ending.machine y).clock.looksLeft = some 0 →
      ∃ why, Abort.IsLimit why ∧ Ending.report source x =
        .error (reportAbort source .empty why)) ∧
    ((Ending.machine y).clock.looksLeft ≠ some 0 →
      Ending.report source x = Ending.report source y) := by
  cases h with
  | ok n ha hm | error n hm => exact ⟨(nomatch ·), fun _ => rfl⟩
  | @stopped why m _ hwhy hm hover =>
    refine ⟨fun _ => ⟨why, hwhy, ?_⟩, fun h => absurd hover.looksLeft h⟩
    simp only [Ending.report, reportAbort_limit hwhy]

/-- A run on a clock that can be looked at `n` times raises that its time is over: on a clock that
can be looked at once more, it takes that look too. -/
def RaisesTimeout (source : List Char) (bound : Nat) (globals : Globals) (program : Program)
    (n : Nat) : Prop :=
  (Ending.machine
    (execProgram source bound globals program (.start ⟨some (n + 1)⟩))).clock.looksLeft = some 0

instance (globals : Globals) (program : Program) (n : Nat) :
    Decidable (RaisesTimeout source bound globals program n) :=
  inferInstanceAs (Decidable (_ = _))

/-- **That the time is over ends a run**, if all finalizers of the program give way: such a run is
reported with nothing else, up to the bound on the number of steps, and one whose time is not over
does not notice its clock.  No handler is executed. -/
theorem timeout_ends_run (globals : Globals) (program : Program)
    (hprogram : KeepStmts (AlwaysGivesWay source bound) program) :
    (∀ n, RaisesTimeout source bound globals program n →
      ∃ why, Abort.IsLimit why ∧ runProgram source bound globals ⟨some n⟩ program =
        .error (reportAbort source .empty why)) ∧
    (∀ n, ¬ RaisesTimeout source bound globals program n →
      runProgram source bound globals ⟨some n⟩ program =
        runProgram source bound globals ⟨some (n + 1)⟩ program) ∧
    ∀ (r : Runner) (list handler : List Stmt) (parameter : Pattern) (scope : Nat) (m m' : Machine),
      r.innerBlock list scope m = .error .timeout m' →
      r.tryCatch list parameter handler scope m = .error .timeout m' := by
  have hpaired n : Paired (AlwaysGivesWay source bound) (fun _ => True)
      (execProgram source bound globals program (.start ⟨some n⟩))
      (execProgram source bound globals program (.start ⟨some (n + 1)⟩)) := by
    -- the machine of a run that has not begun keeps no functions
    have h := (steady_execProgram globals hprogram).paired (.start ⟨none⟩) n
      fun _ => ⟨trivial, trivial⟩
    rwa [withLooks_start, withLooks_start] at h
  refine ⟨fun n hraises => ?_, fun n hraises => ?_, fun r list handler parameter scope m m' h => ?_⟩
  · rw [runProgram_eq_report]
    exact (hpaired n).report.1 hraises
  · rw [runProgram_eq_report, runProgram_eq_report]
    exact (hpaired n).report.2 hraises
  · unfold Runner.tryCatch EStateM.tryCatch
    rw [h]
    rfl

/-- A finalizer that is a call gives way: before anything else the clock is looked at. -/
theorem alwaysGivesWay_call (span : Span) (callee : Expr) (list : List Element) (optional : Bool) :
    AlwaysGivesWay source bound [.expression (.call span callee list optional)]
  | 0, _, _ | 1, _, _ | _ + 2, _, _ => trivial

/-- A loop without end in an attempt with a handler that ends normally and a finalizer. -/
def endlessAttempt : Program :=
  [.tryFinally (.tryCatch [.whileLoop (.boolean default true) .empty] .hole [.empty])
    [.expression (.call default (.null default) [] false)]]

theorem endlessAttempt_times_out :
    RaisesTimeout [] 8 default endlessAttempt 1 ∧
      ∃ why, Abort.IsLimit why ∧ runProgram [] 8 default ⟨some 1⟩ endlessAttempt =
        .error (reportAbort [] .empty why) := by
  have hraises : RaisesTimeout [] 8 default endlessAttempt 1 := by decide +kernel
  have hattempt : KeepStmts (AlwaysGivesWay [] 8)
      [.whileLoop (.boolean default true) .empty] := ⟨⟨trivial, trivial⟩, trivial⟩
  have hfinalizer : KeepStmts (AlwaysGivesWay [] 8)
      [.expression (.call default (.null default) [] false)] := ⟨⟨trivial, trivial⟩, trivial⟩
  have hprogram : KeepStmts (AlwaysGivesWay [] 8) endlessAttempt :=
    ⟨⟨alwaysGivesWay_call _ _ _ _, ⟨hattempt, trivial, trivial, trivial⟩, hfinalizer⟩, trivial⟩
  exact ⟨hraises, (timeout_ends_run default endlessAttempt hprogram).1 1 hraises⟩

/-- A selection whose only case is a loop without end, with a finalizer that leaves the selection:
`switch (true) { default: try { while (true) {} } finally { break; } }`. -/
def leavingFinalizer : String :=
  " switch (true) \x7b default: try \x7b while (true) \x7b\x7d \x7d " ++
    "finally \x7b break; \x7d \x7d \n"

/-- A finalizer that does not give way hides that the time is over. -/
theorem leavingFinalizer_hides_timeout :
    (∃ program, readProgram leavingFinalizer = .ok program ∧
      RaisesTimeout leavingFinalizer.toList amplyBounded ⟨"/main.exp", .null⟩ program 0) ∧
    runScript leavingFinalizer ⟨"/main.exp", .null⟩ ⟨some 0⟩ = .ok "" := by
  have hraises : (match readProgram leavingFinalizer with
      | .ok program => decide (RaisesTimeout leavingFinalizer.toList amplyBounded
          ⟨"/main.exp", .null⟩ program 0)
      | .error _ => false) = true := by decide +kernel
  refine ⟨?_, by decide +kernel⟩
  cases hread : readProgram leavingFinalizer with
  | ok program =>
    rw [hread] at hraises
    exact ⟨program, rfl, of_decide_eq_true hraises⟩
  | error fault =>
    rw [hread] at hraises
    cases hraises

end Stencil.Script
