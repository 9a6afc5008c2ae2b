import Stencil.Proofs.Script.LastingRun
import Stencil.Proofs.Script.Accord

/-! # Functions are known before the statements

Before the first statement of a list is executed, the functions that the list declares itself are
bound in its scope, each name to the last function of that name.  No variable that is made known
beside them takes a name away from them.

A run can be checked for this: where it comes to a list of statements, the functions of the list are
looked up behind the declarations, and if one is missing, an alarm is raised.  A run that goes on in
the same way whatever the alarm does never comes to such a place.  The statements of a selection are
not a list of their own for the evaluator, and the functions that they declare are never bound.
-/
namespace Stencil.Script

/-! ## Names in a scope -/

namespace Scopes

theorem bindings_declare (scopes : Scopes) (place inside : Nat) (name : String) (value : Value)
    (constant : Bool) :
    (scopes.declare place name value constant).bindings inside =
      if inside = place ∧ place < scopes.size then
        bindName name ⟨value, constant⟩ (scopes.bindings place)
      else scopes.bindings inside := by
  unfold bindings declare
  simp only [Array.getD_eq_getD_getElem?, Array.getElem?_modify]
  by_cases hplace : inside = place
  · subst hplace
    by_cases hsize : inside < scopes.size
    · simp [hsize]
    · simp [hsize]
  · simp [hplace, Ne.symm hplace]

theorem lookup_bindings_declare (scopes : Scopes) (place inside : Nat) (name other : String)
    (value : Value) (constant : Bool) :
    ((scopes.declare place name value constant).bindings inside).lookup other =
      if (inside = place ∧ place < scopes.size) ∧ other = name then some ⟨value, constant⟩
      else (scopes.bindings inside).lookup other := by
  rw [bindings_declare]
  by_cases hplace : inside = place ∧ place < scopes.size
  · rw [if_pos hplace, lookup_bindName, hplace.1]
    simp [hplace.2]
  · simp [hplace]

theorem find?_of_lookup {scopes : Scopes} {place : Nat} {name : String} {binding : Binding}
    (h : (scopes.bindings place).lookup name = some binding) :
    scopes.find? place name = some (place, binding) := by
  rw [find?, h]

theorem hasLocal_of_lookup {scopes : Scopes} {place : Nat} {name : String} {binding : Binding}
    (h : (scopes.bindings place).lookup name = some binding) :
    scopes.hasLocal place name = true := by
  have hsome : ((scopes.bindings place).lookup name).isSome := by rw [h]; rfl
  obtain ⟨b, hb, hname⟩ := List.lookup_isSome_iff.mp hsome
  exact List.any_eq_true.mpr ⟨b, hb, beq_iff_eq.mpr (eq_of_beq hname).symm⟩

end Scopes

/-- A function of a name is the last one of that name that a list of statements declares itself. -/
def LastFunction (list : List Stmt) (name : String) (parameters : List Pattern)
    (body : List Stmt) : Prop :=
  ∃ front behind, list = front ++ .function name parameters body :: behind ∧
    ∀ parameters body, .function name parameters body ∉ behind

/-- A name is bound in a scope to a function that was made there. -/
def Machine.Binds (m : Machine) (scope : Nat) (name : String) (parameters : List Pattern)
    (body : List Stmt) : Prop :=
  ∃ f, (m.scopes.bindings scope).lookup name = some ⟨.function f (some name), false⟩ ∧
    m.closures[f]? = some ⟨parameters, body, scope⟩

/-- A later machine has as many scopes, and keeps the functions that are bound in one of them. -/
structure Machine.KeepsBound (scope : Nat) (m m' : Machine) : Prop where
  size : m'.scopes.size = m.scopes.size
  binds {name : String} {parameters : List Pattern} {body : List Stmt}
    (h : m.Binds scope name parameters body) : m'.Binds scope name parameters body

variable {scope : Nat} {m : Machine}

theorem Machine.KeepsBound.trans {first second third : Machine}
    (h : first.KeepsBound scope second) (h' : second.KeepsBound scope third) :
    first.KeepsBound scope third :=
  ⟨h'.size.trans h.size, fun hbinds => h'.binds (h.binds hbinds)⟩

/-- A variable that is made known, where its name is not taken, takes no name away. -/
theorem keepsBound_declare (target : Nat) (name : String) (value : Value) (constant : Bool)
    (hlocal : m.scopes.hasLocal target name = false) :
    m.KeepsBound scope { m with scopes := m.scopes.declare target name value constant } where
  size := Scopes.size_declare _ _ _ _
  binds := by
    rintro other parameters body ⟨f, hlookup, hclosure⟩
    refine ⟨f, ?_, hclosure⟩
    rw [Scopes.lookup_bindings_declare, if_neg ?_, hlookup]
    rintro ⟨⟨rfl, -⟩, rfl⟩
    rw [Scopes.hasLocal_of_lookup hlookup] at hlocal
    cases hlocal

theorem leads_hoist_variables (kind : VariableKind) (declarators : List Declarator) :
    Leads (· = m) (hoist scope (.variables kind declarators)) fun _ => m.KeepsBound scope := by
  have hsame : m.KeepsBound scope m := ⟨rfl, id⟩
  cases kind with
  | var =>
    refine leads_get.bind fun now => ?_
    rintro _ ⟨rfl, rfl⟩
    suffices hloop : Leads (now.KeepsBound scope) _ fun _ => now.KeepsBound scope from
      hloop now hsame
    refine Leads.bind (leads_forIn fun d _ => ?_) fun _ => leads_pure fun _ hm => hm
    split
    · refine leads_get.bind fun m => ?_
      rintro _ ⟨rfl, hkeeps⟩
      cases hlocal : m.scopes.hasLocal _ _ with
      | true => exact ⟨_, m, rfl, rfl, hkeeps⟩
      | false =>
        exact ⟨_, _, rfl, rfl, hkeeps.trans (keepsBound_declare _ _ .undefined false hlocal)⟩
    · exact leads_pure fun m hm => ⟨rfl, hm⟩
  | «let» | const => exact leads_pure fun _ hm => hm ▸ hsame

/-- Making known what a statement declares: a function is bound, and the others stay bound. -/
theorem hoist_spec (s : Stmt) (hscope : scope < m.scopes.size) :
    ∃ m', hoist scope s m = .ok () m' ∧ m'.scopes.size = m.scopes.size ∧
      (∀ name parameters body, s = .function name parameters body →
        m'.Binds scope name parameters body) ∧
      ∀ name parameters body, m.Binds scope name parameters body →
        (∀ parameters body, s ≠ .function name parameters body) →
          m'.Binds scope name parameters body := by
  cases s with
  | function name parameters body =>
    refine ⟨_, rfl, Scopes.size_declare _ _ _ _, ?_, ?_⟩
    · rintro _ _ _ ⟨⟩
      refine ⟨m.closures.size, ?_, ?_⟩
      · rw [Scopes.lookup_bindings_declare, if_pos ⟨⟨rfl, hscope⟩, rfl⟩]
      · exact Array.getElem?_push_size
    · rintro other parameters' body' ⟨f, hlookup, hclosure⟩ hother
      refine ⟨f, ?_, ?_⟩
      · rw [Scopes.lookup_bindings_declare, if_neg ?_]
        · exact hlookup
        · rintro ⟨-, rfl⟩
          exact hother _ _ rfl
      · have hold : f < m.closures.size := (Array.getElem?_eq_some_iff.mp hclosure).1
        show (m.closures.push _)[f]? = _
        rw [Array.getElem?_push, if_neg (Nat.ne_of_lt hold), hclosure]
  | «variables» kind declarators =>
    obtain ⟨_, m', hoisted, hkeeps⟩ := leads_hoist_variables kind declarators m rfl
    exact ⟨m', hoisted, hkeeps.size, fun _ _ _ h => (by cases h), fun _ _ _ h _ => hkeeps.binds h⟩
  | _ => exact ⟨m, rfl, rfl, fun _ _ _ h => (by cases h), fun _ _ _ h _ => h⟩

/-- Makes known what the statements of a list declare. -/
def hoistAll (scope : Nat) (list : List Stmt) : Exec Unit := do
  for s in list do hoist scope s

theorem Runner.block_eq (r : Runner) (list : List Stmt) (scope : Nat) :
    r.block list scope = (do
      hoistAll scope list
      r.statements scope list) := by
  simp only [hoistAll, bind_assoc, pure_bind]
  rfl

/-- Making known what a list declares: the last function of each name is bound, and those of other
names stay bound. -/
theorem hoistAll_spec (list : List Stmt) (hscope : scope < m.scopes.size) :
    ∃ m', hoistAll scope list m = .ok () m' ∧ m'.scopes.size = m.scopes.size ∧
      (∀ name parameters body, LastFunction list name parameters body →
        m'.Binds scope name parameters body) ∧
      ∀ name parameters body, m.Binds scope name parameters body →
        (∀ parameters body, .function name parameters body ∉ list) →
          m'.Binds scope name parameters body := by
  induction list generalizing m with
  | nil =>
    refine ⟨m, rfl, rfl, ?_, fun _ _ _ h _ => h⟩
    rintro name parameters body ⟨front, behind, hlist, -⟩
    simp at hlist
  | cons s rest ih =>
    obtain ⟨mid, hoisted, hsize, hbinds, hkeeps⟩ := hoist_spec s hscope
    obtain ⟨m', hrest, hsize', hbinds', hkeeps'⟩ := ih (hsize ▸ hscope : scope < mid.scopes.size)
    refine ⟨m', ?_, hsize'.trans hsize, ?_, ?_⟩
    · have hloop : hoistAll scope (s :: rest) = (do
          hoist scope s
          hoistAll scope rest) := by
        simp only [hoistAll, List.forIn_cons, bind_assoc, pure_bind]
      rw [hloop, bind_apply, hoisted]
      exact hrest
    · rintro name parameters body ⟨front, behind, hlist, hlast⟩
      cases front with
      | nil =>
        obtain ⟨rfl, rfl⟩ := List.cons.inj hlist
        exact hkeeps' _ _ _ (hbinds _ _ _ rfl) hlast
      | cons t front =>
        obtain ⟨rfl, rfl⟩ := List.cons.inj hlist
        exact hbinds' _ _ _ ⟨front, behind, rfl, hlast⟩
    · intro name parameters body h hother
      refine hkeeps' _ _ _ (hkeeps _ _ _ h ?_) ?_
      · rintro parameters body rfl
        exact hother _ _ List.mem_cons_self
      · exact fun parameters body hmem => hother _ _ (List.mem_cons_of_mem _ hmem)

/-! ## Checked runs -/

/-- Every function that a list declares itself is bound in a scope, where its name is found. -/
def Machine.Knows (m : Machine) (list : List Stmt) (scope : Nat) : Prop :=
  ∀ name parameters body, LastFunction list name parameters body →
    ∃ f, m.scopes.find? scope name = some (scope, ⟨.function f (some name), false⟩) ∧
      m.closures[f]? = some ⟨parameters, body, scope⟩

theorem knows_hoistAll (list : List Stmt) (hscope : scope < m.scopes.size) :
    ∃ m', hoistAll scope list m = .ok () m' ∧ m'.Knows list scope := by
  obtain ⟨m', hoisted, -, hbinds, -⟩ := hoistAll_spec list hscope
  refine ⟨m', hoisted, fun name parameters body hlast => ?_⟩
  obtain ⟨f, hlookup, hclosure⟩ := hbinds name parameters body hlast
  exact ⟨f, Scopes.find?_of_lookup hlookup, hclosure⟩

namespace Runner

variable (alarm : Exec Unit) (r : Runner)

open Classical in
/-- Executes a list of statements, unless a function of the list is not known. -/
noncomputable def checkedBlock (list : List Stmt) (scope : Nat) : Exec Flow := do
  hoistAll scope list
  unless (← get).Knows list scope do alarm
  r.statements scope list

/-- Executes a list of statements in a scope of its own. -/
noncomputable def checkedInnerBlock (list : List Stmt) (scope : Nat) : Exec Flow := do
  r.checkedBlock alarm list (← newScope scope false)

/-- Executes statements, and a handler for what they throw. -/
noncomputable def checkedTryCatch (list : List Stmt) (parameter : Pattern) (handler : List Stmt)
    (scope : Nat) : Exec Flow :=
  EStateM.tryCatch (r.checkedInnerBlock alarm list scope) fun
    | .throw value _ => do
      let inner ← newScope scope false
      r.bind parameter value inner false
      r.checkedBlock alarm handler inner
    | why => throw why

/-- Executes a statement, and then others whatever happened. -/
noncomputable def checkedTryFinally (body : Stmt) (finalizer : List Stmt) (scope : Nat) :
    Exec Flow := do
  let result : Except Abort Flow ←
    EStateM.tryCatch (Except.ok <$> r.statement body scope) fun why => return .error why
  match ← r.checkedInnerBlock alarm finalizer scope with
  | .normal =>
    match result with
    | .ok flow => return flow
    | .error why => throw why
  | flow => return flow

/-- One step of executing a statement. -/
noncomputable def checkedStatement (s : Stmt) (scope : Nat) : Exec Flow :=
  match s with
  | .block list => r.checkedInnerBlock alarm list scope
  | .tryCatch list parameter handler => r.checkedTryCatch alarm list parameter handler scope
  | .tryFinally body finalizer => r.checkedTryFinally alarm body finalizer scope
  | s => r.statementStep s scope

/-- Calls a function of the script. -/
noncomputable def checkedClosure (closure : Closure) (values : List Value) (place : Nat) :
    Exec Value := do
  if maxDepth ≤ (← get).depth then
    raise .rangeError "Maximum call stack size exceeded" place
  let scope ← newScope closure.scope true
  r.bindParameters scope closure.parameters values
  match ← deeper (r.checkedBlock alarm closure.body scope) with
  | .return v => return v
  | _ => return .undefined

/-- Calls a value. -/
noncomputable def checkedCall (callee : Value) (values : List Value) (place : Nat) :
    Exec Value := do
  match callee with
  | .function f _ => r.checkedClosure alarm ((← get).closures.getD f default) values place
  | callee => r.callStep callee values place

/-- One step of a task. -/
noncomputable def checkedStep : (task : Task) → Exec task.Result
  | .statement s scope => r.checkedStatement alarm s scope
  | .call callee values place => r.checkedCall alarm callee values place
  | task => r.step task

end Runner

/-- Runs a task in which every list of statements is checked. -/
noncomputable def checkedTask (alarm : Exec Unit) (source : List Char) (bound : Nat) :
    Nat → (task : Task) → Exec task.Result
  | 0, _ => throw .exhausted
  | depth + 1, task =>
    Runner.checkedStep alarm ⟨source, bound, checkedTask alarm source bound depth⟩ task

/-- Runs a program in which every list of statements is checked, on a new machine. -/
noncomputable def checkedProgram (alarm : Exec Unit) (source : List Char) (bound : Nat)
    (globals : Globals) (clock : Clock) (program : Program) : Except ScriptError String :=
  let exec : Exec Unit := do
    install globals
    let _ ← Runner.checkedBlock alarm ⟨source, bound, checkedTask alarm source bound bound⟩ program
      Scopes.globalPlace
  match exec (.start clock) with
  | .ok _ m => .ok m.output
  | .error why m => .error (reportAbort source m.heap why)

/-! ## No alarm is raised -/

/-- A later machine has the scopes that an earlier one has. -/
def Machine.ScopesLast (m : Machine) (_ : Option Abort) (m' : Machine) : Prop :=
  m.scopes.size ≤ m'.scopes.size

instance : Lasting Machine.ScopesLast where
  refl _ := Nat.le_refl _
  trans := Nat.le_trans
  handled := Nat.le_trans
  passed := Nat.le_trans
  throw _ _ _ := Nat.le_refl _
  exhausted _ := Nat.le_refl _
  timeout _ := Nat.le_refl _
  look _ := Nat.le_refl _
  heap _ _ := Nat.le_refl _
  closure _ _ := Nat.le_refl _
  child m parent isFunction := by simp [Machine.ScopesLast, Scopes.child]
  declare m place name value constant := (Scopes.size_declare _ _ _ _).ge
  output _ _ := Nat.le_refl _
  depth _ _ := Nat.le_refl _

section

variable {α β : Type}

/-- What follows a step is only asked about in machines that still have a scope. -/
theorem Follows.bind_congr {step : Exec α} {next next' : α → Exec β}
    (h : Follows Machine.ScopesLast step) (hscope : scope < m.scopes.size)
    (hnext : ∀ a m', scope < m'.scopes.size → next a m' = next' a m') :
    (step >>= next) m = (step >>= next') m := by
  have hstep := h m
  rw [bind_apply, bind_apply]
  cases hend : step m with
  | ok a m' =>
    rw [hend] at hstep
    exact hnext a m' (Nat.lt_of_lt_of_le hscope hstep)
  | error why m' => rfl

/-- What follows the making of a scope is only asked about in machines that have this scope. -/
theorem newScope_congr (parent : Nat) (isFunction : Bool) {next next' : Nat → Exec β}
    (hnext : ∀ inner m, inner < m.scopes.size → next inner m = next' inner m) :
    newScope parent isFunction >>= next = newScope parent isFunction >>= next' := by
  funext m
  exact hnext m.scopes.size _ (by simp)

end

namespace Runner

variable (alarm : Exec Unit) {r : Runner}

open Classical in
theorem checkedBlock_apply (list : List Stmt) (hscope : scope < m.scopes.size) :
    r.checkedBlock alarm list scope m = r.block list scope m := by
  obtain ⟨m', hoisted, hknows⟩ := knows_hoistAll list hscope
  rw [block_eq, checkedBlock, bind_apply, bind_apply, hoisted]
  show (if m'.Knows list scope then _ else _ : Exec Flow) m' = _
  rw [if_pos hknows]
  rfl

theorem checkedInnerBlock_eq (list : List Stmt) (scope : Nat) :
    r.checkedInnerBlock alarm list scope = r.innerBlock list scope :=
  newScope_congr scope false fun _ _ hinner => checkedBlock_apply alarm list hinner

theorem checkedTryFinally_eq (body : Stmt) (finalizer : List Stmt) (scope : Nat) :
    r.checkedTryFinally alarm body finalizer scope = r.tryFinally body finalizer scope :=
  bind_congr fun _ => congrArg (· >>= _) (checkedInnerBlock_eq alarm finalizer scope)

variable (hr : r.Lasts Machine.ScopesLast)

include hr

theorem checkedTryCatch_eq (list : List Stmt) (parameter : Pattern) (handler : List Stmt)
    (scope : Nat) :
    r.checkedTryCatch alarm list parameter handler scope =
      r.tryCatch list parameter handler scope := by
  unfold checkedTryCatch tryCatch
  rw [checkedInnerBlock_eq]
  congr 1
  funext why
  cases why with
  | throw value place =>
    refine newScope_congr scope false fun inner m hinner => ?_
    exact (hr.bind parameter value inner false).bind_congr hinner fun _ _ h =>
      checkedBlock_apply alarm handler h
  | timeout | exhausted => rfl

theorem checkedStatement_eq (s : Stmt) (scope : Nat) :
    r.checkedStatement alarm s scope = r.statementStep s scope := by
  cases s with
  | block list => exact checkedInnerBlock_eq alarm list scope
  | tryCatch list parameter handler =>
    exact checkedTryCatch_eq alarm hr list parameter handler scope
  | tryFinally body finalizer => exact checkedTryFinally_eq alarm body finalizer scope
  | _ => rfl

theorem checkedClosure_eq (closure : Closure) (values : List Value) (place : Nat) :
    r.checkedClosure alarm closure values place = r.callClosure closure values place := by
  have hcall (after : Flow → Exec Value) :
      (newScope closure.scope true >>= fun inner =>
        r.bindParameters inner closure.parameters values >>= fun _ =>
          deeper (r.checkedBlock alarm closure.body inner) >>= after) =
      newScope closure.scope true >>= fun inner =>
        r.bindParameters inner closure.parameters values >>= fun _ =>
          deeper (r.block closure.body inner) >>= after := by
    refine newScope_congr closure.scope true fun inner m hinner => ?_
    refine (hr.bindParameters inner closure.parameters values).bind_congr hinner fun _ m' h => ?_
    have hbody : deeper (r.checkedBlock alarm closure.body inner) m' =
        deeper (r.block closure.body inner) m' := by
      rw [deeper_apply, deeper_apply]
      congr 1
      exact checkedBlock_apply alarm closure.body h
    rw [bind_apply, bind_apply, hbody]
  refine bind_congr fun now => ?_
  split
  · exact bind_congr fun _ => hcall _
  · exact hcall _

theorem checkedCall_eq (callee : Value) (values : List Value) (place : Nat) :
    r.checkedCall alarm callee values place = r.callStep callee values place := by
  unfold checkedCall callStep
  simp only [checkedClosure_eq alarm hr]
  cases callee <;> rfl

theorem checkedStep_eq (task : Task) : r.checkedStep alarm task = r.step task := by
  cases task with
  | statement s scope => exact checkedStatement_eq alarm hr s scope
  | call callee values place => exact checkedCall_eq alarm hr callee values place
  | expression | bind => rfl

end Runner

theorem checkedTask_eq (alarm : Exec Unit) (source : List Char) (bound depth : Nat) :
    checkedTask alarm source bound depth = runTask source bound depth := by
  induction depth with
  | zero => rfl
  | succ depth ih =>
    funext task
    rw [checkedTask, ih]
    exact Runner.checkedStep_eq alarm (Runner.lasts_deep source bound depth) task

theorem checkedProgram_eq (alarm : Exec Unit) (source : List Char) (bound : Nat)
    (globals : Globals) (clock : Clock) (program : Program) :
    checkedProgram alarm source bound globals clock program =
      runProgram source bound globals clock program := by
  have hinstall : Follows Machine.ScopesLast (install globals) := (simple_install globals).follows
  have hglobal : Scopes.globalPlace < (Machine.start clock).scopes.size := Nat.zero_lt_one
  have hexec : (install globals >>= fun _ =>
      Runner.checkedBlock alarm (Runner.bounded source bound) program Scopes.globalPlace >>=
        fun _ => pure ()) (.start clock) =
      execProgram source bound globals program (.start clock) :=
    hinstall.bind_congr hglobal fun _ m h => by
      rw [bind_apply, bind_apply, Runner.checkedBlock_apply alarm program h]
  unfold checkedProgram runProgram
  rw [checkedTask_eq, ← hexec]
  rfl

/-! ## Selections -/

/-- Whether a statement declares a function. -/
def Stmt.isFunction : Stmt → Bool
  | .function _ _ _ => true
  | _ => false

/-- A case without the functions that its statements declare themselves. -/
def Case.withoutFunctions : Case → Case
  | .mk test list => .mk test (list.filter fun s => !s.isFunction)

theorem Case.isDefault_withoutFunctions (c : Case) :
    c.withoutFunctions.isDefault = c.isDefault := by
  cases c
  rfl

namespace Runner

variable {r : Runner}

theorem matching_withoutFunctions (v : Value) (scope : Nat) (list : List Case) :
    r.matching v scope (list.map Case.withoutFunctions) =
      Option.map (List.map Case.withoutFunctions) <$> r.matching v scope list := by
  induction list with
  | nil => rfl
  | cons c rest ih =>
    obtain ⟨_ | e, list⟩ := c
    · exact ih
    · show (r.expression e scope >>= fun w => if w.strictEquals v then _ else _) = _ <$>
        (r.expression e scope >>= fun w => if w.strictEquals v then _ else _)
      rw [map_bind]
      refine bind_congr fun w => ?_
      split
      · rfl
      · exact ih

/-- A declaration of a function does nothing when it is executed. -/
def SkipsFunctions (r : Runner) : Prop :=
  ∀ name parameters body scope, r.statement (.function name parameters body) scope = pure .normal

theorem skipsFunctions_deep (source : List Char) (bound depth : Nat) :
    (deep source bound (depth + 1)).SkipsFunctions :=
  fun _ _ _ _ => rfl

variable (hr : r.SkipsFunctions)

include hr

theorem statements_withoutFunctions (scope : Nat) (list : List Stmt) :
    r.statements scope (list.filter fun s => !s.isFunction) = r.statements scope list := by
  induction list with
  | nil => rfl
  | cons s rest ih =>
    cases s with
    | function name parameters body =>
      show r.statements scope (rest.filter _) = (r.statement _ scope >>= _)
      rw [hr, pure_bind]
      exact ih
    | _ =>
      refine bind_congr fun flow => ?_
      cases flow with
      | normal => exact ih
      | _ => rfl

theorem cases_withoutFunctions (scope : Nat) (list : List Case) :
    r.cases scope (list.map Case.withoutFunctions) = r.cases scope list := by
  induction list with
  | nil => rfl
  | cons c rest ih =>
    obtain ⟨test, list⟩ := c
    show (r.statements scope (list.filter _) >>= _) = (r.statements scope list >>= _)
    rw [statements_withoutFunctions hr]
    refine bind_congr fun flow => ?_
    cases flow with
    | normal => exact ih
    | _ => rfl

theorem select_withoutFunctions (e : Expr) (list : List Case) (scope : Nat) :
    r.select e (list.map Case.withoutFunctions) scope = r.select e list scope := by
  have hdefault : (list.map Case.withoutFunctions).dropWhile (fun c => !c.isDefault) =
      (list.dropWhile fun c => !c.isDefault).map Case.withoutFunctions := by
    rw [List.dropWhile_map]
    simp only [Function.comp_def, Case.isDefault_withoutFunctions]
  refine bind_congr fun v => bind_congr fun inner => ?_
  rw [matching_withoutFunctions, bind_map_left]
  refine bind_congr fun found => ?_
  cases found with
  | some rest => exact cases_withoutFunctions hr inner rest
  | none =>
    show r.cases inner (List.dropWhile _ _) = _
    rw [hdefault]
    exact cases_withoutFunctions hr inner _

end Runner

/-! ## Lists of statements and selections -/

/-- **Functions are known before the statements of a list, but not those of selections.**  Whatever
alarm is raised where a function that a list declares itself is not known before the statements of
the list, every task and every program does the same as without it: the functions of a program, of
a block, of the body of a function, of what is attempted, of a handler and of a finalizer are bound
in the scope of the list.  In a selection they are not: it does the same if the functions that the
statements of its cases declare themselves are left out. -/
theorem functions_known (alarm : Exec Unit) (source : List Char) (bound : Nat) :
    (∀ depth task,
      checkedTask alarm source bound depth task = runTask source bound depth task) ∧
    (∀ globals clock program, checkedProgram alarm source bound globals clock program =
      runProgram source bound globals clock program) ∧
    ∀ depth e list scope,
      (Runner.deep source bound depth).select e (list.map Case.withoutFunctions) scope =
        (Runner.deep source bound depth).select e list scope := by
  refine ⟨fun depth task => by rw [checkedTask_eq], checkedProgram_eq alarm source bound, ?_⟩
  intro depth e list scope
  cases depth with
  | zero => rfl
  | succ depth =>
    exact Runner.select_withoutFunctions (Runner.skipsFunctions_deep source bound depth) e list
      scope

/-- The function of this selection is declared before its call, and not found. -/
theorem selection_hides_function :
    runScript "switch (1) \x7b default: function f() \x7b write('x'); \x7d f(); \x7d"
      ⟨"/views/test.exp", .object []⟩ ⟨none⟩ =
      .error ⟨"ReferenceError", "f is not defined", some ⟨1, 52⟩⟩ := by
  decide +kernel

end Stencil.Script
