import Stencil.Script.Evaluate.Task

/-! # Executing statements

One step of execution for each form of statements, and the calls of functions whose bodies they
are. Before the first statement of a list is executed, the functions and the `var` names that it
declares are known.
-/
namespace Stencil.Script

/-- Makes known what a statement of a list declares. -/
def hoist (scope : Nat) : Stmt → Exec Unit
  | .function name parameters body => do
    let f ← newFunction (some name) ⟨parameters, body, scope⟩
    declare scope name f false
  | .variables .var declarators => do
    let target := (← get).scopes.variablePlace scope
    for d in declarators do
      match d with
      | .mk (.name _ name) _ =>
        unless (← get).scopes.hasLocal target name do declare target name .undefined false
      | _ => continue
  | _ => return

/-- Whether a case has no test. -/
def Case.isDefault : Case → Bool
  | .mk test _ => test.isNone

namespace Runner

variable (r : Runner)

/-- Executes statements in their order until one of them does not end normally. -/
def statements (scope : Nat) : List Stmt → Exec Flow
  | [] => return .normal
  | s :: rest => do
    match ← r.statement s scope with
    | .normal => statements scope rest
    | flow => return flow

/-- Executes a list of statements. -/
def block (list : List Stmt) (scope : Nat) : Exec Flow := do
  for s in list do hoist scope s
  r.statements scope list

/-- Executes a list of statements in a scope of its own. -/
def innerBlock (list : List Stmt) (scope : Nat) : Exec Flow := do
  r.block list (← newScope scope false)

/-! ## Declarations -/

/-- Binds variables to their first values. A `var` without a value keeps the one it has. -/
def declareAll (kind : VariableKind) (scope target : Nat) : List Declarator → Exec Unit
  | [] => return
  | .mk p (some e) :: rest => do
    r.bind p (← r.expression e scope) target (kind = .const)
    declareAll kind scope target rest
  | .mk p none :: rest => do
    unless kind = .var do r.bind p .undefined target (kind = .const)
    declareAll kind scope target rest

/-- The scope that takes variables of a kind. -/
def targetScope (kind : VariableKind) (scope : Nat) : Exec Nat := do
  if kind = .var then return (← get).scopes.variablePlace scope else return scope

/-! ## Loops -/

/-- A loop with a test and an update. -/
def forLoop (start : Stmt) (test update : Option Expr) (body : Stmt) (scope : Nat) :
    Exec Flow := do
  let inner ← newScope scope false
  let _ ← r.statement start inner
  r.loop do
    tick
    let goesOn ← match test with
      | some e => Value.truthy <$> r.expression e inner
      | none => pure true
    if !goesOn then return some .normal
    match afterRound (← r.statement body inner) with
    | some flow => return some flow
    | none =>
      if let some e := update then
        let _ ← r.expression e inner
      return none

/-- Gives an item to the target of a loop. -/
def bindItem (target : Target) (item : Value) (outer inner : Nat) : Exec Unit := do
  match target with
  | .variable kind p => r.bind p item (← targetScope kind inner) (kind = .const)
  | .name span name => assignVariable outer name item span.start
  | .member owner _ _ =>
    raise .syntaxError "Unsupported loop binding" owner.span.start
  | .index span _ _ => raise .syntaxError "Unsupported loop binding" span.start
  | .unsupported span => raise .syntaxError "Unsupported loop binding" span.start

/-- A loop over items. -/
def forItems (target : Target) (body : Stmt) (scope : Nat) : List Value → Exec Flow
  | [] => return .normal
  | item :: rest => do
    tick
    let inner ← newScope scope false
    r.bindItem target item scope inner
    match afterRound (← r.statement body inner) with
    | some flow => return flow
    | none => forItems target body scope rest

/-- A loop over the items or the keys of a value. -/
def forEach (traversal : Traversal) (target : Target) (collection : Expr) (body : Stmt)
    (scope : Nat) : Exec Flow := do
  let v ← r.expression collection scope
  let items ← match traversal with
    | .values => iterate r.source v collection.span
    | .keys => List.map Value.string <$> keysOf v
  r.forItems target body scope items

/-- A loop with its test before its body. -/
def whileLoop (test : Expr) (body : Stmt) (scope : Nat) : Exec Flow :=
  r.loop do
    tick
    if (← r.expression test scope).truthy then
      return afterRound (← r.statement body scope)
    else return some .normal

/-- A loop with its test behind its body. -/
def doLoop (body : Stmt) (test : Expr) (scope : Nat) : Exec Flow :=
  r.loop do
    tick
    match afterRound (← r.statement body scope) with
    | some flow => return some flow
    | none => if (← r.expression test scope).truthy then return none else return some .normal

/-! ## Attempts and selections -/

/-- Executes statements, and a handler for what they throw. -/
def tryCatch (list : List Stmt) (parameter : Pattern) (handler : List Stmt) (scope : Nat) :
    Exec Flow :=
  EStateM.tryCatch (r.innerBlock list scope) fun
    | .throw value _ => do
      let inner ← newScope scope false
      r.bind parameter value inner false
      r.block handler inner
    | why => throw why

/-- Executes a statement, and then others whatever happened. These only decide how all ends if
they do not end normally. -/
def tryFinally (body : Stmt) (finalizer : List Stmt) (scope : Nat) : Exec Flow := do
  let result : Except Abort Flow ←
    EStateM.tryCatch (Except.ok <$> r.statement body scope) fun why => return .error why
  match ← r.innerBlock finalizer scope with
  | .normal =>
    match result with
    | .ok flow => return flow
    | .error why => throw why
  | flow => return flow

/-- The cases from the first one on whose test equals a value. -/
def matching (v : Value) (scope : Nat) : List Case → Exec (Option (List Case))
  | [] => return none
  | .mk none _ :: rest => matching v scope rest
  | .mk (some e) list :: rest => do
    if (← r.expression e scope).strictEquals v then return some (.mk (some e) list :: rest)
    else matching v scope rest

/-- Executes the statements of cases. -/
def cases (scope : Nat) : List Case → Exec Flow
  | [] => return .normal
  | .mk _ list :: rest => do
    match ← r.statements scope list with
    | .normal => cases scope rest
    | .break => return .normal
    | flow => return flow

/-- A selection among cases. -/
def select (e : Expr) (list : List Case) (scope : Nat) : Exec Flow := do
  let v ← r.expression e scope
  let inner ← newScope scope false
  match ← r.matching v inner list with
  | some rest => r.cases inner rest
  | none => r.cases inner (list.dropWhile fun c => !c.isDefault)

/-! ## All statements -/

/-- One step of executing a statement. -/
def statementStep (s : Stmt) (scope : Nat) : Exec Flow := do
  match s with
  | .empty => return .normal
  | .function _ _ _ => return .normal
  | .expression e =>
    let _ ← r.expression e scope
    return .normal
  | .variables kind list =>
    r.declareAll kind scope (← targetScope kind scope) list
    return .normal
  | .block list => r.innerBlock list scope
  | .branch test yes no =>
    if (← r.expression test scope).truthy then r.statement yes scope else r.statement no scope
  | .forLoop start test update body => r.forLoop start test update body scope
  | .forEach traversal target collection body =>
    r.forEach traversal target collection body scope
  | .whileLoop test body => r.whileLoop test body scope
  | .doLoop body test => r.doLoop body test scope
  | .return (some e) => return .return (← r.expression e scope)
  | .return none => return .return .undefined
  | .break => return .break
  | .continue => return .continue
  | .throw e =>
    let v ← r.expression e scope
    throw (.throw v e.span.start)
  | .tryCatch list parameter handler => r.tryCatch list parameter handler scope
  | .tryFinally body finalizer => r.tryFinally body finalizer scope
  | .select e list => r.select e list scope
  | .unsupported span =>
    raise .syntaxError "Unsupported statement in template script" span.start

/-! ## Functions of the script -/

/-- Binds parameters to arguments. -/
def bindParameters (scope : Nat) : List Pattern → List Value → Exec Unit
  | [], _ => return
  | p :: rest, values => do
    r.bind p (values.head?.getD .undefined) scope false
    bindParameters scope rest values.tail

/-- Runs a step one level deeper, whatever it ends with. -/
def deeper {α : Type} (step : Exec α) : Exec α := do
  modify fun m => { m with depth := m.depth + 1 }
  let result : Except Abort α ← EStateM.tryCatch (Except.ok <$> step) fun why => return .error why
  modify fun m => { m with depth := m.depth - 1 }
  match result with
  | .ok a => return a
  | .error why => throw why

/-- Calls a function of the script. -/
def callClosure (closure : Closure) (values : List Value) (place : Nat) : Exec Value := do
  if maxDepth ≤ (← get).depth then
    raise .rangeError "Maximum call stack size exceeded" place
  let scope ← newScope closure.scope true
  r.bindParameters scope closure.parameters values
  match ← deeper (r.block closure.body scope) with
  | .return v => return v
  | _ => return .undefined

end Runner

end Stencil.Script
