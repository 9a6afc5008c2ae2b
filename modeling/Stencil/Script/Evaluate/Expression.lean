import Stencil.Script.Evaluate.Task

/-! # Evaluating expressions

One step of evaluation for each form of expressions, assignments and calls included.
-/
namespace Stencil.Script

/-- Whether a function of all scripts can stand behind `new`. -/
def Native.isConstructor : Native → Bool
  | .error _ | .string | .number | .boolean => true
  | _ => false

namespace Runner

variable (r : Runner)

/-! ## Literals -/

/-- Evaluates a template literal: each text is followed by the text of an expression. -/
def templateFrom (scope : Nat) : List String → List Expr → Exec String
  | text :: texts, e :: rest => do
    let value ← r.textOf e scope
    return text ++ value ++ (← templateFrom scope texts rest)
  | text :: _, [] => return text
  | [], _ => return ""

/-- Sets fields of an object to the members of a value. -/
def spreadFields (value : Value) (fields : Fields) : Exec Fields := do
  let keys ← keysOf value
  let h := (← get).heap
  return keys.foldl (fun done key => done.set key (h.member value key)) fields

/-- Evaluates the members of an object literal in their order. -/
def members (scope : Nat) (fields : Fields) : List Member → Exec Fields
  | [] => return fields
  | .field key e :: rest => do
    let name ← r.textOf key scope
    let value ← r.expression e scope
    members scope (fields.set name value) rest
  | .spread _ e :: rest => do
    let value ← r.expression e scope
    members scope (← spreadFields value fields) rest

/-- Evaluates expressions in their order to the value of the last one. -/
def sequence (scope : Nat) (last : Value) : List Expr → Exec Value
  | [] => return last
  | e :: rest => do sequence scope (← r.expression e scope) rest

/-! ## Operators -/

/-- Applies an operator to an operand. A name that is not declared has a type all the same. -/
def unary (op : UnaryOp) (operand : Expr) (scope : Nat) : Exec Value := do
  match op, operand with
  | .typeOf, .name _ name =>
    return .string (((← get).scopes.lookup scope name).getD .undefined).typeName
  | .delete, .member _ owner name _ _ =>
    eraseMember (← r.expression owner scope) name
    return .boolean true
  | .delete, .index _ owner key _ =>
    let owner ← r.expression owner scope
    eraseMember owner (← r.textOf key scope)
    return .boolean true
  | .delete, _ => return .boolean true
  | op, operand => unaryValue op (← r.expression operand scope)

/-! ## Assignments -/

/-- The value that an assignment gives to its target, unless it leaves the target alone. -/
def combine (op : AssignOp) (current : Value) (e : Expr) (scope place : Nat) :
    Exec (Value × Bool) := do
  match op with
  | .plain => return (← r.expression e scope, true)
  | .compound op => return (← binaryValue op current (← r.expression e scope) place, true)
  | .logical op =>
    if op.isSettled current then return (current, false)
    else return (← r.expression e scope, true)

/-- Assigns to a member of a value. -/
def assignMember (owner : Value) (key : String) (op : AssignOp) (e : Expr) (scope place : Nat) :
    Exec Value := do
  let current ← if op = .plain then pure .undefined else getMember owner key place
  let (value, stored) ← r.combine op current e scope place
  if stored then setMember owner key value place
  return value

/-- Assigns to a target. -/
def assign (op : AssignOp) (target : Target) (e : Expr) (scope : Nat) (span : Span) :
    Exec Value := do
  match target with
  | .name nameSpan name =>
    let current ← if op = .plain then pure .undefined
      else readVariable scope name nameSpan.start
    let (value, stored) ← r.combine op current e scope span.start
    if stored then assignVariable scope name value nameSpan.start
    return value
  | .member owner name nameSpan =>
    let owner ← r.expression owner scope
    r.assignMember owner name op e scope nameSpan.start
  | .index _ owner key =>
    let owner ← r.expression owner scope
    let name ← r.textOf key scope
    r.assignMember owner name op e scope key.span.start
  | .unsupported span => raise .syntaxError "Unsupported assignment target" span.start
  | .variable _ _ => raise .syntaxError "Unsupported assignment target" span.start

/-- Adds `step` to a target, and gives its old number. -/
def addTo (step : Float) (target : Target) (scope place : Nat) : Exec Float := do
  match target with
  | .name span name =>
    let old ← numberOf (← readVariable scope name span.start)
    assignVariable scope name (.number (old + step)) span.start
    return old
  | .member owner name nameSpan =>
    let owner ← r.expression owner scope
    let old ← numberOf (← getMember owner name nameSpan.start)
    setMember owner name (.number (old + step)) nameSpan.start
    return old
  | .index span owner key =>
    let owner ← r.expression owner scope
    let name ← r.textOf key scope
    let old ← numberOf (← getMember owner name span.start)
    setMember owner name (.number (old + step)) span.start
    return old
  | .unsupported span => raise .syntaxError "Unsupported update target" span.start
  | .variable _ _ => raise .syntaxError "Unsupported update target" place

/-- Counts a target up or down. The value is the old number unless the operator stands first. -/
def update (increment first : Bool) (target : Target) (scope place : Nat) : Exec Value := do
  let step := if increment then 1.0 else -1.0
  let old ← r.addTo step target scope place
  return .number (if first then old + step else old)

/-! ## Members and calls -/

/-- Reads a member by its name. -/
def member (owner : Expr) (name : String) (nameSpan : Span) (optional : Bool) (scope : Nat) :
    Exec Value := do
  let owner ← r.expression owner scope
  if optional && owner.isNullish then return .undefined
  getMember owner name nameSpan.start

/-- Reads a member by a computed name. -/
def index (owner key : Expr) (optional : Bool) (scope : Nat) : Exec Value := do
  let owner ← r.expression owner scope
  if optional && owner.isNullish then return .undefined
  let name ← r.textOf key scope
  getMember owner name key.span.start

/-- Calls what an expression evaluates to. -/
def callExpression (callee : Expr) (list : List Element) (optional : Bool) (scope place : Nat) :
    Exec Value := do
  tick
  let f ← r.expression callee scope
  if optional && f.isNullish then return .undefined
  let values ← r.elements scope list
  if f.isCallable then r.call f values place
  else raise .typeError (r.spanText callee.span ++ " is not a function") callee.span.start

/-- Makes a value by what an expression evaluates to. -/
def construct (callee : Expr) (list : List Element) (scope place : Nat) : Exec Value := do
  tick
  let f ← r.expression callee scope
  let values ← r.elements scope list
  match f with
  | .native n =>
    if n.isConstructor then r.call f values place
    else raise .typeError (r.spanText callee.span ++ " is not a constructor") callee.span.start
  | _ =>
    raise .typeError (r.spanText callee.span ++ " is not a constructor") callee.span.start

/-! ## All expressions -/

/-- One step of evaluating an expression. -/
def expressionStep (e : Expr) (scope : Nat) : Exec Value := do
  match e with
  | .boolean _ b => return .boolean b
  | .null _ => return .null
  | .number _ x => return .number x
  | .string _ s => return .string s
  | .template _ texts values => return .string (← r.templateFrom scope texts values)
  | .name span name => readVariable scope name span.start
  | .this _ => return .undefined
  | .paren _ inner => r.expression inner scope
  | .sequence _ items => r.sequence scope .undefined items
  | .array _ elements => newArray (← r.elements scope elements).toArray
  | .object _ members => newObject (← r.members scope [] members)
  | .function _ name parameters body => newFunction name ⟨parameters, body, scope⟩
  | .unary _ op operand => r.unary op operand scope
  | .binary span op left right =>
    let a ← r.expression left scope
    let b ← r.expression right scope
    binaryValue op a b span.start
  | .logical _ op left right =>
    let first ← r.expression left scope
    if op.isSettled first then return first else r.expression right scope
  | .conditional _ test yes no =>
    let v ← r.expression test scope
    if v.truthy then r.expression yes scope else r.expression no scope
  | .assign span op target value => r.assign op target value scope span
  | .update span increment first target => r.update increment first target scope span.start
  | .member _ owner name nameSpan optional => r.member owner name nameSpan optional scope
  | .index _ owner key optional => r.index owner key optional scope
  | .call span callee arguments optional =>
    r.callExpression callee arguments optional scope span.start
  | .new span callee arguments => r.construct callee arguments scope span.start
  | .chain _ (.privateMember span) =>
    raise .syntaxError "Unsupported optional chain" span.start
  | .chain _ inner => r.expression inner scope
  | .await _ argument => r.expression argument scope
  | .privateMember span | .unsupported span =>
    raise .syntaxError "Unsupported expression in template script" span.start

end Runner

end Stencil.Script
