import Stencil.Script.Operation

/-! # Tasks of a run

The tasks through which evaluation refers to itself. The modules beside this one define one step of
each task, given runners for all of them.
-/
namespace Stencil.Script

/-- What there is to do in a run. -/
inductive Task
  | expression (e : Expr) (scope : Nat)
  | statement (s : Stmt) (scope : Nat)
  /-- Binds the names of a pattern in a scope. -/
  | bind (p : Pattern) (value : Value) (scope : Nat) (constant : Bool)
  /-- Calls a value, from a place in the source. -/
  | call (callee : Value) (arguments : List Value) (place : Nat)
  deriving Inhabited

/-- What a task ends with. -/
abbrev Task.Result : Task → Type
  | .expression _ _ => Value
  | .statement _ _ => Flow
  | .bind _ _ _ _ => Unit
  | .call _ _ _ => Value

/-- Runners for all tasks of a source, and a bound on the rounds of a loop. -/
structure Runner where
  source : List Char
  bound : Nat
  run : (task : Task) → Exec task.Result

namespace Runner

variable (r : Runner)

/-- Evaluates an expression. -/
def expression (e : Expr) (scope : Nat) : Exec Value := r.run (.expression e scope)

/-- Executes a statement. -/
def statement (s : Stmt) (scope : Nat) : Exec Flow := r.run (.statement s scope)

/-- Binds the names of a pattern. -/
def bind (p : Pattern) (value : Value) (scope : Nat) (constant : Bool) : Exec Unit :=
  r.run (.bind p value scope constant)

/-- Calls a value. -/
def call (callee : Value) (arguments : List Value) (place : Nat) : Exec Value :=
  r.run (.call callee arguments place)

/-- Evaluates an expression to a text. -/
def textOf (e : Expr) (scope : Nat) : Exec String := do
  Script.textOf (← r.expression e scope)

/-- The text of a value of the source in a span. -/
def spanText (span : Span) : String := String.ofList (sourceText r.source span)

/-- Evaluates expressions that may be spread out. -/
def elements (scope : Nat) : List Element → Exec (List Value)
  | [] => return []
  | .item e :: rest => do
    let v ← r.expression e scope
    return v :: (← elements scope rest)
  | .spread span e :: rest => do
    let v ← r.expression e scope
    let items ← iterate r.source v span
    return items ++ (← elements scope rest)
  | .hole :: rest => do return .undefined :: (← elements scope rest)

/-- Repeats a round until it ends with a result. -/
def repeatFrom (round : Exec (Option Flow)) : Nat → Exec Flow
  | 0 => throw .exhausted
  | n + 1 => do
    match ← round with
    | some flow => return flow
    | none => repeatFrom round n

/-- Repeats a round until it ends with a result. -/
def loop (round : Exec (Option Flow)) : Exec Flow := repeatFrom round r.bound

/-- How a loop ends after a round that ended with `flow`, if it does. -/
def afterRound : Flow → Option Flow
  | .break => some .normal
  | .return v => some (.return v)
  | _ => none

end Runner

end Stencil.Script
