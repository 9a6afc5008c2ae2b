import Stencil.Script.Parse

/-! # Expressions as targets

What stands before an assignment is first read as an expression. It is a target if it is a name or
a member, in parentheses or not, or an array or object literal whose parts are targets. Literals
with parts of their own must not stand in parentheses.
-/
namespace Stencil.Script

/-- The target that a name or a member is. -/
def Expr.simpleTarget? : Expr → Option Target
  | .name span text => some (.name span text)
  | .member _ owner text textSpan false => some (.member owner text textSpan)
  | .index span owner key false => some (.index span owner key)
  | .privateMember span => some (.unsupported span)
  | .paren _ inner => inner.simpleTarget?
  | _ => none

/-- Where an expression that is no simple target fails to be one: a parenthesis shows what is
inside, unless that is a literal with parts. -/
def Expr.targetFault : Expr → Nat
  | .paren span (.array _ _) => span.start
  | .paren span (.object _ _) => span.start
  | .paren _ inner => inner.targetFault
  | e => e.span.start

/-- The simple target that an expression is. -/
def simpleTarget (e : Expr) : Parse Target :=
  match e.simpleTarget? with
  | some target => pure target
  | none => refuse ⟨"cannot assign to this expression", e.targetFault⟩

/-- Notes the comma behind the last part of a literal that has become a pattern. -/
def noteClosingComma (start : Nat) : Parse Unit := do
  if let some comma := (← get).closingCommas.lookup start then
    note "comma behind the rest" comma

/-- A name with a value at `start` is part of a pattern, where it is right. -/
def closeShorthand (start : Nat) : Parse Unit :=
  modify fun r => { r with openShorthands := r.openShorthands.filter (· != start) }

mutual

/-- Demands that an expression is a target or a pattern of targets. -/
def Expr.demandTarget : Expr → Parse Unit
  | .array span elements => demandElements span.start elements
  | .object span members => demandMembers span.start members
  | e => do let _ ← simpleTarget e

/-- The same for a part of a pattern, which may have a value to fall back on. -/
def Expr.demandPart : Expr → Parse Unit
  | .assign span op _ _ =>
    if op = .plain then pure () else note "cannot assign to this expression" span.start
  | .array span elements => demandElements span.start elements
  | .object span members => demandMembers span.start members
  | e => do let _ ← simpleTarget e

/-- The same for the elements of an array that begins at `start`. What is left over comes last. -/
def demandElements (start : Nat) : List Element → Parse Unit
  | [] => pure ()
  | .hole :: rest => demandElements start rest
  | .item e :: rest => do
    e.demandPart
    demandElements start rest
  | .spread span e :: rest => do
    unless rest.isEmpty do refuse ⟨"items behind the rest", span.start⟩
    e.demandTarget
    noteClosingComma start

/-- The same for the members of an object that begins at `start`. What is left over is no
pattern. -/
def demandMembers (start : Nat) : List Member → Parse Unit
  | [] => pure ()
  | .field key e :: rest => do
    closeShorthand key.span.start
    e.demandPart
    demandMembers start rest
  | .spread span e :: rest => do
    unless rest.isEmpty do refuse ⟨"items behind the rest", span.start⟩
    let _ ← simpleTarget e
    noteClosingComma start

end

/-- The target that an expression is. Patterns of targets are read but not supported. -/
def anyTarget (e : Expr) : Parse Target :=
  match e with
  | .array span _ | .object span _ => do
    e.demandTarget
    return .unsupported span
  | e => simpleTarget e

end Stencil.Script
