import Stencil.Script.Run

/-! # Finalizers

What it means that all finalizers in a script meet a condition: those of its statements, and those
of the bodies of functions in its expressions and patterns.  A machine keeps such functions for
later calls.
-/
namespace Stencil.Script

variable (good : List Stmt → Prop)

mutual

/-- All finalizers in an expression are good. -/
def Expr.Keeps : Expr → Prop
  | .template _ _ values | .sequence _ values => KeepExprs values
  | .array _ elements => KeepElements elements
  | .object _ members => KeepMembers members
  | .function _ _ parameters body => KeepPatterns parameters ∧ KeepStmts body
  | .paren _ inner | .unary _ _ inner | .member _ inner _ _ _ | .chain _ inner | .await _ inner =>
    inner.Keeps
  | .binary _ _ left right | .logical _ _ left right => left.Keeps ∧ right.Keeps
  | .conditional _ test yes no => test.Keeps ∧ yes.Keeps ∧ no.Keeps
  | .assign _ _ target value => target.Keeps ∧ value.Keeps
  | .update _ _ _ target => target.Keeps
  | .index _ owner key _ => owner.Keeps ∧ key.Keeps
  | .call _ callee arguments _ | .new _ callee arguments => callee.Keeps ∧ KeepElements arguments
  | .boolean _ _ | .null _ | .number _ _ | .string _ _ | .name _ _ | .this _ | .privateMember _
  | .unsupported _ => True

def KeepExprs : List Expr → Prop
  | [] => True
  | e :: rest => e.Keeps ∧ KeepExprs rest

def KeepElements : List Element → Prop
  | [] => True
  | .item e :: rest | .spread _ e :: rest => e.Keeps ∧ KeepElements rest
  | .hole :: rest => KeepElements rest

def KeepMembers : List Member → Prop
  | [] => True
  | .field key value :: rest => key.Keeps ∧ value.Keeps ∧ KeepMembers rest
  | .spread _ e :: rest => e.Keeps ∧ KeepMembers rest

/-- All finalizers in a target are good. -/
def Target.Keeps : Target → Prop
  | .name _ _ | .unsupported _ => True
  | .member owner _ _ => owner.Keeps
  | .index _ owner key => owner.Keeps ∧ key.Keeps
  | .variable _ pattern => pattern.Keeps

/-- All finalizers in a pattern are good. -/
def Pattern.Keeps : Pattern → Prop
  | .hole | .name _ _ => True
  | .object _ fields rest => KeepFields fields ∧ rest.Keeps
  | .array _ elements rest => KeepPatterns elements ∧ rest.Keeps
  | .fallback _ pattern value => pattern.Keeps ∧ value.Keeps

def KeepPatterns : List Pattern → Prop
  | [] => True
  | p :: rest => p.Keeps ∧ KeepPatterns rest

def KeepFields : List PatternField → Prop
  | [] => True
  | .mk key p :: rest => key.Keeps ∧ p.Keeps ∧ KeepFields rest

def KeepDeclarators : List Declarator → Prop
  | [] => True
  | .mk p (some e) :: rest => p.Keeps ∧ e.Keeps ∧ KeepDeclarators rest
  | .mk p none :: rest => p.Keeps ∧ KeepDeclarators rest

def KeepCases : List Case → Prop
  | [] => True
  | .mk (some e) list :: rest => e.Keeps ∧ KeepStmts list ∧ KeepCases rest
  | .mk none list :: rest => KeepStmts list ∧ KeepCases rest

def KeepOption : Option Expr → Prop
  | some e => e.Keeps
  | none => True

/-- All finalizers in a statement are good. -/
def Stmt.Keeps : Stmt → Prop
  | .empty | .break | .continue | .unsupported _ => True
  | .expression e | .throw e => e.Keeps
  | .variables _ declarators => KeepDeclarators declarators
  | .function _ parameters body => KeepPatterns parameters ∧ KeepStmts body
  | .block list => KeepStmts list
  | .branch test yes no => test.Keeps ∧ yes.Keeps ∧ no.Keeps
  | .forLoop start test update body =>
    start.Keeps ∧ KeepOption test ∧ KeepOption update ∧ body.Keeps
  | .forEach _ target collection body => target.Keeps ∧ collection.Keeps ∧ body.Keeps
  | .whileLoop test body | .doLoop body test => test.Keeps ∧ body.Keeps
  | .return value => KeepOption value
  | .tryCatch list parameter handler => KeepStmts list ∧ parameter.Keeps ∧ KeepStmts handler
  | .tryFinally body finalizer => good finalizer ∧ body.Keeps ∧ KeepStmts finalizer
  | .select e cases => e.Keeps ∧ KeepCases cases

def KeepStmts : List Stmt → Prop
  | [] => True
  | s :: rest => s.Keeps ∧ KeepStmts rest

end

end Stencil.Script
