/-! # Trees of scripts

The statements and expressions of the script language. Every expression knows the place in the
source that it was read from. What the language reads but never runs, such as classes and regular
expressions, keeps nothing but its place.
-/
namespace Stencil.Script

/-- The characters of a source from the place `start` up to the place `stop`. -/
structure Span where
  start : Nat
  stop : Nat
  deriving DecidableEq, Repr, Inhabited

/-- Operators before one operand. -/
inductive UnaryOp
  | typeOf
  | delete
  | void
  | not
  | negate
  | plus
  | bitNot
  deriving DecidableEq, Repr, Inhabited

/-- Operators that evaluate both operands. -/
inductive BinaryOp
  | add
  | subtract
  | multiply
  | divide
  | remainder
  | power
  | looseEqual
  | looseUnequal
  | strictEqual
  | strictUnequal
  | less
  | lessEqual
  | greater
  | greaterEqual
  | bitAnd
  | bitOr
  | bitXor
  | shiftLeft
  | shiftRight
  | shiftRightZero
  | isIn
  | instanceOf
  deriving DecidableEq, Repr, Inhabited

/-- Operators that may leave their second operand alone. -/
inductive LogicalOp
  | and
  | or
  | coalesce
  deriving DecidableEq, Repr, Inhabited

/-- How an assignment makes the new value. -/
inductive AssignOp
  | plain
  | compound (op : BinaryOp)
  | logical (op : LogicalOp)
  deriving DecidableEq, Repr, Inhabited

/-- How variables are declared. -/
inductive VariableKind
  | var
  | let
  | const
  deriving DecidableEq, Repr, Inhabited

/-- What a loop over a collection goes through. -/
inductive Traversal
  | values
  | keys
  deriving DecidableEq, Repr, Inhabited

mutual

/-- An expression. -/
inductive Expr
  | boolean (span : Span) (value : Bool)
  | null (span : Span)
  | number (span : Span) (value : Float)
  | string (span : Span) (value : String)
  /-- Expressions with a text before, between and behind them. -/
  | template (span : Span) (texts : List String) (values : List Expr)
  | name (span : Span) (name : String)
  | this (span : Span)
  | paren (span : Span) (inner : Expr)
  | sequence (span : Span) (items : List Expr)
  | array (span : Span) (elements : List Element)
  | object (span : Span) (members : List Member)
  | function (span : Span) (name : Option String) (parameters : List Pattern) (body : List Stmt)
  | unary (span : Span) (op : UnaryOp) (operand : Expr)
  | binary (span : Span) (op : BinaryOp) (left right : Expr)
  | logical (span : Span) (op : LogicalOp) (left right : Expr)
  | conditional (span : Span) (test yes no : Expr)
  | assign (span : Span) (op : AssignOp) (target : Target) (value : Expr)
  /-- Adds or subtracts one; the value is the old number unless the operator stands `first`. -/
  | update (span : Span) (increment first : Bool) (target : Target)
  | member (span : Span) (object : Expr) (name : String) (nameSpan : Span) (optional : Bool)
  | index (span : Span) (object key : Expr) (optional : Bool)
  | call (span : Span) (callee : Expr) (arguments : List Element) (optional : Bool)
  | new (span : Span) (callee : Expr) (arguments : List Element)
  /-- An expression with an optional link in it. -/
  | chain (span : Span) (inner : Expr)
  | await (span : Span) (argument : Expr)
  | privateMember (span : Span)
  /-- An expression that is read but not supported. -/
  | unsupported (span : Span)

/-- An element of an array literal or an argument of a call. -/
inductive Element
  | item (value : Expr)
  | spread (span : Span) (value : Expr)
  | hole

/-- A member of an object literal. A key that is a plain name is a string literal. -/
inductive Member
  | field (key value : Expr)
  | spread (span : Span) (value : Expr)

/-- What an assignment writes to, or a loop binds for each item. -/
inductive Target
  | name (span : Span) (name : String)
  | member (object : Expr) (name : String) (nameSpan : Span)
  | index (span : Span) (object key : Expr)
  /-- New variables, made by a loop. -/
  | variable (kind : VariableKind) (pattern : Pattern)
  /-- A target that is read but not supported. -/
  | unsupported (span : Span)

/-- What a declaration binds. -/
inductive Pattern
  /-- Binds nothing. -/
  | hole
  | name (span : Span) (name : String)
  | object (span : Span) (fields : List PatternField) (rest : Pattern)
  | array (span : Span) (elements : List Pattern) (rest : Pattern)
  /-- A pattern with a value to use in place of an undefined one. -/
  | fallback (span : Span) (pattern : Pattern) (value : Expr)

/-- A field that an object pattern takes apart. -/
inductive PatternField
  | mk (key : Expr) (pattern : Pattern)

/-- A variable of a declaration with its first value. -/
inductive Declarator
  | mk (pattern : Pattern) (value : Option Expr)

/-- One case of a selection; the default case has no test. -/
inductive Case
  | mk (test : Option Expr) (statements : List Stmt)

/-- A statement. -/
inductive Stmt
  | empty
  | expression (value : Expr)
  | variables (kind : VariableKind) (declarators : List Declarator)
  | function (name : String) (parameters : List Pattern) (body : List Stmt)
  | block (statements : List Stmt)
  | branch (test : Expr) (yes no : Stmt)
  | forLoop (start : Stmt) (test update : Option Expr) (body : Stmt)
  | forEach (traversal : Traversal) (target : Target) (collection : Expr) (body : Stmt)
  | whileLoop (test : Expr) (body : Stmt)
  | doLoop (body : Stmt) (test : Expr)
  | return (value : Option Expr)
  | break
  | continue
  | throw (value : Expr)
  | tryCatch (statements : List Stmt) (parameter : Pattern) (handler : List Stmt)
  | tryFinally (body : Stmt) (finalizer : List Stmt)
  | select (value : Expr) (cases : List Case)
  /-- A statement that is read but not supported. -/
  | unsupported (span : Span)

end

instance : Inhabited Expr := ⟨.null ⟨0, 0⟩⟩

instance : Inhabited Stmt := ⟨.empty⟩

instance : Inhabited Pattern := ⟨.hole⟩

/-- The place of an expression. -/
def Expr.span : Expr → Span
  | .boolean s _ | .null s | .number s _ | .string s _ | .template s _ _ | .name s _ | .this s
  | .paren s _ | .sequence s _ | .array s _ | .object s _ | .function s _ _ _ | .unary s _ _
  | .binary s _ _ _ | .logical s _ _ _ | .conditional s _ _ _ | .assign s _ _ _ | .update s _ _ _
  | .member s _ _ _ _ | .index s _ _ _ | .call s _ _ _ | .new s _ _ | .chain s _ | .await s _
  | .privateMember s | .unsupported s => s

/-- A program: the statements of a source. -/
abbrev Program := List Stmt

end Stencil.Script
