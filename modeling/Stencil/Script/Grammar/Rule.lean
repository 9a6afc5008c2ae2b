import Stencil.Script.Parse

/-! # Rules of the grammar

The rules through which the grammar refers to itself. The modules beside this one define one step
of each rule, given readers for all of them; the grammar as a whole repeats the steps as often as a
source can make necessary.
-/
namespace Stencil.Script

/-- Where a statement stands. -/
inductive Place
  /-- In a list of statements. -/
  | list
  /-- Alone behind a condition, a loop head or a label. -/
  | single
  deriving DecidableEq, Repr, Inhabited

/-- The rules. -/
inductive Rule
  | assignment
  | unary
  /-- Operators that bind tighter than `level`. -/
  | binary (level : Nat)
  /-- An operand with its links. -/
  | operand
  | construction
  | statement (place : Place)
  | pattern
  | type
  deriving DecidableEq, Repr, Inhabited

/-- What a rule reads. Types are read and left out. -/
abbrev Rule.Result : Rule → Type
  | .statement _ => Stmt
  | .pattern => Pattern
  | .assignment => Expr
  | .unary => Expr
  | .binary _ => Expr
  | .operand => Expr
  | .construction => Expr
  | .type => Unit

/-- Readers for all rules, and a bound on the number of items in a row. -/
structure Grammar where
  fuel : Nat
  read : (rule : Rule) → Parse rule.Result

namespace Grammar

variable (g : Grammar)

/-- An expression without commas. -/
def assignment : Parse Expr := g.read .assignment

/-- An operand with the operators before it. -/
def unary : Parse Expr := g.read .unary

/-- An expression of operators that bind tighter than `level`. -/
def binary (level : Nat) : Parse Expr := g.read (.binary level)

/-- An operand with its links. -/
def operand : Parse Expr := g.read .operand

/-- An expression behind `new`. -/
def construction : Parse Expr := g.read .construction

/-- A statement. -/
def statement (place : Place) : Parse Stmt := g.read (.statement place)

/-- A pattern. -/
def pattern : Parse Pattern := g.read .pattern

/-- A type. -/
def type : Parse Unit := g.read .type

/-- Items separated by commas up to the mark `close`, which is passed, and the place of a comma
behind the last one. -/
def itemsAndComma {α : Type} (close : String) (item : Parse α) : Parse (List α × Option Nat) := do
  let (list, comma?) ← itemsFrom close item [] none g.fuel
  expectMark close
  return (list, comma?)

/-- Items separated by commas up to the mark `close`, which is passed. -/
def items {α : Type} (close : String) (item : Parse α) : Parse (List α) := do
  return (← g.itemsAndComma close item).1

/-- Items separated by commas up to the mark `close`, which is passed; the last of them may stand
for all the rest, which comes with its place. -/
def itemsWithRest {α β : Type} (close : String) (item : Parse α) (rest : Parse β) :
    Parse (List α × Option (Nat × β)) := do
  let (list, rest?) ← itemsWithRestFrom close item rest [] none g.fuel
  expectMark close
  return (list, rest?)

/-- An expression that may be a row of expressions between commas. -/
def expression : Parse Expr := do
  let start ← here
  let first ← g.assignment
  if ← atMark "," then
    let more ← manyFrom (eatMark ",") g.assignment [] g.fuel
    return .sequence (← spanFrom start) (first :: more)
  return first

/-- An expression in which `in` is an operator. -/
def fullExpression : Parse Expr := within (fun r => { r with allowIn := true }) g.expression

/-- An expression without commas in which `in` is an operator. -/
def fullAssignment : Parse Expr := within (fun r => { r with allowIn := true }) g.assignment

end Grammar

end Stencil.Script
