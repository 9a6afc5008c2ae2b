import Stencil.Script.Grammar.Statement

/-! # Reading scripts

The grammar as a whole. Its rules refer to each other; each reference uses up one unit of a bound
that no source of the given length exhausts.
-/
namespace Stencil.Script

/-- One step of a rule, with readers for the rules it refers to. -/
def Grammar.step (g : Grammar) : (rule : Rule) → Parse rule.Result
  | .assignment => g.assignmentStep
  | .unary => g.unaryStep
  | .binary level => g.binaryStep level
  | .operand => g.operandStep
  | .construction => g.constructionStep
  | .statement place => g.statementStep place
  | .pattern => g.patternStep
  | .type => g.typeStep

/-- Reads by a rule, going down at most `depth` rules, with at most `fuel` items in a row. -/
def readRule (fuel : Nat) : Nat → (rule : Rule) → Parse rule.Result
  | 0, _ => unexpected
  | depth + 1, rule => Grammar.step ⟨fuel, readRule fuel depth⟩ rule

/-- The grammar for a source of `length` characters. Every rule that a rule refers to begins at a
later token or is a tighter one, and there are fewer than twenty levels of tightness. -/
def Grammar.forLength (length : Nat) : Grammar :=
  ⟨length + 2, readRule (length + 2) (20 * (length + 2))⟩

/-- The fault of a source that has been read to its end, if it has one: the first one in the text,
or a value of a name that is no part of a pattern. -/
def Reader.finalFault? (r : Reader) : Option Fault :=
  match r.lexeme.token with
  | .broken fault => some fault
  | _ => r.fault <|> r.openShorthands.getLast?.map (⟨"unexpected value of a name", ·⟩)

/-- Runs a rule on a source, which may say that it is in another dialect or not. That no name is
exported twice is only asked of a source without another fault. -/
def readSource {α : Type} (mayBeDialect : Bool) (source : List Char) (rule : Grammar → Parse α) :
    Except Fault α := do
  let (result, r) ← rule (.forLength source.length) (.ofSource mayBeDialect source)
  if let some fault := r.finalFault? then throw (r.told fault)
  if let some offset := r.repeatedExport? then throw ⟨"exported twice", offset⟩
  return result

/-- Reads a program. -/
def readProgram (source : String) : Except Fault Program :=
  readSource true source.toList fun g => do
    let going : Parse Bool := do
      match (← ahead).token with
      | .stop => return false
      | _ => return true
    manyFrom going (g.statement .list) [] g.fuel

/-- Reads the expression that a source begins with. What follows it is not looked at, apart from
the token next to it, which has to be one. -/
def readExpression (source : String) : Except Fault Expr :=
  readSource false source.toList fun g => g.fullExpression

end Stencil.Script
