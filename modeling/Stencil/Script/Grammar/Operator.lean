import Stencil.Script.Target
import Stencil.Script.Grammar.Primary

/-! # Operators

Operators before, behind and between operands. Of two operators between operands the one with the
higher level binds tighter; of two with the same level the first one does, except for powers.
-/
namespace Stencil.Script

/-- What an operator between two operands does. -/
inductive Joining
  | binary (op : BinaryOp)
  | logical (op : LogicalOp)
  deriving DecidableEq, Repr

/-- An operator between two operands with its level. -/
structure Joint where
  level : Nat
  joining : Joining
  deriving DecidableEq, Repr

/-- The level of powers, which bind to the right. -/
def powerLevel : Nat := 12

/-- The level of comparisons. -/
def comparisonLevel : Nat := 8

/-- The marks that are operators between two operands. -/
def joints : List (String × Joint) := [
  ("??", ⟨1, .logical .coalesce⟩), ("||", ⟨2, .logical .or⟩), ("&&", ⟨3, .logical .and⟩),
  ("|", ⟨4, .binary .bitOr⟩), ("^", ⟨5, .binary .bitXor⟩), ("&", ⟨6, .binary .bitAnd⟩),
  ("==", ⟨7, .binary .looseEqual⟩), ("!=", ⟨7, .binary .looseUnequal⟩),
  ("===", ⟨7, .binary .strictEqual⟩), ("!==", ⟨7, .binary .strictUnequal⟩),
  ("<", ⟨comparisonLevel, .binary .less⟩), ("<=", ⟨comparisonLevel, .binary .lessEqual⟩),
  (">", ⟨comparisonLevel, .binary .greater⟩), (">=", ⟨comparisonLevel, .binary .greaterEqual⟩),
  ("<<", ⟨9, .binary .shiftLeft⟩), (">>", ⟨9, .binary .shiftRight⟩),
  (">>>", ⟨9, .binary .shiftRightZero⟩),
  ("+", ⟨10, .binary .add⟩), ("-", ⟨10, .binary .subtract⟩),
  ("*", ⟨11, .binary .multiply⟩), ("/", ⟨11, .binary .divide⟩), ("%", ⟨11, .binary .remainder⟩),
  ("**", ⟨powerLevel, .binary .power⟩)]

/-- The operator between operands that a token is. -/
def Lexeme.joint? (allowIn : Bool) (l : Lexeme) : Option Joint :=
  match l.token with
  | .mark text => joints.lookup text
  | .word "instanceof" _ => some ⟨comparisonLevel, .binary .instanceOf⟩
  | .word "in" _ => if allowIn then some ⟨comparisonLevel, .binary .isIn⟩ else none
  | _ => none

/-- The operator before an operand that a token is. -/
def Lexeme.unaryOp? (l : Lexeme) : Option UnaryOp :=
  match l.token with
  | .mark "!" => some .not
  | .mark "-" => some .negate
  | .mark "+" => some .plus
  | .mark "~" => some .bitNot
  | .word "typeof" _ => some .typeOf
  | .word "delete" _ => some .delete
  | .word "void" _ => some .void
  | _ => none

/-- Whether a token counts up or down. -/
def Lexeme.increment? (l : Lexeme) : Option Bool :=
  match l.token with
  | .mark "++" => some true
  | .mark "--" => some false
  | _ => none

/-- Whether a token on the same line shows that the word before it, which is an operator in other
places, is one here as well: another word, apart from some, or a literal. -/
def Lexeme.showsOperator (except : List String) (l : Lexeme) : Bool :=
  !l.onNewLine &&
    match l.token with
    | .word w _ => !except.contains w
    | _ => l.isLiteral

/-- Whether an expression joins its operands by `&&` or `||`. -/
def Expr.isAndOr : Expr → Bool
  | .logical _ op _ _ => op ≠ .coalesce
  | _ => false

/-- Whether the left or right operand of `??` is joined by `&&` or `||`. If the right one is joined
at all, only that one counts. -/
def mixesCoalesce (left right : Expr) : Bool :=
  match right with
  | .logical _ op _ _ => op ≠ .coalesce
  | _ => left.isAndOr

namespace Grammar

variable (g : Grammar)

/-- A power must not follow an operand with an operator before it. -/
def notePower (start : Nat) : Parse Unit := do
  if ← atMark "**" then note "operator before the base of a power" start

/-- Whether `await` is an operator here: where functions may wait, and before what shows it to be
one. -/
def atAwait : Parse Bool := do
  unless ← atWord "await" do return false
  if (← get).inAsync then return true
  let l ← second
  return l.showsOperator ["in", "instanceof", "of"] || (!l.onNewLine && l.isMarkOf ["/", "/="])

/-- One step of the rule for operands with the operators before them. -/
def unaryStep : Parse Expr := do
  let start ← here
  let l ← ahead
  if let some op := l.unaryOp? then
    pass
    let operand ← g.unary
    let span ← spanFrom start
    notePower start
    return .unary span op operand
  if let some up := l.increment? then
    pass
    let target ← simpleTarget (← g.unary)
    return .update (← spanFrom start) up true target
  if ← atAwait then
    unless (← get).inAsync do note "await outside of an async function" start
    pass
    let argument ← within (fun r => { r with inAsync := true }) g.unary
    let span ← spanFrom start
    notePower start
    return .await span argument
  let e ← g.linked true
  let l ← ahead
  match l.increment? with
  | some up =>
    if l.onNewLine then return e
    pass
    let target ← simpleTarget e
    return .update (← spanFrom start) up false target
  | none => return e

/-- Whether the token ahead gives a type to the expression before it. -/
def atTyping : Parse Bool := do
  let l ← ahead
  return !l.onNewLine && (l.isWord "as" || l.isWord "satisfies")

/-- The operators that bind tighter than `level` behind the operand `left`, which begins at
`start`. An expression with a type is read and is a fault. -/
def jointsFrom (level start : Nat) (left : Expr) : Nat → Parse Expr
  | 0 => unexpected
  | fuel + 1 => do
    if level < comparisonLevel && (← atTyping) then
      pass
      g.type
      note "expression with a type" start
      return ← jointsFrom level start (.paren (← spanFrom start) left) fuel
    let r ← get
    match r.lexeme.joint? r.allowIn with
    | none => return left
    | some joint =>
      if joint.level < level || (joint.level == level && level != powerLevel) then return left
      pass
      let right ← g.binary joint.level
      let span ← spanFrom start
      match joint.joining with
      | .binary op => jointsFrom level start (.binary span op left right) fuel
      | .logical op =>
        if op = .coalesce && mixesCoalesce left right then
          note "mixed logical operators" start
        jointsFrom level start (.logical span op left right) fuel

/-- Whether a member of a private name is in an object. As the left operand of another operator it
would need parentheses. -/
def privateTest (level : Nat) : Parse Expr := do
  let start ← here
  unless (← get).allowIn do unexpected
  pass
  expectWord "in"
  let _ ← g.unary
  unless level < comparisonLevel do refuse ⟨"private name as an operand", start⟩
  return .unsupported (← spanFrom start)

/-- One step of the rule for operators between operands. -/
def binaryStep (level : Nat) : Parse Expr := do
  let l ← ahead
  let left ← match l.token with
    | .privateName _ => g.privateTest level
    | _ => g.unary
  g.jointsFrom level l.start left g.fuel

end Grammar

end Stencil.Script
