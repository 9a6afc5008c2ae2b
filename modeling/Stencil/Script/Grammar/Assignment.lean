import Stencil.Script.Grammar.Operator

/-! # Functions with an arrow, conditions and assignments

Whether a parenthesis opens the parameters of a function with an arrow shows in the tokens behind
it, or else only in the arrow itself.
-/
namespace Stencil.Script

/-- The marks that assign. -/
def assignMarks : List (String × AssignOp) := [
  ("=", .plain), ("+=", .compound .add), ("-=", .compound .subtract), ("*=", .compound .multiply),
  ("/=", .compound .divide), ("%=", .compound .remainder), ("**=", .compound .power),
  ("<<=", .compound .shiftLeft), (">>=", .compound .shiftRight),
  (">>>=", .compound .shiftRightZero), ("&=", .compound .bitAnd), ("|=", .compound .bitOr),
  ("^=", .compound .bitXor), ("&&=", .logical .and), ("||=", .logical .or),
  ("??=", .logical .coalesce)]

/-- The assignment that a token is. -/
def Lexeme.assignOp? (l : Lexeme) : Option AssignOp :=
  match l.token with
  | .mark text => assignMarks.lookup text
  | _ => none

/-- Whether the tokens ahead begin the parameters of a function with an arrow. -/
inductive Heading
  | no
  | maybe
  | yes
  deriving DecidableEq, Repr

/-- Judges by three tokens behind an opening parenthesis. -/
def Heading.ofTokens (first second third : Lexeme) : Heading :=
  match first.token with
  | .mark ")" => if second.isMarkOf ["=>", ":", "\x7b"] then .yes else .no
  | .mark "[" => .maybe
  | .mark "\x7b" => .maybe
  | .mark "..." =>
    match second.token with
    | .word w _ =>
      if ["true", "false", "null"].contains w then .no
      else if isKeyword w then .maybe
      else .yes
    | _ => if second.isLiteral then .no else .maybe
  | .word w _ =>
    if modifierWords.contains w && w != "async" && second.isName then
      if second.isWord "as" then .no else .yes
    else if !first.isName && w != "this" then .no
    else if second.isMark ":" then .yes
    else if second.isMark "?" then if third.isMarkOf [":", ",", "=", ")"] then .yes else .no
    else if second.isMarkOf [",", "=", ")"] then .maybe
    else .no
  | _ => .no

/-- Judges by the tokens behind an opening parenthesis, the last of which is ahead of the cursor. -/
def Heading.behind (c : Cursor) : Heading :=
  let (first, c) := nextLexeme c
  let (second, c) := nextLexeme c
  .ofTokens first second (nextLexeme c).1

namespace Grammar

variable (g : Grammar)

/-- The tokens behind the one ahead, as far as they tell a heading. -/
def headingAhead : Parse Heading := do
  let r ← get
  if ← atMark "(" then return .behind r.cursor
  if ← atWord "async" then
    let (open?, c) := nextLexeme r.cursor
    if open?.isMark "(" && !open?.onNewLine then return .behind c
  return .no

/-- The parameters of a function with an arrow, before the arrow. -/
def arrowHead : Parse (Bool × Parameters) := do
  let isAsync ← eatWord "async"
  let parameters ← within (fun r => { r with inAsync := r.inAsync || isAsync }) g.parameters
  unless ← atMark "=>" do unexpected
  return (isAsync, parameters)

/-- The settings in the body of a function with an arrow. -/
def arrowSettings (isAsync : Bool) (r : Reader) : Reader :=
  { r with inFunction := true, inAsync := isAsync, inGenerator := false }

/-- The arrow and the body of a function that begins at `start`. -/
def arrowTail (start : Nat) (isAsync : Bool) (list : List Pattern) : Parse Expr := do
  let l ← ahead
  if l.onNewLine then note "line break before an arrow" l.start
  expectMark "=>"
  let body ← within (arrowSettings isAsync) do
    if ← atMark "\x7b" then g.block else return [.return (some (← g.assignment))]
  return .function (← spanFrom start) none list body

/-- A function whose only parameter is a name without parentheses. -/
def nameArrow (start : Nat) (isAsync : Bool) (span : Span) (name : String) : Parse Expr :=
  g.arrowTail start isAsync [.name span name]

/-- Whether `async`, a name and an arrow are ahead. -/
def atAsyncNameArrow : Parse Bool := do
  unless ← atWord "async" do return false
  let (a, b) ← third
  return a.isName && !a.onNewLine && b.isMark "=>"

/-- A function behind `async` whose only parameter is the operand ahead, which has to be a name. -/
def asyncNameArrow : Parse Expr := do
  let start ← here
  pass
  match ← g.binary 0 with
  | .name span name =>
    if name == "await" then note "operator as a name" span.start
    g.nameArrow start true span name
  | _ => unexpected

/-- A function with an arrow, if one is ahead that shows before its parameters are read as an
expression. -/
def arrow? : Parse (Option Expr) := do
  let start ← here
  match ← headingAhead with
  | .yes =>
    let (isAsync, parameters) ← g.arrowHead
    return some (← g.arrowTail start isAsync parameters.list)
  | .maybe =>
    match ← attempt? g.arrowHead with
    | some (isAsync, parameters) => return some (← g.arrowTail start isAsync parameters.list)
    | none => return none
  | .no => if ← atAsyncNameArrow then some <$> g.asyncNameArrow else return none

/-- Whether `yield` is an operator here: where functions may hand out values, and before what shows
it to be one. -/
def atYield : Parse Bool := do
  unless ← atWord "yield" do return false
  if (← get).inGenerator then return true
  return (← second).showsOperator ["in", "instanceof"]

/-- An expression that a generator hands out, which is read but not supported. -/
def yielding : Parse Expr := do
  let start ← here
  unless (← get).inGenerator do note "yield outside of a generator" start
  pass
  unless (← ahead).onNewLine do
    let delegates ← eatMark "*"
    let l ← ahead
    let ends := match l.token with
      | .stop => true
      | .word w _ => w == "in"
      | .mark text => [")", "]", "\x7d", ",", ";", ":"].contains text
      | _ => false
    if delegates || !ends then
      let _ ← g.assignment
  return .unsupported (← spanFrom start)

/-- What may follow the expression `e` that begins at `start`: an arrow, a value to assign, or the
outcomes of a condition. -/
def assignmentTail (start : Nat) (e : Expr) : Parse Expr := do
  let l ← ahead
  if l.isMark "=>" then
    if let .name span name := e then return ← g.nameArrow start false span name
  match l.assignOp? with
  | some op =>
    let target ← anyTarget e
    pass
    let value ← g.assignment
    return .assign (← spanFrom start) op target value
  | none =>
    if ← eatMark "?" then
      let yes ← g.fullAssignment
      expectMark ":"
      let no ← g.assignment
      return .conditional (← spanFrom start) e yes no
    return e

/-- One step of the rule for expressions without commas. -/
def assignmentStep : Parse Expr := do
  if ← atYield then return ← g.yielding
  match ← g.arrow? with
  | some e => return e
  | none =>
    let start ← here
    let e ← g.binary 0
    g.assignmentTail start e

end Grammar

end Stencil.Script
