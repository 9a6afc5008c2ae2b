import Stencil.Script.Grammar.Exchange

/-! # Statements

Declarations, conditions, loops and the other statements.
-/
namespace Stencil.Script

/-- What the word `let` is at the beginning of a statement. -/
inductive LetUse
  | declaration
  /-- A name that is assigned to, or an operand. -/
  | operand
  /-- A name with links behind it. -/
  | owner
  | name
  deriving DecidableEq, Repr

/-- Judges `let` by the token behind it. -/
def LetUse.ofNext (place : Place) (l : Lexeme) : LetUse :=
  let joins := match l.joint? true with
    | some ⟨_, .binary _⟩ => true
    | _ => false
  if joins || l.assignOp?.isSome then .operand
  else if l.isMarkOf [".", "(", "?."] then .owner
  else if l.isMark ";" || (place = .single && !l.isMark "[") then .name
  else .declaration

namespace Grammar

variable (g : Grammar)

/-! ## Declarations and expressions -/

/-- A statement that declares variables, behind the place `start` and its first words. -/
def variableStatement (place : Place) (start : Nat) (style : VariableStyle) : Parse Stmt := do
  return .variables style.kind (← g.variableTail place start style)

/-- A statement that is an expression, or one with a label before it. -/
def expressionStatement : Parse Stmt := do
  let start ← here
  let e ← g.expression
  if let .name _ _ := e then
    if ← eatMark ":" then
      let _ ← g.statement .single
      return .unsupported (← spanFrom start)
  endStatement
  return .expression e

/-- A statement that begins with `let`. -/
def letStatement (place : Place) (start : Nat) (second : Lexeme) : Parse Stmt := do
  match LetUse.ofNext place second with
  | .declaration =>
    pass
    g.variableStatement place start (.plain .let)
  | .operand =>
    let e ← g.assignment
    endStatement
    return .expression e
  | .owner => return .expression (← g.expression)
  | .name =>
    let (span, name) ← readName
    endStatement
    return .expression (.name span name)

/-! ## Conditions and loops -/

/-- An expression in parentheses. -/
def condition : Parse Expr := do
  expectMark "("
  let e ← g.expression
  expectMark ")"
  return e

/-- A condition with one or two outcomes. -/
def branchStatement : Parse Stmt := do
  pass
  let test ← g.condition
  let yes ← g.statement .single
  if ← eatWord "else" then return .branch test yes (← g.statement .single)
  return .branch test yes .empty

/-- An expression that may be left out before the mark `close`, which is passed. -/
def optionalBefore (close : String) : Parse (Option Expr) := do
  if ← eatMark close then return none
  let e ← g.fullExpression
  expectMark close
  return some e

/-- What a loop that begins with `for` shows before its head: its place, and whether it waits for
the items of a collection. -/
structure LoopStart where
  start : Nat
  awaits : Bool

/-- Notes a loop that would wait although it does not go through items. -/
def LoopStart.noteAwait (s : LoopStart) : Parse Unit := do
  if s.awaits then note "loop without items to wait for" s.start

/-- A loop with a test and an update, behind its start. Variables that lack a value show behind the
first semicolon. -/
def countedLoop (s : LoopStart) (start : Stmt) (missing : Parse Unit) : Parse Stmt := do
  expectMark ";"
  missing
  let test ← g.optionalBefore ";"
  let update ← g.optionalBefore ")"
  s.noteAwait
  return .forLoop start test update (← g.statement .single)

/-- A loop over a collection, behind what it binds. -/
def collectionLoop (s : LoopStart) (target : Target) : Parse Stmt := do
  if ← eatWord "of" then
    let e ← g.assignment
    expectMark ")"
    return .forEach .values target e (← g.statement .single)
  expectWord "in"
  let e ← g.expression
  expectMark ")"
  s.noteAwait
  return .forEach .keys target e (← g.statement .single)

/-- Whether a loop over a collection goes on here. -/
def atCollection : Parse Bool := do return (← atWord "of") || (← atWord "in")

/-- The style of the variables that a loop declares, if it declares any; their words are passed. -/
def loopStyle? : Parse (Option VariableStyle) := do
  let l ← second
  if ← eatWord "var" then return some (.plain .var)
  if ← eatWord "const" then return some (.plain .const)
  if ← atWord "let" then
    if l.isMarkOf ["[", "\x7b"] || (l.isName && !l.isWord "in") then
      pass
      return some (.plain .let)
  if (← atRelease l) && !l.isWord "of" then
    pass
    return some .release
  if ← atAwaitedRelease then
    pass
    pass
    return some .release
  return none

/-- A loop that declares variables. Those that are released are no keys. -/
def declaringLoop (s : LoopStart) (style : VariableStyle) (start : Nat) : Parse Stmt := do
  let list ← within (fun r => { r with allowIn := false }) (g.variableList style true)
  if ← atCollection then
    if style.released && (← atWord "in") then note "keys to be released" start
    match list with
    | ⟨_, .mk p _⟩ :: _ => g.collectionLoop s (.variable style.kind p)
    | [] => unexpected
  else
    let start := Stmt.variables style.kind (list.map Declared.declarator)
    g.countedLoop s start (list.forM (·.noteMissing style))

/-- A loop whose head begins with an expression: a target, if it goes through items. The word `of`
is no operator behind a target that could begin another loop. -/
def expressionLoop (s : LoopStart) : Parse Stmt := do
  let l ← ahead
  let next ← second
  let e ← within (fun r => { r with allowIn := false }) g.expression
  if ← atCollection then
    let target ← anyTarget e
    if ← atWord "of" then
      if l.isWord "let" then note "let before items" l.start
      if !s.awaits && l.isWord "async" && !l.isEscaped && next.isWord "of" then
        note "async before items" l.start
    g.collectionLoop s target
  else g.countedLoop s (.expression e) (pure ())

/-- A loop that begins with `for`. -/
def forStatement : Parse Stmt := do
  let start ← here
  pass
  let l ← ahead
  let awaits ← eatWord "await"
  if awaits && !(← get).inAsync then note "await outside of an async function" l.start
  expectMark "("
  let s : LoopStart := ⟨start, awaits⟩
  if ← atMark ";" then return ← g.countedLoop s .empty (pure ())
  let declares ← here
  match ← loopStyle? with
  | some style => g.declaringLoop s style declares
  | none => g.expressionLoop s

/-- A loop with its test before its body. -/
def whileStatement : Parse Stmt := do
  pass
  let test ← g.condition
  return .whileLoop test (← g.statement .single)

/-- A loop with its test behind its body. -/
def doStatement : Parse Stmt := do
  pass
  let body ← g.statement .single
  expectWord "while"
  let test ← g.condition
  let _ ← eatMark ";"
  return .doLoop body test

/-! ## Jumps -/

/-- A statement that leaves a loop or goes on with its next round. A label is read and left out. -/
def jumpStatement (result : Stmt) : Parse Stmt := do
  pass
  unless (← atMark ";") || (← atStatementEnd) do
    let _ ← readName
  endStatement
  return result

/-- A statement that returns. -/
def returnStatement : Parse Stmt := do
  let start ← here
  pass
  let value ← if (← atMark ";") || (← atStatementEnd) then pure none else some <$> g.fullExpression
  endStatement
  unless (← get).inFunction do note "return outside of a function" start
  return .return value

/-- A statement that throws. -/
def throwStatement : Parse Stmt := do
  let start ← here
  pass
  if (← ahead).onNewLine then note "line break behind throw" start
  let e ← g.expression
  endStatement
  return .throw e

/-! ## Selections and attempts -/

/-- A case of a selection. -/
def selectionCase : Parse Case := do
  let test ← if ← eatWord "default" then pure none else do
    expectWord "case"
    some <$> g.expression
  expectMark ":"
  let going : Parse Bool := do
    return !((← atWord "case") || (← atWord "default") || (← atMark "\x7d"))
  return .mk test (← manyFrom going (g.statement .list) [] g.fuel)

/-- A selection among cases. -/
def selectStatement : Parse Stmt := do
  pass
  let value ← g.condition
  expectMark "\x7b"
  let going : Parse Bool := do return !(← atMark "\x7d")
  let cases ← manyFrom going g.selectionCase [] g.fuel
  expectMark "\x7d"
  return .select value cases

/-- Statements that are tried. -/
def tryStatement : Parse Stmt := do
  pass
  let statements ← g.block
  let blockEnd := (← get).lastStop
  let caught ← if ← eatWord "catch" then do
      let parameter ← if ← eatMark "(" then do
          let p ← g.pattern
          expectMark ")"
          pure p
        else pure .hole
      pure (some (parameter, ← g.block))
    else pure none
  let inner := match caught with
    | some (parameter, handler) => Stmt.tryCatch statements parameter handler
    | none => .block statements
  if ← eatWord "finally" then return .tryFinally inner (← g.block)
  if caught.isNone then note "expected catch or finally" blockEnd
  return inner

/-! ## All statements -/

/-- A statement that is read in full and not supported. -/
def unsupportedStatement (rest : Parse Unit) : Parse Stmt := do
  let start ← here
  pass
  rest
  return .unsupported (← spanFrom start)

/-- A statement behind decorators: an export, or a class. -/
def decoratedStatement (place : Place) : Parse Stmt := do
  let start ← here
  let _ ← g.decorators
  if ← eatWord "export" then g.exported
  else
    let _ ← g.modifiers true
    let _ ← g.classDeclaration place (← here)
  return .unsupported (← spanFrom start)

/-- A statement that begins with a word which the grammar does not reserve. -/
def contextualStatement (place : Place) (start : Nat) (second : Lexeme) : Parse Stmt := do
  if (← atWord "async") && second.isWord "function" && !second.onNewLine then
    pass
    pass
    return (← g.functionDeclaration place start true).2
  if ← atRelease second then
    pass
    return ← g.variableStatement place start .release
  if ← atAwaitedRelease then
    pass
    pass
    return ← g.variableStatement place start .release
  g.expressionStatement

/-- A statement that begins with a word. -/
def wordStatement (place : Place) (l second : Lexeme) : Parse Stmt := do
  let start := l.start
  match l.text with
  | "var" =>
    pass
    g.variableStatement place start (.plain .var)
  | "const" =>
    pass
    g.variableStatement place start (.plain .const)
  | "let" => if l.isEscaped then g.expressionStatement else g.letStatement place start second
  | "function" =>
    pass
    return (← g.functionDeclaration place start false).2
  | "if" => g.branchStatement
  | "for" => g.forStatement
  | "while" => g.whileStatement
  | "do" => g.doStatement
  | "break" => jumpStatement .break
  | "continue" => jumpStatement .continue
  | "return" => g.returnStatement
  | "throw" => g.throwStatement
  | "switch" => g.selectStatement
  | "try" => g.tryStatement
  | "with" => unsupportedStatement do
    let _ ← g.condition
    let _ ← g.statement .single
  | "debugger" => unsupportedStatement endStatement
  | "class" =>
    let _ ← g.classDeclaration place start
    return .unsupported (← spanFrom start)
  | "import" =>
    if second.isMarkOf ["(", "."] then g.expressionStatement else g.importStatement
  | "export" => g.exportStatement
  | _ => g.contextualStatement place start second

/-- One step of the rule for statements. -/
def statementStep (place : Place) : Parse Stmt := do
  let l ← ahead
  match l.token with
  | .mark "\x7b" => return .block (← g.block)
  | .mark ";" =>
    pass
    return .empty
  | .mark "@" => g.decoratedStatement place
  | .word _ _ => g.wordStatement place l (← second)
  | _ => g.expressionStatement

end Grammar

end Stencil.Script
