import Stencil.Script.Grammar.Modifier

/-! # Patterns, parameters and bodies

What declarations and parameters bind, and the parts that functions and methods are made of.
-/
namespace Stencil.Script

namespace Grammar

variable (g : Grammar)

/-- The key of a member: a word, a literal, or an expression in brackets. -/
def key : Parse Expr := do
  let l ← ahead
  let span : Span := ⟨l.start, l.stop⟩
  match l.token with
  | .word w _ =>
    passName
    return .string span w
  | .string s =>
    pass
    return .string span s
  | .number n =>
    pass
    return .number span n
  | .bigInt =>
    pass
    return .unsupported span
  | .mark "[" =>
    pass
    let e ← g.fullAssignment
    expectMark "]"
    return e
  | _ => unexpected

/-! ## Patterns -/

/-- A pattern and the value it may fall back on. -/
def element : Parse Pattern := do
  let start ← here
  let p ← g.pattern
  if ← eatMark "=" then
    let value ← g.fullAssignment
    return .fallback (← spanFrom start) p value
  return p

/-- A pattern for all the rest, behind three points. It cannot fall back on a value, and in an
object it has to be a name. -/
def restPattern (inObject : Bool) : Parse Pattern := do
  expectMark "..."
  let start ← here
  let p ← g.pattern
  match p with
  | .name _ _ => pure ()
  | _ => if inObject then note "rest of an object without a name" start
  if ← eatMark "=" then
    let _ ← g.fullAssignment
    note "rest with a value" start
  return p

/-- An element of an array pattern, or nothing. -/
def arrayElement : Parse Pattern := do
  if ← atMark "," then return .hole
  g.element

/-- A field of an object pattern. -/
def objectField : Parse PatternField := do
  let l ← ahead
  let k ← g.key
  if l.isName && !(← atMark ":") then
    noteOperatorName l
    let p := Pattern.name k.span l.text
    if ← eatMark "=" then
      let value ← g.fullAssignment
      return .mk k (.fallback (← spanFrom l.start) p value)
    return .mk k p
  expectMark ":"
  return .mk k (← g.element)

/-- One step of the rule for patterns. -/
def patternStep : Parse Pattern := do
  let start ← here
  if ← eatMark "[" then
    let (elements, rest?) ← g.itemsWithRest "]" g.arrayElement (g.restPattern false)
    return .array (← spanFrom start) elements ((rest?.map Prod.snd).getD .hole)
  if ← eatMark "\x7b" then
    let (fields, rest?) ← g.itemsWithRest "\x7d" g.objectField (g.restPattern true)
    return .object (← spanFrom start) fields ((rest?.map Prod.snd).getD .hole)
  let (span, name) ← readName
  return .name span name

/-! ## Parameters and bodies -/

/-- The parameters of a function, whose values to fall back on are left out, and the place of the
one for all the rest. -/
structure Parameters where
  list : List Pattern
  restStart? : Option Nat
  deriving Inhabited

/-- One parameter. Neither decorators nor modifiers belong before it. -/
def parameter : Parse Pattern := do
  for start in ← g.decorators do note "decorator on a parameter" start
  noteModifiers (fun _ => false) (← g.modifiers false)
  let p ← g.pattern
  if ← eatMark "=" then
    let _ ← g.fullAssignment
  return p

/-- Parameters in parentheses. -/
def parameters : Parse Parameters := do
  expectMark "("
  let (list, rest?) ← g.itemsWithRest ")" g.parameter (g.restPattern false)
  return ⟨list, rest?.map Prod.fst⟩

/-- Statements up to a closing brace, which is passed. -/
def statements : Parse (List Stmt) := do
  let going : Parse Bool := do return !(← atMark "\x7d")
  let list ← manyFrom going (g.statement .list) [] g.fuel
  expectMark "\x7d"
  return list

/-- Statements in braces. -/
def block : Parse (List Stmt) := do
  expectMark "\x7b"
  g.statements

/-- The settings inside a function that is no arrow. -/
def functionSettings (isAsync isGenerator : Bool) (r : Reader) : Reader :=
  { r with
    allowIn := true
    inFunction := true
    inAsync := isAsync
    inGenerator := isGenerator }

/-- The parameters and the body of a function that begins at `start`. -/
def functionRest (start : Nat) (isAsync isGenerator : Bool) : Parse (Parameters × List Stmt) :=
  within (functionSettings isAsync isGenerator) do
    let parameters ← g.parameters
    unless ← atMark "\x7b" do refuse ⟨"function without a body", start⟩
    return (parameters, ← g.block)

/-- What a function may be called in its own place. -/
inductive Naming
  /-- It has to have a name, which belongs to the code around it. -/
  | declared
  /-- It may have a name, which belongs to the code around it. -/
  | exported
  /-- It may have a name, which belongs to the function itself. -/
  | own
  deriving DecidableEq, Repr

/-- The name of a function, if one is ahead. -/
def functionName? (naming : Naming) (isAsync isGenerator : Bool) :
    Parse (Option (Span × String)) := do
  if (← ahead).isName then
    match naming with
    | .own => some <$> within (functionSettings isAsync isGenerator) readName
    | _ => some <$> readName
  else
    if naming = .declared then note "function without a name" (← here)
    return none

/-- A function that begins at `start`, behind its first words: an optional star, an optional name,
parameters and body. -/
def functionTail (start : Nat) (naming : Naming) (isAsync : Bool) :
    Parse (Option (Span × String) × Parameters × List Stmt) := do
  let isGenerator ← eatMark "*"
  let name? ← functionName? naming isAsync isGenerator
  let (parameters, body) ← g.functionRest start isAsync isGenerator
  return (name?, parameters, body)

/-! ## Methods -/

/-- What a method is called for. -/
inductive MethodKind
  | plain
  | getter
  | setter
  deriving DecidableEq, Repr

/-- The parameters and the body of a method. A getter takes nothing, and a setter one value. -/
def methodTail (kind : MethodKind) (isAsync isGenerator : Bool) :
    Parse (Parameters × List Stmt) := do
  let start ← here
  let (parameters, body) ← g.functionRest start isAsync isGenerator
  match kind with
  | .plain => pure ()
  | .getter =>
    unless parameters.list.isEmpty && parameters.restStart?.isNone do
      note "getter with parameters" start
  | .setter =>
    if let some rest := parameters.restStart? then note "setter with a rest" rest
    unless parameters.list.length == 1 do note "setter without its one parameter" start
  return (parameters, body)

/-- Passes `get` or `set` before the key of a method, and tells what the method is for. -/
def accessorKind (follows : Lexeme → Bool) : Parse MethodKind := do
  let reads ← atWord "get"
  if reads || (← atWord "set") then
    if follows (← second) then
      pass
      return if reads then .getter else .setter
  return .plain

end Grammar

end Stencil.Script
