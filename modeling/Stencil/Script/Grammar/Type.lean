import Stencil.Script.Grammar.Binding

/-! # Types

Types belong to another dialect. They are read where that dialect could name one and left out: an
expression with a type is a fault once the type has been read, and so are most types that are more
than a name. Parameters and members have no types of their own.
-/
namespace Stencil.Script

/-- Words that are types by themselves unless a point follows. -/
def typeWords : List String := [
  "any", "bigint", "boolean", "never", "null", "number", "object", "string", "symbol", "undefined",
  "unknown"]

/-- Marks that a type may begin with. -/
def typeMarks : List String := ["\x7b", "[", "<", "|", "&", "*", "?", "!", "...", "("]

/-- Whether a type may begin with a token. -/
def Lexeme.startsType (l : Lexeme) : Bool :=
  match l.token with
  | .word w _ => !reservedWords.contains w ||
    ["void", "null", "this", "typeof", "new", "true", "false", "import", "function"].contains w
  | .template _ _ => true
  | .mark text => typeMarks.contains text
  | _ => l.isLiteral

namespace Grammar

variable (g : Grammar)

/-- A type in brackets or the like, in which a condition is allowed. -/
def innerType : Parse Unit := within (fun r => { r with allowCondition := true }) g.type

/-! ## References -/

/-- The types that a type is applied to, between angle brackets. -/
def typeArguments : Parse Unit := do
  splitMark '<'
  if (← atMark "<") && !(← ahead).onNewLine then
    pass
    splitMark '>'
    let _ ← g.items ">" do
      g.type
      splitMark '>'

/-- Words separated by points. -/
def typeName : Parse Unit := do
  let _ ← readAnyWord
  let _ ← manyFrom (eatMark ".") readAnyWord [] g.fuel

/-- A type that is named, and the types it is applied to. -/
def typeReference : Parse Unit := do
  g.typeName
  g.typeArguments

/-- A type from another module, behind its first word. -/
def importedType : Parse Unit := do
  expectMark "("
  g.type
  if ← eatMark "," then
    let _ ← g.fullAssignment
  let _ ← eatMark ","
  expectMark ")"
  let _ ← manyFrom (eatMark ".") readAnyWord [] g.fuel
  g.typeArguments

/-! ## Functions -/

/-- Whether a parenthesis opens the parameters of a function type: judged by what stands in it. -/
def parameterAhead : Parse Bool := glimpse do
  pass
  if (← atMark ")") || (← atMark "...") then return true
  let _ ← g.modifiers false
  let l ← ahead
  if l.isName || l.isWord "this" then pass
  else if l.isMark "[" || l.isMark "\x7b" then
    let _ ← g.pattern
  else return false
  if (← ahead).isMarkOf [":", ",", "?", "="] then return true
  return (← eatMark ")") && (← atMark "=>")

/-- Whether a function type is ahead. -/
def atFunctionType : Parse Bool := do
  let l ← ahead
  if l.isMark "<" || l.isMark "<<" || l.isWord "new" then return true
  if l.isWord "abstract" then return (← second).isWord "new"
  if l.isMark "(" then g.parameterAhead else return false

/-- What a function type returns: a type, or what a call of it shows. -/
def returnedType : Parse Unit := do
  let l ← ahead
  let next ← second
  if l.isName && next.isWord "is" && !next.onNewLine then
    pass
    pass
  g.type

/-- A function type. -/
def functionType : Parse Unit := do
  let _ ← eatWord "abstract"
  let _ ← eatWord "new"
  let _ ← g.parameters
  expectMark "=>"
  g.returnedType

/-! ## Objects and tuples -/

/-- Runs `step`, behind a sign or not. Behind a sign it must not be left out. -/
def eatSigned (step : Parse Bool) : Parse Unit := do
  if (← eatMark "+") || (← eatMark "-") then
    unless ← step do unexpected
  else
    let _ ← step

/-- Whether the brace ahead opens a type that goes through the keys of another. -/
def mappingAhead : Parse Bool := glimpse do
  pass
  if (← eatMark "+") || (← eatMark "-") then return ← atWord "readonly"
  let _ ← eatWord "readonly"
  unless ← eatMark "[" do return false
  let _ ← readAnyWord
  atWord "in"

/-- A type that goes through the keys of another. -/
def mappedType : Parse Unit := do
  expectMark "\x7b"
  eatSigned (eatWord "readonly")
  expectMark "["
  let _ ← readAnyWord
  expectWord "in"
  g.innerType
  if ← eatWord "as" then g.innerType
  expectMark "]"
  eatSigned (eatMark "?")
  if ← eatMark ":" then g.innerType
  endStatement
  expectMark "\x7d"

/-- A member of an object type. -/
def typeMember : Parse Unit := do
  let l ← ahead
  let next ← second
  if l.isMark "(" then
    let _ ← g.parameters
  else if l.isWord "new" && next.isMark "(" then
    pass
    let _ ← g.parameters
  else
    noteModifiers (· == "readonly") (← g.modifiers false)
    let _ ← accessorKind Lexeme.isKey
    let _ ← g.key
    let _ ← eatMark "?"
    if ← atMark "(" then
      let _ ← g.parameters
  unless ← eatMark "," do endStatement

/-- A type of objects by their members. -/
def objectType : Parse Unit := do
  expectMark "\x7b"
  let going : Parse Bool := do return !(← atMark "\x7d")
  let _ ← manyFrom going g.typeMember [] g.fuel
  expectMark "\x7d"

/-- Whether a name for an element of a tuple is ahead, with or without a question mark. -/
def elementNameAhead : Parse Bool := glimpse do
  let _ ← readAnyWord
  let _ ← eatMark "?"
  atMark ":"

/-- An element of a tuple. -/
def tupleElement : Parse Unit := do
  let _ ← eatMark "..."
  if ← elementNameAhead then
    let _ ← readAnyWord
    let _ ← eatMark "?"
    expectMark ":"
  g.innerType

/-! ## Types of one operand -/

/-- A type that begins with the word `word`. -/
def wordType (word : String) (next : Lexeme) : Parse Unit := do
  match word with
  | "this" =>
    pass
    if (← atWord "is") && !(← ahead).onNewLine then
      pass
      g.type
  | "true" => pass
  | "false" => pass
  | "void" => pass
  | "typeof" =>
    pass
    if ← eatWord "import" then g.importedType else g.typeReference
  | "import" =>
    pass
    g.importedType
  | "asserts" =>
    if next.isAnyWord && !next.onNewLine then
      pass
      let _ ← readAnyWord
      if ← eatWord "is" then g.type
    else g.typeReference
  | _ => if typeWords.contains word && !next.isMark "." then pass else g.typeReference

/-- A type without operators. -/
def typeOperand : Parse Unit := do
  let l ← ahead
  match l.token with
  | .number _ => pass
  | .bigInt => pass
  | .string _ => pass
  | .template _ _ =>
    let _ ← templateFrom g.innerType false [] [] g.fuel
  | .word word _ => g.wordType word (← second)
  | .mark "-" =>
    pass
    match (← ahead).token with
    | .number _ => pass
    | .bigInt => pass
    | _ => unexpected
  | .mark "(" =>
    pass
    g.innerType
    expectMark ")"
  | .mark "[" =>
    pass
    let _ ← g.items "]" g.tupleElement
  | .mark "\x7b" => if ← mappingAhead then g.mappedType else g.objectType
  | .mark "!" =>
    pass
    g.type
  | .mark "?" =>
    pass
    unless (← ahead).isMarkOf [",", "\x7d", ")", ">", "=", "|"] do g.type
  | _ => unexpected

/-- Passes an operator behind a type. A question mark before another type belongs to a condition. -/
def typeSuffix : Parse Bool := do
  let l ← ahead
  if l.onNewLine then return false
  match l.token with
  | .mark "!" =>
    pass
    return true
  | .mark "?" =>
    let next ← second
    if next.startsType then return false
    pass
    return true
  | .mark "[" =>
    pass
    unless ← atMark "]" do g.innerType
    expectMark "]"
    return true
  | _ => return false

/-- Passes an operator before a type. -/
def eatTypeOperator : Parse Bool := do
  if ← eatWord "infer" then return true
  if ← eatWord "keyof" then return true
  if ← eatWord "unique" then return true
  eatWord "readonly"

/-- A type with the operators before and behind it. -/
def unaryType : Parse Unit := do
  let _ ← manyFrom eatTypeOperator (pure ()) [] g.fuel
  within (fun r => { r with allowCondition := true }) do
    g.typeOperand
    let _ ← manyFrom g.typeSuffix (pure ()) [] g.fuel

/-- Types joined by the mark `text`, which may also stand before the first one. -/
def joinedTypes (text : String) (part : Parse Unit) : Parse Unit := do
  let _ ← eatMark text
  part
  let _ ← manyFrom (eatMark text) part [] g.fuel

/-- One step of the rule for types. -/
def typeStep : Parse Unit := do
  if ← g.atFunctionType then return ← g.functionType
  g.joinedTypes "|" (g.joinedTypes "&" g.unaryType)
  let r ← get
  if r.allowCondition && !r.lexeme.onNewLine then
    if ← eatWord "extends" then
      within (fun r => { r with allowCondition := false }) g.type
      expectMark "?"
      g.innerType
      expectMark ":"
      g.innerType

end Grammar

end Stencil.Script
