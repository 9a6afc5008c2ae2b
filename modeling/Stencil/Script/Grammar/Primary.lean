import Stencil.Script.Grammar.Class

/-! # Literals and other operands

Names, literals, template literals, arrays, objects, functions, classes and parentheses, and the
links behind an operand: members, calls and tagged templates.
-/
namespace Stencil.Script

namespace Grammar

variable (g : Grammar)

/-! ## Template literals -/

/-- The parts of a template literal. -/
def templateParts (tagged : Bool) : Parse (List String × List Expr) :=
  templateFrom g.fullExpression tagged [] [] g.fuel

/-- A template literal. -/
def template : Parse Expr := do
  let start ← here
  let (texts, values) ← g.templateParts false
  return .template (← spanFrom start) texts values

/-! ## Arrays and arguments -/

/-- An element of an array or an argument that may be spread out. -/
def spreadable : Parse Element := do
  let start ← here
  if ← eatMark "..." then
    let e ← g.fullAssignment
    return .spread (← spanFrom start) e
  return .item (← g.fullAssignment)

/-- Remembers the comma behind the last part of a literal, which may turn out to be a pattern. -/
def keepComma (start : Nat) (comma? : Option Nat) : Parse Unit :=
  match comma? with
  | some comma => modify fun r => { r with closingCommas := (start, comma) :: r.closingCommas }
  | none => pure ()

/-- An array literal. -/
def array : Parse Expr := do
  let start ← here
  expectMark "["
  let hole : Parse Element := do
    if ← atMark "," then return .hole
    g.spreadable
  let (elements, comma?) ← g.itemsAndComma "]" hole
  keepComma start comma?
  return .array (← spanFrom start) elements

/-- The settings between parentheses. -/
def insideSettings (r : Reader) : Reader := { r with allowIn := true, inDecorator := false }

/-- The arguments of a call in parentheses. -/
def arguments : Parse (List Element) := do
  expectMark "("
  within insideSettings (g.items ")" g.spreadable)

/-! ## Objects -/

/-- A method of an object, behind its key. -/
def method (key : Expr) (kind : MethodKind) (isAsync isGenerator : Bool) : Parse Member := do
  let start ← here
  let (parameters, body) ← g.methodTail kind isAsync isGenerator
  return .field key (.function (← spanFrom start) none parameters.list body)

/-- A member of an object literal that is no method: a key with a value, or a name alone. A name
with a value behind it is only right if the object turns out to be a pattern. -/
def property (shorthand? : Option String) (key : Expr) : Parse Member := do
  let start := key.span.start
  match shorthand? with
  | none =>
    expectMark ":"
    return .field key (← g.fullAssignment)
  | some name =>
    if ← eatMark ":" then return .field key (← g.fullAssignment)
    let value := Expr.name key.span name
    if ← eatMark "=" then
      let fallback ← g.fullAssignment
      modify fun r => { r with openShorthands := start :: r.openShorthands }
      return .field key (.assign (← spanFrom start) .plain (.name key.span name) fallback)
    return .field key value

/-- A member of an object literal. Only methods have a modifier, and only `async`. -/
def objectMember : Parse Member := do
  let start ← here
  if ← eatMark "..." then
    let e ← g.fullAssignment
    return .spread (← spanFrom start) e
  let list ← g.modifiers false
  let isAsync := hasModifier "async" list
  let kind ← accessorKind Lexeme.isKey
  let isGenerator ← eatMark "*"
  let shorthand? ← nameAhead?
  let key ← g.key
  if kind ≠ .plain || isGenerator || (← atMark "(") then
    noteModifiers (fun w => kind = .plain && w == "async") list
    g.method key kind isAsync isGenerator
  else
    noteModifiers (fun _ => false) list
    g.property shorthand? key

/-- An object literal. -/
def object : Parse Expr := do
  let start ← here
  expectMark "\x7b"
  let (members, comma?) ← g.itemsAndComma "\x7d" g.objectMember
  keepComma start comma?
  return .object (← spanFrom start) members

/-! ## Operands -/

/-- An expression in parentheses. -/
def parenthesized : Parse Expr := do
  let start ← here
  expectMark "("
  if ← atMark ")" then refuse ⟨"expected an expression", start⟩
  let inner ← within insideSettings do
    let first ← g.assignment
    let going : Parse Bool := do
      let comma ← here
      if ← eatMark "," then
        if ← atMark ")" then refuse ⟨"unexpected comma", comma⟩
        return true
      return false
    let more ← manyFrom going g.assignment [] g.fuel
    if more.isEmpty then return first
    return .sequence (← spanFrom first.span.start) (first :: more)
  expectMark ")"
  return .paren (← spanFrom start) inner

/-- A function behind the place `start` and its first words. -/
def functionFrom (start : Nat) (isAsync : Bool) : Parse Expr := do
  let (name?, parameters, body) ← g.functionTail start .own isAsync
  return .function (← spanFrom start) (name?.map Prod.snd) parameters.list body

/-- An operand behind `new`, which stands at `start`. -/
def newTail (start : Nat) : Parse Expr := do
  if ← eatMark "." then
    unless ← eatWord "target" do refuse ⟨"unexpected property of new", start⟩
    return .unsupported (← spanFrom start)
  let calleeStart ← here
  let (next, property) ← third
  let imports := (← atWord "import") && !(next.isMark "." && property.isWord "meta")
  let callee ← g.construction
  if let .unsupported _ := callee then
    if imports then note "import behind new" calleeStart
  let list ← if ← atMark "(" then g.arguments else pure []
  return .new (← spanFrom start) callee list

/-- An operand behind `import`, which stands at `start`: what is known of the module, or a module
read while running, which may be given options. -/
def importTail (start : Nat) : Parse Expr := do
  let misplaced : Fault := ⟨"malformed import", start⟩
  if ← eatMark "." then
    if ← eatWord "meta" then return .unsupported (← spanFrom start)
    unless (← eatWord "source") || (← eatWord "defer") do refuse misplaced
  expectMark "("
  if ← atMark ")" then refuse misplaced
  within insideSettings do
    let _ ← g.assignment
    if ← eatMark "," then
      unless ← atMark ")" do
        let _ ← g.assignment
        let _ ← eatMark ","
  unless ← eatMark ")" do refuse misplaced
  return .unsupported (← spanFrom start)

/-- An operand that begins with a word. -/
def wordOperand (word : String) (start : Nat) (second : Lexeme) : Parse Expr := do
  let span : Span := ⟨start, (← ahead).stop⟩
  match word with
  | "true" =>
    pass
    return .boolean span true
  | "false" =>
    pass
    return .boolean span false
  | "null" =>
    pass
    return .null span
  | "this" =>
    pass
    return .this span
  | "function" =>
    pass
    g.functionFrom start false
  | "class" =>
    let _ ← g.classFrom
    return .unsupported (← spanFrom start)
  | "new" =>
    pass
    g.newTail start
  | "super" =>
    pass
    unless (← atMark ".") || (← atMark "[") || (← atMark "(") do note "unexpected super" start
    return .unsupported span
  | "import" =>
    unless second.isMark "(" || second.isMark "." do unexpected
    pass
    g.importTail start
  | _ =>
    if word == "async" && second.isWord "function" && !second.onNewLine then
      pass
      pass
      g.functionFrom start true
    else
      let (span, name) ← readName
      return .name span name

/-- An operand without links. -/
def primary : Parse Expr := do
  let l ← ahead
  let span : Span := ⟨l.start, l.stop⟩
  match l.token with
  | .number value =>
    pass
    return .number span value
  | .bigInt =>
    pass
    return .unsupported span
  | .string value =>
    pass
    return .string span value
  | .template _ _ => g.template
  | .word word _ => g.wordOperand word l.start (← second)
  | .mark "(" => g.parenthesized
  | .mark "[" => g.array
  | .mark "\x7b" => g.object
  | .mark "@" =>
    let _ ← g.decorators
    let _ ← g.classFrom
    return .unsupported (← spanFrom l.start)
  | .mark "/" =>
    reread (readRegex l.start) (← get).cursor
    match (← ahead).token with
    | .regex =>
      pass
      return .unsupported (← spanFrom l.start)
    | _ => unexpected
  | .mark "/=" =>
    reread (readRegex l.start) ((← get).cursor.back ['='])
    match (← ahead).token with
    | .regex =>
      pass
      return .unsupported (← spanFrom l.start)
    | _ => unexpected
  | _ => unexpected

/-! ## Links -/

/-- A member behind a point. -/
def memberLink (start : Nat) (owner : Expr) (optional : Bool) : Parse Expr := do
  match (← ahead).token with
  | .privateName _ =>
    pass
    return .privateMember (← spanFrom start)
  | _ =>
    let (nameSpan, name) ← readAnyWord
    return .member (← spanFrom start) owner name nameSpan optional

/-- A member in brackets. -/
def indexLink (start : Nat) (owner : Expr) (optional : Bool) : Parse Expr := do
  expectMark "["
  let key ← g.fullExpression
  expectMark "]"
  return .index (← spanFrom start) owner key optional

/-- A call. -/
def callLink (start : Nat) (callee : Expr) (optional : Bool) : Parse Expr := do
  let list ← g.arguments
  return .call (← spanFrom start) callee list optional

/-- A template behind a tag, which may not be part of a chain of optional links. -/
def taggedLink (start : Nat) (chained : Bool) : Parse Expr := do
  if chained then note "template behind an optional link" (← here)
  let _ ← g.templateParts true
  return .unsupported (← spanFrom start)

/-- A link behind `?.`. -/
def optionalLink (start : Nat) (e : Expr) : Parse Expr := do
  let mark ← here
  pass
  match (← ahead).token with
  | .mark "(" => g.callLink start e true
  | .mark "[" => g.indexLink start e true
  | .template _ _ => g.taggedLink start true
  | .word _ _ => memberLink start e true
  | .privateName _ => memberLink start e true
  | _ => refuse ⟨"nothing behind an optional link", mark⟩

/-- The links behind the operand `e` that begins at `start`; `calls` tells whether calls and
optional links are among them. The result tells whether one of them is optional. -/
def linksFrom (calls : Bool) (start : Nat) (e : Expr) (chained : Bool) :
    Nat → Parse (Expr × Bool)
  | 0 => unexpected
  | fuel + 1 => do
    match (← ahead).token with
    | .mark "." =>
      pass
      linksFrom calls start (← memberLink start e false) chained fuel
    | .mark "?." =>
      if calls then linksFrom calls start (← g.optionalLink start e) true fuel
      else
        note "optional link behind new" (← here)
        return (e, chained)
    | .mark "[" =>
      if (← get).inDecorator then return (e, chained)
      linksFrom calls start (← g.indexLink start e false) chained fuel
    | .mark "(" =>
      if calls then linksFrom calls start (← g.callLink start e false) chained fuel
      else return (e, chained)
    | .template _ _ => linksFrom calls start (← g.taggedLink start chained) chained fuel
    | _ => return (e, chained)

/-- An operand with its links. -/
def linked (calls : Bool) : Parse Expr := do
  let start ← here
  let e ← g.primary
  let (e, chained) ← g.linksFrom calls start e false g.fuel
  if chained then return .chain (← spanFrom start) e
  return e

/-- One step of the rule for operands with their links. -/
def operandStep : Parse Expr := g.linked true

/-- One step of the rule for expressions behind `new`. -/
def constructionStep : Parse Expr := g.linked false

end Grammar

end Stencil.Script
