import Stencil.Script.Tree
import Stencil.Script.Word
import Stencil.Text.Search

/-! # Reading with one token ahead

The state of a reader of scripts and its basic steps: looking at the token ahead, passing it,
demanding a mark, and ending a statement where a semicolon may be left out. Some faults let reading
go on; the first of all faults is the one that is told, except that characters which make no token
come before everything else, and that a source in another dialect is told as such.
-/
namespace Stencil.Script

/-- A reader of a source. -/
structure Reader where
  /-- The token ahead. -/
  lexeme : Lexeme
  /-- The source behind the token ahead. -/
  cursor : Cursor
  /-- The place behind the token before. -/
  lastStop : Nat
  /-- The first comment so far. -/
  comment : Option Comment
  /-- The first fault that reading went on after. -/
  fault : Option Fault
  /-- Places of names with a value in object literals that have not become patterns. -/
  openShorthands : List Nat
  /-- The places of literals that end with a comma behind a spread, each with that of the comma. -/
  closingCommas : List (Nat × Nat)
  /-- The names that are exported, with their places, last first. -/
  exportedNames : List (String × Nat)
  /-- The places of exports without a name, last first. -/
  defaultExports : List Nat
  /-- Whether `in` is an operator here. -/
  allowIn : Bool
  /-- Whether a function is being read. -/
  inFunction : Bool
  /-- Whether `await` is an operator here. -/
  inAsync : Bool
  /-- Whether `yield` is an operator here. -/
  inGenerator : Bool
  /-- Whether a decorator is being read, which a bracket ends. -/
  inDecorator : Bool
  /-- Whether a type may depend on a condition here. -/
  allowCondition : Bool
  /-- Whether a comment may say that the source is in another dialect. -/
  mayBeDialect : Bool
  deriving Inhabited

/-- A step of reading. -/
abbrev Parse (α : Type) := StateT Reader (Except Fault) α

/-- A reader at the beginning of a source. -/
def Reader.ofSource (mayBeDialect : Bool) (source : List Char) : Reader :=
  let (lexeme, cursor) := nextLexeme (.ofSource source)
  { lexeme, cursor, lastStop := 0, comment := lexeme.comment, fault := none, openShorthands := [],
    closingCommas := [], exportedNames := [], defaultExports := [], allowIn := true,
    inFunction := false, inAsync := true, inGenerator := false, inDecorator := false,
    allowCondition := true, mayBeDialect }

/-- The pragma of sources with type annotations, which are another dialect. -/
def dialectPragma : List Char := "@flow".toList

/-- Whether a comment says that the source is in another dialect. -/
def Comment.namesDialect (c : Comment) : Bool := occursIn dialectPragma c.text

/-- The fault that is told instead of `fault`: in a source of another dialect, the comment that
says so. -/
def Reader.told (r : Reader) (fault : Fault) : Fault :=
  match r.comment with
  | some c => if r.mayBeDialect && c.namesDialect then ⟨"unsupported dialect", c.start⟩ else fault
  | none => fault

/-- The fault that is told when reading ends with `fault`. -/
def Reader.verdict (r : Reader) (fault : Fault) : Fault :=
  r.told <| match r.lexeme.token with
    | .broken f => f
    | _ => r.fault.getD fault

/-- Ends reading. -/
def refuse {α : Type} (fault : Fault) : Parse α := fun r => .error (r.verdict fault)

/-- Ends reading at the token ahead. -/
def unexpected {α : Type} : Parse α := do refuse ⟨"unexpected token", (← get).lexeme.start⟩

/-- Notes a fault and goes on. -/
def note (message : String) (offset : Nat) : Parse Unit :=
  modify fun r => { r with fault := some (r.fault.getD ⟨message, offset⟩) }

/-- The token ahead. -/
def ahead : Parse Lexeme := do return (← get).lexeme

/-- The token behind the one ahead. -/
def second : Parse Lexeme := do return (nextLexeme (← get).cursor).1

/-- The second and third token behind the one ahead. -/
def third : Parse (Lexeme × Lexeme) := do
  let (a, c) := nextLexeme (← get).cursor
  return (a, (nextLexeme c).1)

/-- The place of the token ahead. -/
def here : Parse Nat := do return (← get).lexeme.start

/-- The characters from `start` up to the end of the token before. -/
def spanFrom (start : Nat) : Parse Span := do return ⟨start, (← get).lastStop⟩

/-! ## Steps -/

/-- Passes the token ahead as it stands. -/
def passName : Parse Unit := modify fun r =>
  let (lexeme, cursor) := nextLexeme r.cursor
  { r with
    lexeme
    cursor
    lastStop := r.lexeme.stop
    comment := r.comment <|> lexeme.comment }

/-- Passes the token ahead for what it means to the grammar: a word that means something must not
be spelled with escapes. -/
def pass : Parse Unit := do
  let l ← ahead
  if let .word w true := l.token then
    if isKeyword w then note "escape in a keyword" l.start
  passName

/-- Whether the token ahead is the mark `text`. -/
def atMark (text : String) : Parse Bool := do return (← ahead).isMark text

/-- Whether the token ahead is the word `text`. -/
def atWord (text : String) : Parse Bool := do return (← ahead).isWord text

/-- Passes the mark `text` if it is ahead, and tells whether it was. -/
def eatMark (text : String) : Parse Bool := do
  if ← atMark text then
    pass
    return true
  return false

/-- Passes the word `text` if it is ahead, and tells whether it was. -/
def eatWord (text : String) : Parse Bool := do
  if ← atWord text then
    pass
    return true
  return false

/-- Passes the mark `text`, which has to be ahead. -/
def expectMark (text : String) : Parse Unit := do
  unless ← eatMark text do unexpected

/-- Passes the word `text`, which has to be ahead. -/
def expectWord (text : String) : Parse Unit := do
  unless ← eatWord text do unexpected

/-- Whether a statement may end here without a semicolon. -/
def atStatementEnd : Parse Bool := do
  let l ← ahead
  match l.token with
  | .stop => return true
  | .mark "\x7d" => return true
  | _ => return l.onNewLine

/-- Ends a statement. A missing semicolon shows behind the token before. -/
def endStatement : Parse Unit := do
  unless ← eatMark ";" do
    unless ← atStatementEnd do
      refuse ⟨"expected a semicolon", (← get).lastStop⟩

/-- Runs a step with other settings, and restores the settings behind it. -/
def within {α : Type} (change : Reader → Reader) (step : Parse α) : Parse α := do
  let outer ← get
  set (change outer)
  let result ← step
  modify fun r => { r with
    allowIn := outer.allowIn
    inFunction := outer.inFunction
    inAsync := outer.inAsync
    inGenerator := outer.inGenerator
    inDecorator := outer.inDecorator
    allowCondition := outer.allowCondition }
  return result

/-- Runs a step; if it ends reading, nothing is passed. -/
def attempt? {α : Type} (step : Parse α) : Parse (Option α) := fun r =>
  match step r with
  | .ok (a, r') => .ok (some a, r')
  | .error _ => .ok (none, r)

/-- What a step finds out about the tokens ahead, none of which is passed. -/
def glimpse (step : Parse Bool) : Parse Bool := fun r =>
  match step r with
  | .ok (answer, _) => .ok (answer, r)
  | .error _ => .ok (false, r)

/-- Items separated by commas up to the mark `close`, which is not passed, and the place of a comma
behind the last one. `done` holds the items so far, last first, and `comma?` the place of the comma
behind them. -/
def itemsFrom {α : Type} (close : String) (item : Parse α) (done : List α) (comma? : Option Nat) :
    Nat → Parse (List α × Option Nat)
  | 0 => unexpected
  | fuel + 1 => do
    if ← atMark close then return (done.reverse, comma?)
    let x ← item
    if ← atMark close then return ((x :: done).reverse, none)
    let comma ← here
    expectMark ","
    itemsFrom close item (x :: done) (some comma) fuel

/-- Items separated by commas up to the mark `close`, which is not passed; the last of them may
stand for all the rest. Behind that one even a comma is wrong. `done` holds the items so far, last
first. -/
def itemsWithRestFrom {α β : Type} (close : String) (item : Parse α) (rest : Parse β)
    (done : List α) (last? : Option (Nat × β)) : Nat → Parse (List α × Option (Nat × β))
  | 0 => unexpected
  | fuel + 1 => do
    if ← atMark close then return (done.reverse, last?)
    if last?.isSome || !done.isEmpty then
      let comma ← here
      expectMark ","
      if ← atMark close then
        if last?.isSome then note "comma behind the rest" comma
        return (done.reverse, last?)
    if let some (start, _) := last? then refuse ⟨"items behind the rest", start⟩
    if ← atMark "..." then
      let start ← here
      let x ← rest
      itemsWithRestFrom close item rest done (some (start, x)) fuel
    else
      let x ← item
      itemsWithRestFrom close item rest (x :: done) last? fuel

/-- Items of the same form, one behind the other, as long as `going` holds. -/
def manyFrom {α : Type} (going : Parse Bool) (item : Parse α) (done : List α) :
    Nat → Parse (List α)
  | 0 => unexpected
  | fuel + 1 => do
    unless ← going do return done.reverse
    let x ← item
    manyFrom going item (x :: done) fuel

/-! ## Reading a token in another way -/

/-- Reads the token ahead once more, from the cursor `start` on, in another way. -/
def reread (read : Cursor → Except Fault (Token × Cursor)) (start : Cursor) : Parse Unit :=
  modify fun r =>
    match read start with
    | .ok (token, cursor) => { r with
        lexeme := { r.lexeme with token, stop := cursor.offset }, cursor }
    | .error fault => { r with lexeme := { r.lexeme with token := .broken fault } }

/-- Splits the mark ahead behind its first character, if it is `first`. -/
def splitMark (first : Char) : Parse Unit := do
  let r ← get
  if let .mark text := r.lexeme.token then
    if let c :: d :: rest := text.toList then
      if c == first then
        let behind := r.cursor.back (d :: rest)
        set { r with
          lexeme := { r.lexeme with token := .mark (String.ofList [c]), stop := behind.offset }
          cursor := behind }

/-- The parts of a template literal whose first part is ahead, with what `value` reads between them;
`texts` and `values` hold those so far, last first. An escape that means nothing is a fault unless
the literal is `tagged`. -/
def templateFrom {α : Type} (value : Parse α) (tagged : Bool) (texts : List String)
    (values : List α) : Nat → Parse (List String × List α)
  | 0 => unexpected
  | fuel + 1 => do
    let l ← ahead
    match l.token with
    | .template text last =>
      if text.isNone && !tagged then note "invalid escape in a template literal" (l.start + 1)
      let texts := text.getD "" :: texts
      pass
      if last then return (texts.reverse, values.reverse)
      let x ← value
      unless ← atMark "\x7d" do unexpected
      let r ← get
      reread (readTemplate r.lexeme.start) r.cursor
      templateFrom value tagged texts (x :: values) fuel
    | _ => unexpected

/-! ## Names -/

/-- The name that the token ahead is as an operand, if it is one. -/
def nameAhead? : Parse (Option String) := do
  let r ← get
  match r.lexeme.token with
  | .word w _ =>
    if reservedWords.contains w || (r.inAsync && w == "await") ||
        (r.inGenerator && w == "yield") then
      return none
    else return some w
  | _ => return none

/-- Notes that a word is an operator here and cannot be a name. -/
def noteOperatorName (l : Lexeme) : Parse Unit := do
  let r ← get
  if (r.inAsync && l.isWord "await") || (r.inGenerator && l.isWord "yield") then
    note "operator as a name" l.start

/-- Reads a name, and the place it stands at. Where `await` or `yield` is an operator it cannot be a
name. -/
def readName : Parse (Span × String) := do
  let l ← ahead
  unless l.isName do unexpected
  noteOperatorName l
  passName
  return (⟨l.start, l.stop⟩, l.text)

/-- Reads a word, whether it is reserved or not. -/
def readAnyWord : Parse (Span × String) := do
  let l ← ahead
  match l.token with
  | .word w _ =>
    passName
    return (⟨l.start, l.stop⟩, w)
  | _ => unexpected

end Stencil.Script
