import Stencil.Script.Grammar.Declaration

/-! # Imports and exports

Statements that exchange names between modules. They are read in full and not supported, but no two
exports may have one name.
-/
namespace Stencil.Script

/-- Adds names to those that are exported. -/
def keepExports (names : List (String × Nat)) : Parse Unit :=
  modify fun r => { r with exportedNames := names.reverse ++ r.exportedNames }

/-- The same for the name of a function or a class. -/
def keepExport (name? : Option (Span × String)) : Parse Unit :=
  keepExports (name?.toList.map fun (span, name) => (name, span.start))

/-- The place of the earlier one of the first two places with the same name. `seen` holds the places
before. -/
def repeatedFrom? (seen : List (String × Nat)) : List (String × Nat) → Option Nat
  | [] => none
  | (name, start) :: rest =>
    match seen.lookup name with
    | some earlier => some earlier
    | none => repeatedFrom? ((name, start) :: seen) rest

/-! ## Modules -/

/-- A string, which has to be ahead. -/
def expectString : Parse Unit := do
  match (← ahead).token with
  | .string _ => pass
  | _ => unexpected

/-- A name in another module: a word or a string. The result is the token that it is. -/
def outerName : Parse Lexeme := do
  let l ← ahead
  match l.token with
  | .string _ => pass
  | .word _ _ => passName
  | _ => unexpected
  return l

namespace Grammar

variable (g : Grammar)

/-- Something that is demanded of another module, by a key. -/
def demand : Parse (String × Nat) := do
  let l ← outerName
  expectMark ":"
  expectString
  return (keyText l, l.start)

/-- The string that says where another module is, and what is demanded of it. -/
def moduleSource : Parse Unit := do
  expectString
  let l ← ahead
  if l.isWord "with" || (l.isWord "assert" && !l.onNewLine) then
    pass
    expectMark "\x7b"
    let list ← g.items "\x7d" demand
    if let some start := repeatedFrom? [] list then note "demanded twice" start

/-- A name in another module and the one it has here, which are the same unless it is renamed. -/
def exchangedName : Parse (Lexeme × Lexeme) := do
  let l ← outerName
  if ← eatWord "as" then return (l, ← outerName)
  return (l, l)

/-- Names in braces, each of them perhaps renamed. -/
def exchangedNames : Parse (List (Lexeme × Lexeme)) := do
  expectMark "\x7b"
  g.items "\x7d" exchangedName

/-! ## Imports -/

/-- A name that an import binds here must be one. -/
def importedName : Parse Unit := do
  let (_, l) ← exchangedName
  if l.isName then noteOperatorName l else note "no name" l.start

/-- What an import names besides the module itself. -/
def importedNames : Parse Unit := do
  if ← eatMark "*" then
    expectWord "as"
    let _ ← readName
  else
    expectMark "\x7b"
    let _ ← g.items "\x7d" importedName

/-- Names of a module, behind the default one if there is one, and where it is. -/
def importRest (named : Bool) : Parse Unit := do
  let goesOn ← if named then eatMark "," else pure true
  if goesOn then g.importedNames
  expectWord "from"
  g.moduleSource

/-- A name for another module or a part of one, behind an equals sign, for the import at `start`.
It belongs to another dialect. -/
def renamedModule (start : Nat) : Parse Unit := do
  if (← atWord "require") && (← second).isMark "(" then
    pass
    pass
    expectString
    expectMark ")"
  else g.typeName
  note "import of another dialect" start

/-- An import behind its first word, which stands at `start`. The words `defer` and `source` may
stand before what is imported. -/
def importTailFrom (start : Nat) : Parse Unit := do
  let l ← ahead
  match l.token with
  | .string _ => g.moduleSource
  | _ =>
    if !l.isName then g.importRest false
    else
      let _ ← readName
      let next ← ahead
      let behind ← second
      if l.isWord "defer" && next.isMark "*" then g.importRest false
      else if ← eatMark "=" then g.renamedModule start
      else if l.isWord "source" && next.isName && (!next.isWord "from" || behind.isWord "from") then
        let _ ← readName
        g.importRest true
      else g.importRest true

/-- A statement that imports. -/
def importStatement : Parse Stmt := do
  let start ← here
  pass
  g.importTailFrom start
  endStatement
  return .unsupported (← spanFrom start)

/-! ## Exports -/

/-- Whether a token can be exported under its own name: a word that is no keyword here. -/
def canExport (l : Lexeme) : Bool := l.isName && !guardedWords.contains l.text

/-- The default export, behind its word. -/
def exportedDefault : Parse Unit := do
  let l ← ahead
  let next ← second
  if ← eatWord "function" then
    let _ ← g.functionTail l.start .exported false
  else if l.isWord "async" && next.isWord "function" && !next.onNewLine then
    pass
    pass
    let _ ← g.functionTail l.start .exported true
  else if l.isMark "@" || l.isWord "class" then
    let _ ← g.decorators
    let _ ← g.classFrom
  else if l.isWord "abstract" && next.isWord "class" && !next.onNewLine then
    pass
    let _ ← g.classFrom
  else
    let _ ← g.assignment
    endStatement

/-- Everything that another module exports, perhaps under one name, behind the star. -/
def exportedModule : Parse Unit := do
  if ← eatWord "as" then
    let l ← outerName
    keepExports [(keyText l, l.start)]
  expectWord "from"
  g.moduleSource
  endStatement

/-- Names that are exported, of this module or of another one. -/
def exportedList : Parse Unit := do
  let list ← g.exchangedNames
  let fromOther ← if ← eatWord "from" then pure (← ahead).isLiteral else pure false
  if fromOther then g.moduleSource
  endStatement
  unless fromOther do
    for (l, _) in list do
      unless canExport l do note "cannot be exported" l.start
  keepExports (list.map fun (_, l) => (keyText l, l.start))

/-- A declaration whose names are exported. -/
def exportedDeclaration : Parse Unit := do
  let start ← here
  let _ ← g.decorators
  let list ← g.modifiers false
  let l ← ahead
  let kind? : Option VariableKind :=
    if l.isWord "var" then some .var
    else if l.isWord "let" then some .let
    else if l.isWord "const" then some .const
    else none
  match kind? with
  | some kind =>
    noteModifiers (fun _ => false) list
    pass
    let list ← g.variableTail .list l.start (.plain kind)
    keepExports (list.flatMap Declarator.names)
  | none =>
    if ← eatWord "function" then
      noteModifiers (· == "async") list
      keepExport (← g.functionDeclaration .list start (hasModifier "async" list)).1
    else
      noteModifiers (· == "abstract") list
      keepExport (← g.classDeclaration .list l.start)

/-- What an export hands out. -/
def exported : Parse Unit := do
  let l ← ahead
  if ← eatWord "default" then
    modify fun r => { r with defaultExports := l.start :: r.defaultExports }
    g.exportedDefault
  else if ← eatMark "*" then g.exportedModule
  else if l.isMark "\x7b" then g.exportedList
  else g.exportedDeclaration

/-- A statement that exports. -/
def exportStatement : Parse Stmt := do
  let start ← here
  pass
  g.exported
  return .unsupported (← spanFrom start)

end Grammar

/-- The place of the first export whose name is exported again; default exports come last. -/
def Reader.repeatedExport? (r : Reader) : Option Nat :=
  repeatedFrom? [] r.exportedNames.reverse <|>
    if r.defaultExports.length ≤ 1 then none else r.defaultExports.getLast?

end Stencil.Script
