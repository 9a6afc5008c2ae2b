import Stencil.Script.Grammar.Type

/-! # Classes

Classes are read in full and left out: a name, what the class extends and implements, and its
members.
-/
namespace Stencil.Script

namespace Grammar

variable (g : Grammar)

/-! ## Heads -/

/-- What a class extends. More than one class is read, and is a fault. -/
def extension : Parse Unit := do
  expectWord "extends"
  let _ ← g.operand
  let more : Parse Unit := do
    let start ← here
    let _ ← g.operand
    note "more than one class to extend" start
  let _ ← manyFrom (eatMark ",") more [] g.fuel

/-- The types that a class implements. -/
def implementation : Parse Unit := do
  expectWord "implements"
  g.typeReference
  let _ ← manyFrom (eatMark ",") g.typeReference [] g.fuel

/-- What stands between the name and the body of a class: what it extends comes before what it
implements, and each comes at most once. -/
def heritageFrom (extended implemented : Bool) : Nat → Parse Unit
  | 0 => unexpected
  | fuel + 1 => do
    let start ← here
    if ← atWord "extends" then
      if extended || implemented then note "misplaced extends" start
      g.extension
      heritageFrom true implemented fuel
    else if ← atWord "implements" then
      if implemented then note "misplaced implements" start
      g.implementation
      heritageFrom extended true fuel
    else return

/-! ## Members -/

/-- The settings in a block that runs once for a class. -/
def classBlockSettings (r : Reader) : Reader :=
  { r with inFunction := false, inAsync := true, inGenerator := false }

/-- The settings in the first value of a field. -/
def fieldSettings (r : Reader) : Reader :=
  { r with allowIn := true, inFunction := false, inAsync := false, inGenerator := false }

/-- The text of a key that is a word or a string. -/
def keyText (l : Lexeme) : String :=
  match l.token with
  | .word w _ => w
  | .string s => s
  | _ => ""

/-- Whether the constructor of a class is ahead. -/
def atConstructor : Parse Bool := do
  let l ← ahead
  match l.token with
  | .word w _ => return w == "constructor"
  | .string s => return s == "constructor" && (← second).isMark "("
  | _ => return false

/-- The key of a member, which may be private. -/
def memberKey : Parse Unit := do
  let l ← ahead
  match l.token with
  | .privateName name =>
    if name == "constructor" then note "private constructor" l.start
    pass
  | _ =>
    let _ ← g.key

/-- A field behind its key. Only a line break or a brace may stand for the semicolon behind it. -/
def fieldRest : Parse Unit := do
  if ← eatMark "=" then
    let _ ← within fieldSettings g.expression
  unless ← eatMark ";" do
    unless ← atStatementEnd do unexpected

/-- A member behind its modifiers. The constructor is a plain method, and a class has a prototype of
its own. -/
def memberTail (isStatic isAsync : Bool) : Parse Unit := do
  let kind ← accessorKind Lexeme.isKey
  if !isStatic && kind = .plain && (← atConstructor) then
    if isAsync then note "constructor that is no plain method" (← here)
    passName
    let _ ← g.methodTail .plain false false
  else
    let isGenerator ← eatMark "*"
    let l ← ahead
    g.memberKey
    let isConstructor := keyText l == "constructor"
    if isStatic && keyText l == "prototype" then note "second prototype" l.start
    let _ ← eatMark "?"
    let _ ← eatMark "!"
    if kind = .plain && !isGenerator && !(← atMark "(") then
      if isConstructor then note "constructor that is no plain method" l.start
      g.fieldRest
    else
      if isConstructor && !isStatic then note "constructor that is no plain method" l.start
      let _ ← g.methodTail kind isAsync isGenerator

/-- A member of a class. -/
def classMember : Parse Unit := do
  let _ ← g.decorators
  let list ← g.modifiers true
  noteModifiers (· != "const") list
  if (← atWord "static") && (← second).isMark "\x7b" then
    pass
    let _ ← within classBlockSettings g.block
  else g.memberTail (hasModifier "static" list) (hasModifier "async" list)

/-- The members of a class in braces. -/
def classBody : Parse Unit := do
  expectMark "\x7b"
  let going : Parse Bool := do return !(← atMark "\x7d")
  let _ ← manyFrom going (do unless ← eatMark ";" do g.classMember) [] g.fuel
  expectMark "\x7d"

/-- A class behind its first word, and its name. -/
def classTail : Parse (Option (Span × String)) := do
  let l ← ahead
  let implementsOne ← if l.isWord "implements" then pure (← second).isAnyWord else pure false
  let name? ← if l.isName && !implementsOne then some <$> readName else pure none
  g.heritageFrom false false g.fuel
  g.classBody
  return name?

/-- A class behind its modifiers, and its name. -/
def classFrom : Parse (Option (Span × String)) := do
  expectWord "class"
  g.classTail

end Grammar

end Stencil.Script
