import Stencil.Script.Grammar.Rule

/-! # Modifiers and decorators

What stands before a member, a parameter or a class and says more about it. A word is a modifier
only if something that it can modify follows; otherwise it is a name like any other.
-/
namespace Stencil.Script

/-- Words that may be modifiers. -/
def modifierWords : List String := [
  "abstract", "accessor", "async", "const", "declare", "default", "export", "in", "out", "override",
  "private", "protected", "public", "readonly", "static"]

/-- Whether a token may follow a modifier. -/
def Lexeme.followsModifier (l : Lexeme) : Bool := l.isKey || l.isMarkOf ["\x7b", "*", "..."]

/-- A modifier with its place. -/
structure Modifier where
  word : String
  start : Nat
  deriving Inhabited

/-- Whether one of some modifiers is the word `text`. -/
def hasModifier (text : String) (list : List Modifier) : Bool := list.any (·.word == text)

/-- Notes the modifiers that are not allowed. -/
def noteModifiers (allowed : String → Bool) (list : List Modifier) : Parse Unit :=
  list.forM fun m => unless allowed m.word do note "unexpected modifier" m.start

/-- The modifier that the token ahead is, given those before it. In a class, `const` is one, and
`static` before a block is none. -/
def modifierAhead? (inClass : Bool) (done : List Modifier) : Parse (Option Modifier) := do
  let l ← ahead
  match l.token with
  | .word w _ =>
    let next ← second
    let isModifier :=
      if w == "const" then inClass && !next.onNewLine
      else if w == "static" then !hasModifier "static" done && !(inClass && next.isMark "\x7b")
      else modifierWords.contains w && !next.onNewLine
    return if isModifier && next.followsModifier then some ⟨w, l.start⟩ else none
  | _ => return none

/-- The modifiers ahead; `done` holds those so far, last first. -/
def modifiersFrom (inClass : Bool) (done : List Modifier) : Nat → Parse (List Modifier)
  | 0 => unexpected
  | fuel + 1 => do
    match ← modifierAhead? inClass done with
    | some m =>
      pass
      if hasModifier m.word done then note "modifier given twice" m.start
      modifiersFrom inClass (m :: done) fuel
    | none => return done.reverse

namespace Grammar

variable (g : Grammar)

/-- The modifiers ahead. -/
def modifiers (inClass : Bool) : Parse (List Modifier) := modifiersFrom inClass [] g.fuel

/-- A decorator: an operand behind `@`, in which every bracket opens what is decorated. -/
def decorator : Parse Nat := do
  let start ← here
  expectMark "@"
  let operandStart ← here
  let e ← within (fun r => { r with inDecorator := true }) g.operand
  if let .chain _ _ := e then note "optional link in a decorator" operandStart
  return start

/-- The places of the decorators ahead. -/
def decorators : Parse (List Nat) := manyFrom (atMark "@") g.decorator [] g.fuel

end Grammar

end Stencil.Script
