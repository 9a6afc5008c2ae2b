import Stencil.Script.Grammar.Operator
import Stencil.Script.Grammar.Assignment

/-! # Declarations

Variables, functions and classes, as statements and behind an export.
-/
namespace Stencil.Script

/-! ## Bound names -/

mutual

/-- The names that a pattern binds, with their places. -/
def Pattern.names : Pattern → List (String × Nat)
  | .hole => []
  | .name span name => [(name, span.start)]
  | .object _ fields rest => fieldNames fields ++ rest.names
  | .array _ elements rest => elementNames elements ++ rest.names
  | .fallback _ pattern _ => pattern.names

/-- The names that the fields of an object pattern bind. -/
def fieldNames : List PatternField → List (String × Nat)
  | [] => []
  | .mk _ pattern :: rest => pattern.names ++ fieldNames rest

/-- The names that the elements of an array pattern bind. -/
def elementNames : List Pattern → List (String × Nat)
  | [] => []
  | pattern :: rest => pattern.names ++ elementNames rest

end

/-- The names that a declaration of variables binds. -/
def Declarator.names : Declarator → List (String × Nat)
  | .mk pattern _ => pattern.names

/-- Whether a pattern is a single name. -/
def Pattern.isName : Pattern → Bool
  | .name _ _ => true
  | _ => false

/-! ## Variables -/

/-- How variables are declared: as what, and whether they are released at the end of their block,
for which they have to be names with values. -/
structure VariableStyle where
  kind : VariableKind
  released : Bool
  deriving Inhabited

/-- The style of the words `var`, `let` and `const`. -/
def VariableStyle.plain (kind : VariableKind) : VariableStyle := ⟨kind, false⟩

/-- The style of the word `using`. -/
def VariableStyle.release : VariableStyle := ⟨.let, true⟩

/-- A variable with the place where it is declared. -/
structure Declared where
  start : Nat
  declarator : Declarator

/-- Notes a variable that lacks a value: constants need one, and so do patterns. -/
def Declared.noteMissing (style : VariableStyle) (d : Declared) : Parse Unit :=
  match d.declarator with
  | .mk pattern none =>
    if style.released || style.kind = .const || !pattern.isName then
      note "missing initializer" d.start
    else pure ()
  | .mk _ (some _) => pure ()

namespace Grammar

variable (g : Grammar)

/-- A variable and its first value. -/
def declared (style : VariableStyle) (inLoop : Bool) : Parse Declared := do
  let start ← here
  let p ← g.pattern
  if style.released && !p.isName then note "pattern to be released" start
  let value? ← if ← eatMark "=" then some <$> g.assignment else pure none
  let d : Declared := ⟨start, .mk p value?⟩
  unless inLoop do d.noteMissing style
  return d

/-- Variables with their first values. In the head of a loop they may turn out not to need any. -/
def variableList (style : VariableStyle) (inLoop : Bool) : Parse (List Declared) := do
  let first ← g.declared style inLoop
  let more ← manyFrom (eatMark ",") (g.declared style inLoop) [] g.fuel
  return first :: more

/-- Whether the word ahead declares variables that are released, given the token behind it. -/
def atRelease (next : Lexeme) : Parse Bool := do
  return (← atWord "using") && !next.onNewLine && (next.isName || next.isMark "\x7b")

/-- Whether `await` and a word that declares variables that are released are ahead. -/
def atAwaitedRelease : Parse Bool := do
  unless (← get).inAsync && (← atWord "await") do return false
  let (a, b) ← third
  return a.isWord "using" && !a.onNewLine && b.isName && !b.onNewLine

/-- A statement that declares variables, behind the place `start` and its first words. -/
def variableTail (place : Place) (start : Nat) (style : VariableStyle) :
    Parse (List Declarator) := do
  let list ← g.variableList style false
  endStatement
  if place = .single && style.kind ≠ .var then note "declaration without a block" start
  return list.map Declared.declarator

/-! ## Functions and classes -/

/-- A statement that declares a function, behind the place `start` and its first words, and its
name. -/
def functionDeclaration (place : Place) (start : Nat) (isAsync : Bool) :
    Parse (Option (Span × String) × Stmt) := do
  let isGenerator ← atMark "*"
  let (name?, parameters, body) ← g.functionTail start .declared isAsync
  if place = .single && (isAsync || isGenerator) then note "function without a block" start
  let name := (name?.map Prod.snd).getD ""
  return (name?, .function name parameters.list body)

/-- A class that begins at `start`, behind its decorators and modifiers, and its name. -/
def classDeclaration (place : Place) (start : Nat) : Parse (Option (Span × String)) := do
  let name? ← g.classFrom
  if place = .single then note "class without a block" start
  return name?

end Grammar

end Stencil.Script
