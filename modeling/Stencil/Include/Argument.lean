import Stencil.Number.Decimal
import Stencil.Path
import Stencil.Script.Grammar

/-! # Arguments of include directives

The arguments are known before anything runs: strings, numbers, their concatenation, and calls that
join the segments of a path.
-/
namespace Stencil.Include
open Script

/-- Why an argument has no text. -/
inductive ArgumentError
  | empty
  /-- The argument holds an expression that has no text before anything runs. -/
  | notStatic (construct : String)
  /-- The argument is no expression. -/
  | unreadable (argument message : String)
  deriving DecidableEq, Repr, Inhabited

/-- The report of an argument without a text. -/
def ArgumentError.message : ArgumentError → String
  | .empty => "include directive has no path argument"
  | .notStatic construct => "`" ++ construct ++ "` is not a static path expression"
  | .unreadable argument message => "invalid include argument `" ++ argument ++ "`: " ++ message

/-- Whether a callee is one of the functions that join segments. -/
def isJoin : Expr → Bool
  | .name _ name => name == "join"
  | .member _ (.name _ owner) name _ _ => name == "join" && (owner == "path" || owner == "posix")
  | _ => false

/-- The refusal of a part of an argument. -/
def refusal (source : List Char) (span : Span) : ArgumentError :=
  .notStatic (String.ofList ((source.drop span.start).take (span.stop - span.start)))

mutual

/-- The text of an expression. -/
def staticText (source : List Char) : Expr → Except ArgumentError String
  | .string _ s => .ok s
  | .number _ x => .ok (numberText x)
  | .template span texts values =>
    if values.isEmpty then .ok (String.join texts) else .error (refusal source span)
  | .paren _ inner => staticText source inner
  | .binary span op left right =>
    if op = .add then do
      let a ← staticText source left
      let b ← staticText source right
      return a ++ b
    else .error (refusal source span)
  | .call span callee arguments _ =>
    if isJoin callee then do
      let segments ← staticSegments source arguments
      return Path.joinSegments segments
    else .error (refusal source span)
  | e => .error (refusal source e.span)

/-- The texts of the arguments of a call. -/
def staticSegments (source : List Char) : List Element → Except ArgumentError (List String)
  | [] => .ok []
  | .item e :: rest => do
    let s ← staticText source e
    let more ← staticSegments source rest
    return s :: more
  | .spread span _ :: _ => .error (refusal source span)
  | .hole :: rest => staticSegments source rest

end

/-- The text of an argument. -/
def argumentText (argument : String) : Except ArgumentError String :=
  let source := trimText argument
  if source.isEmpty then .error .empty
  else
    match readExpression source with
    | .ok e => staticText source.toList e
    | .error fault => .error (.unreadable source fault.message)

/-- The request of a directive: the texts of its arguments joined as segments of a path. -/
def request (arguments : List String) : Except ArgumentError String := do
  let segments ← arguments.mapM argumentText
  return Path.joinSegments segments

end Stencil.Include
