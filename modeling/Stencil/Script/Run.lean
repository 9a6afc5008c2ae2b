import Stencil.Text.Position
import Stencil.Script.Grammar
import Stencil.Script.Evaluate.Pattern
import Stencil.Script.Evaluate.Expression
import Stencil.Script.Evaluate.Call
import Stencil.Script.Evaluate.Statement

/-! # Running scripts

A run reads a script, sets up the names that every script knows and those of its context, and
executes the statements. It ends with all that was written, or with the error that stopped it.
-/
namespace Stencil.Script

/-! ## The whole of evaluation -/

/-- Calls a value. -/
def Runner.callStep (r : Runner) (callee : Value) (values : List Value) (place : Nat) :
    Exec Value := do
  match callee with
  | .function f _ => r.callClosure ((← get).closures.getD f default) values place
  | .native f => callNative f values
  | .method receiver m => r.callMethod receiver m values place
  | v => raise .typeError ((← Script.textOf v) ++ " is not a function") place

/-- One step of a task, with runners for the tasks it refers to. -/
def Runner.step (r : Runner) : (task : Task) → Exec task.Result
  | .expression e scope => r.expressionStep e scope
  | .statement s scope => r.statementStep s scope
  | .bind p value scope constant => r.bindStep p value scope constant
  | .call callee values place => r.callStep callee values place

/-- Runs a task, going down at most `depth` tasks, with at most `bound` rounds of a loop. -/
def runTask (source : List Char) (bound : Nat) : Nat → (task : Task) → Exec task.Result
  | 0, _ => throw .exhausted
  | depth + 1, task => Runner.step ⟨source, bound, runTask source bound depth⟩ task

/-- The runner for a source with a bound on depth and rounds. -/
def Runner.bounded (source : List Char) (bound : Nat) : Runner :=
  ⟨source, bound, runTask source bound bound⟩

/-! ## The names of all scripts -/

/-- What a script can see besides its own names. -/
structure Globals where
  /-- The path of the template that is rendered. -/
  view : String
  /-- The fields of this object are names of the script. -/
  context : Json
  deriving Inhabited

/-- The values that no script can change. -/
def fixedNames : List (String × Value) := [
  ("undefined", .undefined), ("NaN", .number (0.0 / 0.0)), ("Infinity", .number (1.0 / 0.0))]

/-- The functions that have a name of their own. -/
def nativeNames : List (String × Native) := [
  ("write", .write), ("print", .write), ("println", .writeLine), ("writeHtml", .writeMarkup),
  ("writeJs", .writeScript), ("escapeHtml", .escapeMarkup), ("escapeJsString", .escapeScript),
  ("String", .string), ("Number", .number), ("Boolean", .boolean),
  ("Error", .error .error), ("TypeError", .error .typeError),
  ("ReferenceError", .error .referenceError), ("RangeError", .error .rangeError),
  ("SyntaxError", .error .syntaxError)]

/-- The number of the circle. -/
def circleNumber : Float := 3.141592653589793

/-- The objects that hold the other functions. -/
def nativeObjects : List (String × Fields) := [
  ("JSON", [("stringify", .native .jsonText)]),
  ("Array", [("isArray", .native .isArray)]),
  ("Object", [("keys", .native .objectKeys)]),
  ("Math", [("floor", .native .floor), ("ceil", .native .ceil), ("round", .native .round),
    ("abs", .native .abs), ("max", .native .max), ("min", .native .min),
    ("PI", .number circleNumber)])]

/-- Makes the value of a JSON value. -/
def newFromJson (json : Json) : Exec Value :=
  modifyGet fun m =>
    let (v, heap) := m.heap.ofJson json
    (v, { m with heap })

/-- Sets the names that every script knows, and then those of its context. -/
def install (globals : Globals) : Exec Unit := do
  let scope := Scopes.globalPlace
  for (name, v) in fixedNames do declare scope name v true
  for (name, f) in nativeNames do declare scope name (.native f) false
  for (name, fields) in nativeObjects do declare scope name (← newObject fields) false
  declare scope "__view" (.string globals.view) true
  match globals.context with
  | .object fields => for (name, json) in fields do declare scope name (← newFromJson json) false
  | _ => return

/-! ## Runs -/

/-- An error that ends a run, with the place in the code where it was raised. -/
structure ScriptError where
  kind : String
  message : String
  position : Option Mark
  deriving DecidableEq, Repr, Inhabited

/-- The place of a character of a source. -/
def markAt (source : List Char) (offset : Nat) : Mark :=
  (Position.origin.after (source.take offset)).mark

/-- The kind and the message of a thrown value: its name and message if it has both. -/
def Heap.describe (h : Heap) (v : Value) : String × String :=
  match h.errorParts? v with
  | some (name, message) => (h.text name, h.text message)
  | none => ("Error", h.text v)

/-- The kind that a run whose time is over is reported as. -/
def timeoutKind : String := "TimeoutError"

/-- The error that a run which stopped is reported with. -/
def reportAbort (source : List Char) (h : Heap) : Abort → ScriptError
  | .throw v place =>
    let (kind, message) := h.describe v
    ⟨kind, message, some (markAt source place)⟩
  | .timeout => ⟨timeoutKind, "template execution exceeded its time limit", none⟩
  | .exhausted => ⟨"RangeError", "template execution exceeded its step limit", none⟩

/-- The error that a source which cannot be read is reported with. -/
def reportFault (source : List Char) (fault : Fault) : ScriptError :=
  ⟨"SyntaxError", fault.message, some (markAt source fault.offset)⟩

/-- The whole of a program as a step. -/
def execProgram (source : List Char) (bound : Nat) (globals : Globals) (program : Program) :
    Exec Unit := do
  install globals
  let _ ← (Runner.bounded source bound).block program Scopes.globalPlace

/-- Runs a program on a new machine. -/
def runProgram (source : List Char) (bound : Nat) (globals : Globals) (clock : Clock)
    (program : Program) : Except ScriptError String :=
  match execProgram source bound globals program (.start clock) with
  | .ok _ m => .ok m.output
  | .error why m => .error (reportAbort source m.heap why)

/-- A bound on depth and rounds that no run reaches in any time. -/
def amplyBounded : Nat := Nat.pow 2 62

/-- Runs a script. -/
def runScript (code : String) (globals : Globals) (clock : Clock) : Except ScriptError String :=
  let source := code.toList
  match readProgram code with
  | .error fault => .error (reportFault source fault)
  | .ok program => runProgram source amplyBounded globals clock program

end Stencil.Script
