import Stencil.Compile
import Stencil.Compile.World
import Stencil.Engine.Error
import Stencil.Script.Run

/-! # Engines

An engine compiles templates to programs and renders them: it executes a program with a context,
and leads the errors of the script back to the template files.
-/
namespace Stencil
open Script (timeoutKind)

/-- How the execution of a program ends. -/
inductive Execution
  | output (text : String)
  /-- It fails; only the first error is reported. -/
  | errors (list : List Script.ScriptError)
  /-- It never ends. -/
  | endless
  deriving Inhabited

/-- Executes a program that may take a number of milliseconds. -/
abbrev Executor := Program → Script.Globals → (millis : Nat) → Execution

/-- How often a script looks at the clock in a millisecond. -/
def looksPerMilli : Nat := 2000

/-- The clock of a script that may take a number of milliseconds. -/
def Script.Clock.ofMillis (millis : Nat) : Script.Clock := ⟨some (millis * looksPerMilli)⟩

/-- Executes the code of a program as a script. -/
def scriptExecutor : Executor := fun program globals millis =>
  match Script.runScript program.code globals (.ofMillis millis) with
  | .ok text => .output text
  | .error error => .errors [error]

/-- The output of a program, with the errors of directives that were left out. -/
structure Rendered where
  output : String
  includeErrors : List RenderError
  deriving DecidableEq, Repr, Inhabited

/-- What a rendering ends with. -/
abbrev Rendering := Except RenderError Rendered

/-- A rendering as the error and the output that a caller is told. There are both if directives
were left out. -/
def Rendering.told : Rendering → Option String × Option String
  | .ok ⟨output, []⟩ => (none, some output)
  | .ok ⟨output, errors⟩ =>
    (some (String.intercalate "\n\n" (errors.map RenderError.report)), some output)
  | .error error => (some error.report, none)

/-- What an engine works with. -/
structure Engine where
  dialect : Dialect
  includePolicy : IncludePolicy
  timeoutMillis : Nat
  executor : Executor

/-- The error of a failed directive. -/
def Program.failureError (p : Program) (f : PlacedFailure) : RenderError :=
  .traced Include.IncludeError.kindName f.failure.error.message <|
    match f.generated with
    | some place => p.diagnose place
    | none => ⟨[f.failure.origin], false⟩

/-- The error of an execution that failed. -/
def Program.scriptError (p : Program) (millis : Nat) : List Script.ScriptError → RenderError
  | [] => .traced "Error" "template execution failed" .none
  | error :: _ =>
    if error.kind = timeoutKind then .timeout millis
    else .traced error.kind error.message ((error.position.map p.diagnose).getD .none)

namespace Engine

/-- The engine of options, which executes programs as scripts. -/
def ofOptions (o : Options) : Engine where
  dialect := ⟨o.templateSyntax.classify, o.extension, Path.resolve o.extension⟩
  includePolicy := o.includePolicy
  timeoutMillis := o.timeoutMillis
  executor := scriptExecutor

/-- Carries out a compilation as one of its own. The chain of files can hold each of them, and one
more that is not a file. -/
def compileWith (job : (depth : Nat) → Job Outcome) (w : World) :
    Except CompileError Program × World :=
  let (owner, w) := w.newOwner
  let (outcome, w) := (job (w.files.size + 1)).run owner w
  (outcome.map Document.program, w)

/-- Compiles the template at a path, and all that it includes, to a program. -/
def compile (e : Engine) (path : String) (w : World) : Except CompileError Program × World :=
  compileWith (fun depth => compileFile e.dialect depth (Path.normalize path)) w

/-- Compiles a text as if it were the file at a path. Its document is not kept. -/
def compileSource (e : Engine) (path source : String) (w : World) :
    Except CompileError Program × World :=
  compileWith (fun depth => compileText e.dialect depth [] (Path.normalize path) source) w

/-- Executes a program with a context. -/
def execute (e : Engine) (p : Program) (context : Json) : Rendering :=
  match e.includePolicy, p.failures.map p.failureError with
  | .fail, error :: _ => .error error
  | _, includeErrors =>
    match e.executor p ⟨p.root.path, context⟩ e.timeoutMillis with
    | .output output => .ok ⟨output, includeErrors⟩
    | .errors list => .error (p.scriptError e.timeoutMillis list)
    | .endless => .error (.timeout e.timeoutMillis)

/-- Executes a program if it was compiled. -/
def executeCompiled (e : Engine) (compiled : Except CompileError Program) (context : Json) :
    Rendering :=
  match compiled with
  | .ok program => e.execute program context
  | .error reason => .error (.compile reason)

/-- Renders the template at a path. -/
def render (e : Engine) (path : String) (context : Json) (w : World) : Rendering × World :=
  let (compiled, w) := e.compile path w
  (e.executeCompiled compiled context, w)

/-- Renders a text as if it were the file at a path. -/
def renderSource (e : Engine) (path source : String) (context : Json) (w : World) :
    Rendering × World :=
  let (compiled, w) := e.compileSource path source w
  (e.executeCompiled compiled context, w)

/-- Gives up the document of a path, and says whether one was kept. -/
def invalidate (path : String) (w : World) : Bool × World :=
  let (cache, removed) := w.cache.invalidate (Path.normalize path)
  (removed, { w with cache })

end Engine

end Stencil
