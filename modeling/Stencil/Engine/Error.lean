import Stencil.Compile.Error
import Stencil.Program
import Stencil.Script.Run

/-! # Failed renderings

What went wrong in a rendering, and the report of it: the kind of the error with its message, and
one line for every directive on the way to it, from the inside out.
-/
namespace Stencil
open Script (timeoutKind)

/-- Why a rendering has no output. -/
inductive RenderError
  | compile (reason : CompileError)
  /-- An error of the script or of a directive, with what is known of its place. -/
  | traced (kind message : String) (diagnosis : Diagnosis)
  /-- The script did not end within the given number of milliseconds. -/
  | timeout (millis : Nat)
  deriving DecidableEq, Repr, Inhabited

namespace Diagnosis

/-- What is said before an error whose place is not known for certain. -/
def caution : String :=
  "the error may not be at the exact position\n" ++
    " check your views for syntax errors such as unclosed tags\n\n"

/-- The lines of a trace. -/
def lines (d : Diagnosis) : String :=
  String.join (d.frames.map fun o => "\n    at " ++ o.frame)

end Diagnosis

namespace RenderError

/-- The kind of an error. -/
def kind : RenderError → String
  | compile reason => reason.kindName
  | traced kind _ _ => kind
  | timeout _ => timeoutKind

/-- The report of an error. -/
def report : RenderError → String
  | compile reason => reason.kindName ++ ": " ++ reason.message
  | traced kind message d =>
    (if d.approximate then Diagnosis.caution else "") ++ kind ++ ": " ++ message ++ d.lines
  | timeout millis =>
    timeoutKind ++ ": template execution exceeded " ++ millis.repr ++ "ms"

end RenderError

end Stencil
