import Stencil.Files
import Stencil.Include.Argument

/-! # Failed include directives

Why a directive inserts nothing. A template with such a directive can still be compiled.
-/
namespace Stencil.Include

/-- Why nothing can be inserted for a directive. -/
inductive IncludeError
  /-- The directive makes no request. -/
  | argument (reason : ArgumentError)
  | notFound (path : String)
  | unreadable (path : String) (reason : ReadError)
  deriving DecidableEq, Repr, Inhabited

namespace IncludeError

/-- The report of a failed directive. -/
def message : IncludeError → String
  | argument reason => reason.message
  | notFound path => "ENOENT: no such file or directory, open '" ++ path ++ "'"
  | unreadable path reason => "cannot read '" ++ path ++ "': " ++ reason.message

/-- The failure of a directive whose file cannot be read. -/
def ofReadError (path : String) : ReadError → IncludeError
  | .notFound => notFound path
  | reason => unreadable path reason

/-- The kind that failed directives are reported as. -/
def kindName : String := "IncludeResolutionError"

end IncludeError

end Stencil.Include
