import Stencil.Include.Error
import Stencil.Document

/-! # Failed compilations

Why there is no document of a file. Only the failure of an include directive leaves something to
go on with: the template around it.
-/
namespace Stencil
open Include (IncludeError)

/-- Why a file is not compiled. -/
inductive CompileError
  /-- The directive that asks for the file fails. -/
  | inclusion (reason : IncludeError)
  /-- The files of the chain include each other, from the first to the last. -/
  | cycle (chain : List String)
  /-- The file to begin with cannot be read. -/
  | template (path reason : String)
  deriving DecidableEq, Repr, Inhabited

namespace CompileError

/-- The name of a kind of failures. -/
def kindName : CompileError → String
  | inclusion _ => IncludeError.kindName
  | cycle _ => "CacheConsistencyError"
  | template _ _ => "TemplateError"

/-- The report of a failure. -/
def message : CompileError → String
  | inclusion reason => reason.message
  | cycle chain => "include cycle: " ++ String.intercalate " -> " chain
  | template path reason => "cannot read template '" ++ path ++ "': " ++ reason

end CompileError

/-- What a compilation ends with. -/
abbrev Outcome := Except CompileError Document

end Stencil
