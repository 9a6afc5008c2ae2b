import Stencil.Compile.Job
import Stencil.Document.OfTree
import Stencil.Template.Scan

/-! # Compilation

Compiles a template file, and every file that it includes by directives. A directive that names a
file which is being compiled already closes a cycle, and the compilation fails; a directive that
fails for any other reason leaves a gap in the document.
-/
namespace Stencil
open Include (IncludeError)

/-- How templates are written, and how their directives name files. -/
structure Dialect where
  classifier : Template.Classifier
  /-- The extension of template files; requests are made with or without it. -/
  extension : String
  /-- The path that a request leads to in a file. -/
  resolve : (request file : String) → String

namespace Dialect

/-- The path that a directive with the given arguments names in a file. -/
def target (d : Dialect) (arguments : List String) (file : String) :
    Except IncludeError String :=
  match Include.request arguments with
  | .error reason => .error (.argument reason)
  | .ok request =>
    .ok (Path.normalize (d.resolve (Path.stripExtension request d.extension) file))

/-- The tree of a template. -/
def tree (d : Dialect) (content : String) : Template.Tree :=
  .ofSpans (Template.scan d.classifier content)

end Dialect

/-- A compilation that can fail. -/
abbrev Compiling := ExceptT CompileError Job

/-- What a directive becomes whose document is obtained, or not. -/
def insertion (directive : Origin) : Outcome → Except CompileError Chunk
  | .ok document => .ok (.inclusion directive document)
  | .error (.inclusion reason) => .ok (.gap reason)
  | .error reason => .error reason

/-- Reads a file that a directive names, and goes on to compile it. -/
def readIncluded (path : String) (compile : String → Job Outcome) : Job Outcome := do
  match ← Job.readFile path with
  | .ok content => compile content
  | .error reason => return .error (.inclusion (.ofReadError path reason))

/-- What a directive becomes in the last file of a chain. `compile` goes on with the file that it
names, and with the text of that file. -/
def insert (d : Dialect) (chain : List String) (file : String)
    (compile : (path content : String) → Job Outcome) (i : Template.Inclusion) :
    Compiling Chunk := do
  match d.target i.arguments file with
  | .error reason => return .gap reason
  | .ok target =>
    match chain.dropWhile (· != target) with
    | [] =>
      .mk (insertion (Template.originAt file i.location.start) <$>
        Job.obtainDocument target (chain ++ [target]) (readIncluded target (compile target)))
    | cycle => throw (.cycle (cycle ++ [target]))

/-- Compiles the text of a file that is included through the files of `chain`, the first of them
first. The chain can grow by at most `depth` files; one that holds more files than there are would
hold one of them twice. -/
def compileText (d : Dialect) : (depth : Nat) → (chain : List String) →
    (path content : String) → Job Outcome
  | 0, chain, path, _ => return .error (.cycle (chain ++ [path]))
  | depth + 1, chain, path, content => do
    let tree := d.tree content
    let chain := chain ++ [path]
    match ← (tree.chunks path (insert d chain path (compileText d depth chain))).run with
    | .error reason => return .error reason
    | .ok chunks =>
      let number ← Job.newNumber
      return .ok (.mk ⟨number, path, contentHash content, tree.malformed⟩ chunks)

/-- Compiles the file at a path, which no other file includes. -/
def compileFile (d : Dialect) (depth : Nat) (path : String) : Job Outcome :=
  Job.obtainDocument path [path] do
    match ← Job.readFile path with
    | .ok content => compileText d depth [] path content
    | .error reason => return .error (.template path reason.message)

end Stencil
