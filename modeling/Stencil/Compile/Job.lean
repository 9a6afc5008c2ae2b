import Stencil.Compile.Error

/-! # Jobs

What a compilation does that others can notice, as a tree: it reads files, takes numbers for the
documents that it makes, and asks the cache for the documents of other files. Everything between two
such steps is its own affair. A job says nothing about who carries it out, and when.
-/
namespace Stencil

/-- The steps of a compilation up to a result. -/
inductive Job : Type → Type 1
  | done {α : Type} (result : α) : Job α
  /-- Reads a file. -/
  | read {α : Type} (path : String) (next : Except ReadError String → Job α) : Job α
  /-- Takes a number that no document has. -/
  | number {α : Type} (next : Nat → Job α) : Job α
  /-- Asks the cache for the document of a path, and carries out `compile` if the cache has none.
  The files of `chain` have led here, the path comes last in it. -/
  | obtain {α : Type} (path : String) (chain : List String) (compile : Job Outcome)
      (next : Outcome → Job α) : Job α

namespace Job

/-- A job followed by another one that depends on its result. -/
def bind {α β : Type} : Job α → (α → Job β) → Job β
  | done a, f => f a
  | read path next, f => read path fun r => (next r).bind f
  | number next, f => number fun n => (next n).bind f
  | .obtain path chain compile next, f => .obtain path chain compile fun r => (next r).bind f

instance : Monad Job where
  pure := done
  bind := bind

/-- Reads a file. -/
def readFile (path : String) : Job (Except ReadError String) := read path done

/-- Takes a number that no document has. -/
def newNumber : Job Nat := number done

/-- Asks the cache for a document. -/
def obtainDocument (path : String) (chain : List String) (compile : Job Outcome) : Job Outcome :=
  .obtain path chain compile done

end Job

end Stencil
