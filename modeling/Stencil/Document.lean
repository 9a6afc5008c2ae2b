import Stencil.Hash.Sha256
import Stencil.Include.Error
import Stencil.Template.Tree

/-! # Documents

The compiled form of one template file: pieces of code that know which place of which file they
come from. The documents that a document includes are parts of it, so that a document is a finite
tree; one that is included in several places is the same part in each of them.
-/
namespace Stencil
open Include (IncludeError)

/-- A place in a template file. -/
structure Origin where
  source : String
  mark : Mark
  deriving DecidableEq, Repr, Inhabited

/-- An origin as it stands in a trace. -/
def Origin.frame (o : Origin) : String :=
  o.source ++ ":" ++ o.mark.line.repr ++ ":" ++ o.mark.column.repr

/-- What a document knows of the file it was compiled from. -/
structure Stamp where
  /-- No two documents have the same number. -/
  number : Nat
  path : String
  /-- The hash of the text that was compiled. -/
  hash : String
  malformed : List Template.Malformed
  deriving DecidableEq, Repr, Inhabited

mutual

/-- A piece of compiled code. -/
inductive Chunk
  /-- Code that comes from the origin of the fragment around it as a whole. -/
  | code (text : String)
  /-- Text that is copied character by character. -/
  | verbatim (text : String)
  /-- The place of a directive that has failed. -/
  | gap (error : IncludeError)
  /-- Pieces that come from the same place. -/
  | fragment (origin : Option Origin) (chunks : List Chunk)
  /-- The document that the directive at `directive` inserts. -/
  | inclusion (directive : Origin) (document : Document)

/-- The compiled form of a template file. -/
inductive Document
  | mk (stamp : Stamp) (chunks : List Chunk)

end

instance : Inhabited Document := ⟨.mk default []⟩

/-- An include directive that has failed. -/
structure Failure where
  origin : Origin
  error : IncludeError
  deriving DecidableEq, Repr, Inhabited

/-- The code that stands in the place of a failed directive. -/
def gapCode : String := " "

/-! ## Code -/

mutual

/-- The code of a piece, with that of all included documents. -/
def Chunk.text : Chunk → String
  | .code text => text
  | .verbatim text => text
  | .gap _ => gapCode
  | .fragment _ chunks => textOfChunks chunks
  | .inclusion _ document => document.text

/-- The code of pieces. -/
def textOfChunks : List Chunk → String
  | [] => ""
  | c :: cs => c.text ++ textOfChunks cs

/-- The code of a document. -/
def Document.text : Document → String
  | .mk _ chunks => textOfChunks chunks

end

/-! ## The directives of a document -/

/-- An include directive with the document that it inserts. -/
structure Site where
  directive : Origin
  document : Document
  deriving Inhabited

mutual

/-- The directives in a piece that insert a document, in order, without those of the documents. -/
def Chunk.sites : Chunk → List Site
  | .fragment _ chunks => sitesOfChunks chunks
  | .inclusion directive document => [⟨directive, document⟩]
  | _ => []

/-- The directives in pieces that insert a document. -/
def sitesOfChunks : List Chunk → List Site
  | [] => []
  | c :: cs => c.sites ++ sitesOfChunks cs

end

mutual

/-- The failed directives in a piece that comes from `origin`, in order, without those of the
documents. -/
def Chunk.failures (origin : Option Origin) : Chunk → List Failure
  | .gap error => [⟨origin.getD default, error⟩]
  | .fragment own chunks => failuresOfChunks (own <|> origin) chunks
  | _ => []

/-- The failed directives in pieces that come from `origin`. -/
def failuresOfChunks (origin : Option Origin) : List Chunk → List Failure
  | [] => []
  | c :: cs => c.failures origin ++ failuresOfChunks origin cs

end

mutual

/-- Whether a piece, or a document in it, has a failed directive. -/
def Chunk.hasGaps : Chunk → Bool
  | .gap _ => true
  | .fragment _ chunks => haveGaps chunks
  | .inclusion _ document => document.hasGaps
  | _ => false

/-- Whether one of the pieces has a failed directive. -/
def haveGaps : List Chunk → Bool
  | [] => false
  | c :: cs => c.hasGaps || haveGaps cs

/-- Whether a document, or one that it includes, has a failed directive. -/
def Document.hasGaps : Document → Bool
  | .mk _ chunks => haveGaps chunks

end

mutual

/-- Whether the files of all documents in a piece hold the text that was compiled. -/
def Chunk.isFresh (files : Files) : Chunk → Bool
  | .fragment _ chunks => areFresh files chunks
  | .inclusion _ document => document.isFresh files
  | _ => true

/-- Whether the files of all documents in pieces hold the text that was compiled. -/
def areFresh (files : Files) : List Chunk → Bool
  | [] => true
  | c :: cs => c.isFresh files && areFresh files cs

/-- Whether the file of a document, and those of all that it includes, hold the text that was
compiled. -/
def Document.isFresh (files : Files) : Document → Bool
  | .mk stamp chunks =>
    match files.read stamp.path with
    | .ok content => contentHash content == stamp.hash && areFresh files chunks
    | .error _ => false

end

namespace Document

/-- What a document knows of its file. -/
def stamp : Document → Stamp
  | .mk stamp _ => stamp

/-- The pieces of a document. -/
def chunks : Document → List Chunk
  | .mk _ chunks => chunks

/-- The number of a document. -/
def number (d : Document) : Nat := d.stamp.number

/-- The path of the file that a document was compiled from. -/
def path (d : Document) : String := d.stamp.path

/-- The directives of a document that insert another one, in order. -/
def sites (d : Document) : List Site := sitesOfChunks d.chunks

/-- The directives of a document that have failed, in order. -/
def failures (d : Document) : List Failure := failuresOfChunks none d.chunks

end Document

mutual

/-- The documents in a piece, each before those that it includes. -/
def Chunk.documents : Chunk → List Document
  | .fragment _ chunks => documentsOfChunks chunks
  | .inclusion _ document => document.withIncluded
  | _ => []

/-- The documents in pieces, each before those that it includes. -/
def documentsOfChunks : List Chunk → List Document
  | [] => []
  | c :: cs => c.documents ++ documentsOfChunks cs

/-- A document followed by all that it includes, once for each place. -/
def Document.withIncluded : Document → List Document
  | .mk stamp chunks => .mk stamp chunks :: documentsOfChunks chunks

end

end Stencil
