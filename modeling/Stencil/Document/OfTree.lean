import Stencil.Text.Escape
import Stencil.Document

/-! # Documents of trees

The pieces that a tree is compiled to. Every node becomes one fragment: text becomes a statement
that writes it, an inline region a statement that writes the value of its expression, and a block
the statements that stand in it. What a directive becomes is decided by an action that is given.
-/
namespace Stencil.Template
open Stencil

/-- The origin of a position in a source. -/
def originAt (source : String) (p : Position) : Origin := ⟨source, p.mark⟩

/-- The statement that writes a text. It stays on one line, whatever the text is. -/
def writeStatement (value : String) : String := ";write(\"" ++ literalText value ++ "\");"

/-- A span that is copied. -/
def copied (source : String) (span : Span) : Chunk :=
  .fragment (some (originAt source span.start)) [.verbatim span.value]

section
universe u
variable {m : Type → Type u} [Monad m] (source : String) (insert : Inclusion → m Chunk)

/-- The piece of a directive. -/
def Inclusion.chunk (i : Inclusion) : m Chunk := do
  return .fragment (some (originAt source i.location.start)) [← insert i]

/-- The piece of a part of a block. -/
def BlockPart.chunk : BlockPart → m Chunk
  | .script span => return copied source span
  | .inclusion i => i.chunk source insert

/-- The piece of a node. A block ends in a line break, so that a comment at its end does not take
in the statement behind it. -/
def Node.chunk : Node → m Chunk
  | .text location value =>
    return .fragment (some (originAt source location.start)) [.code (writeStatement value)]
  | .inlineWrite location children =>
    return .fragment (some (originAt source location.start))
      (.code ";write(" :: children.map (copied source) ++ [.code ");"])
  | .block location parts => do
    let chunks ← parts.mapM (BlockPart.chunk source insert)
    return .fragment (some (originAt source location.start)) (chunks ++ [.code "\n"])
  | .inclusion i => i.chunk source insert

/-- The pieces of a tree. -/
def Tree.chunks (tree : Tree) : m (List Chunk) := tree.nodes.mapM (Node.chunk source insert)

end

end Stencil.Template
