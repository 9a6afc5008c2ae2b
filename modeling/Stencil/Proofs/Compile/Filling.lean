import Mathlib.Data.List.Zip
import Stencil.Proofs.Compile.Expansion

/-! # Filling in directives

A tree is compiled from left to right, and nothing depends on what a directive has become but the
piece in its place.  So the directives of a tree can be carried out first, one after the other, and
what they have become is filled in afterwards.  What can be gathered from the pieces of a document
is gathered from the pieces of its directives.
-/
namespace Stencil
open Template (originAt writeStatement)

namespace Template

/-! ## Trees whose directives are filled in -/

/-- The parts of a block whose directives become some chunks, in order. -/
def fillParts (source : String) : List BlockPart → List Chunk → List Chunk
  | [], _ => []
  | .script span :: parts, cs => copied source span :: fillParts source parts cs
  | .inclusion i :: parts, cs =>
    .fragment (some (originAt source i.location.start)) (cs.take 1) ::
      fillParts source parts (cs.drop 1)

/-- The piece of a node whose directives become some chunks, in order. -/
def Node.fill (source : String) : Node → List Chunk → Chunk
  | .text location value, _ =>
    .fragment (some (originAt source location.start)) [.code (writeStatement value)]
  | .inlineWrite location children, _ =>
    .fragment (some (originAt source location.start))
      (.code ";write(" :: children.map (copied source) ++ [.code ");"])
  | .block location parts, cs =>
    .fragment (some (originAt source location.start)) (fillParts source parts cs ++ [.code "\n"])
  | .inclusion i, cs => .fragment (some (originAt source i.location.start)) cs

/-- The pieces of nodes whose directives become some chunks, in order. -/
def fillNodes (source : String) : List Node → List Chunk → List Chunk
  | [], _ => []
  | n :: ns, cs =>
    n.fill source (cs.take n.inclusions.length) ::
      fillNodes source ns (cs.drop n.inclusions.length)

/-- The pieces of a tree whose directives become some chunks, in order. -/
def Tree.fill (source : String) (tree : Tree) (cs : List Chunk) : List Chunk :=
  fillNodes source tree.nodes cs

section
universe u
variable {m : Type → Type u} [Monad m] [LawfulMonad m]

/-- An action on all members of a list gives as many results as there are members. -/
theorem mapM_bind_congr {α β γ : Type} {f : α → m β} {xs : List α} {g g' : List β → m γ}
    (h : ∀ ys, ys.length = xs.length → g ys = g' ys) : xs.mapM f >>= g = xs.mapM f >>= g' := by
  induction xs generalizing g g' with
  | nil => simpa using h [] rfl
  | cons x xs ih =>
    simp only [List.mapM_cons, bind_assoc, pure_bind]
    refine bind_congr fun y => ih fun ys hys => h (y :: ys) ?_
    rw [List.length_cons, List.length_cons, hys]

variable {source : String} {insert : Inclusion → m Chunk}

theorem mapM_parts (parts : List BlockPart) :
    parts.mapM (BlockPart.chunk source insert) =
      fillParts source parts <$> (Node.block default parts).inclusions.mapM insert := by
  induction parts with
  | nil => simp [Node.inclusions, fillParts]
  | cons part parts ih =>
    rw [List.mapM_cons, ih]
    cases part with
    | script span =>
      simp only [BlockPart.chunk, pure_bind, bind_pure_comp, Functor.map_map]
      rfl
    | inclusion i =>
      simp [BlockPart.chunk, Inclusion.chunk, Node.inclusions, BlockPart.inclusion?, fillParts]

theorem Node.chunk_eq (n : Node) :
    n.chunk source insert = n.fill source <$> n.inclusions.mapM insert := by
  cases n with
  | text => simp [Node.chunk, Node.inclusions, Node.fill]
  | inlineWrite => simp [Node.chunk, Node.inclusions, Node.fill]
  | block location parts =>
    rw [Node.chunk, mapM_parts]
    simp only [bind_pure_comp, Functor.map_map]
    rfl
  | inclusion i =>
    simp [Node.chunk, Inclusion.chunk, Node.inclusions]
    rfl

/-- **The directives of a tree can be carried out before all else.** -/
theorem Tree.chunks_eq (tree : Tree) :
    tree.chunks source insert = tree.fill source <$> tree.inclusions.mapM insert := by
  unfold Tree.chunks Tree.fill Tree.inclusions
  induction tree.nodes with
  | nil => simp [fillNodes]
  | cons n ns ih =>
    rw [List.mapM_cons, ih, Node.chunk_eq, List.flatMap_cons, List.mapM_append]
    simp only [bind_map_left, map_bind, bind_pure_comp, Functor.map_map]
    refine mapM_bind_congr fun cs hcs => ?_
    have hlength : n.inclusions.length = cs.length := hcs.symm
    simp [fillNodes, hlength]

end

end Template

/-! ## What is gathered from pieces -/

/-- Something is gathered from pieces, each with the origin of the fragment around it, in the order
in which they stand; code and copied text contribute nothing. -/
structure Gathers {β : Type} (gather : Option Origin → Chunk → List β) : Prop where
  code : ∀ origin text, gather origin (.code text) = []
  verbatim : ∀ origin text, gather origin (.verbatim text) = []
  fragment : ∀ origin own chunks,
    gather origin (.fragment own chunks) = chunks.flatMap (gather (own <|> origin))

namespace Template

variable {β : Type} {gather : Option Origin → Chunk → List β} {source : String}

/-- What is gathered from what directives have become. -/
def gathered (source : String) (gather : Option Origin → Chunk → List β)
    (is : List Inclusion) (cs : List Chunk) : List β :=
  (is.zip cs).flatMap fun (i, c) => gather (some (originAt source i.location.start)) c

theorem gather_copied (h : Gathers gather) (origin : Option Origin) (span : Span) :
    gather origin (copied source span) = [] := by
  simp [copied, h.fragment, h.verbatim]

theorem gather_parts (h : Gathers gather) {parts : List BlockPart} {cs : List Chunk}
    (hlength : cs.length = (Node.block default parts).inclusions.length)
    (origin : Option Origin) :
    (fillParts source parts cs).flatMap (gather origin) =
      gathered source gather (Node.block default parts).inclusions cs := by
  induction parts generalizing cs with
  | nil => simp [fillParts, gathered, Node.inclusions]
  | cons part parts ih =>
    cases part with
    | script span =>
      rw [fillParts, List.flatMap_cons, gather_copied h, List.nil_append]
      exact ih hlength
    | inclusion i =>
      cases cs with
      | nil => cases hlength
      | cons c cs =>
        rw [fillParts, List.flatMap_cons, List.drop_one, List.tail_cons,
          ih (Nat.succ.inj hlength), h.fragment]
        simp
        rfl

theorem Node.gather_fill (h : Gathers gather) {n : Node} {cs : List Chunk}
    (hlength : cs.length = n.inclusions.length) (origin : Option Origin) :
    gather origin (n.fill source cs) = gathered source gather n.inclusions cs := by
  cases n with
  | text => simp [Node.fill, Node.inclusions, gathered, h.fragment, h.code]
  | inlineWrite location children =>
    simp [Node.fill, Node.inclusions, gathered, h.fragment, h.code, List.flatMap_map,
      gather_copied h]
  | block location parts =>
    have hparts : ∀ origin, (fillParts source parts cs).flatMap (gather origin) =
        gathered source gather (Node.block default parts).inclusions cs :=
      gather_parts h hlength
    simp [Node.fill, h.fragment, h.code, hparts]
    rfl
  | inclusion i =>
    obtain ⟨c, rfl⟩ := List.length_eq_one_iff.mp hlength
    simp [Node.fill, Node.inclusions, gathered, h.fragment]

/-- **What is gathered from the pieces of a tree is gathered from those of its directives.** -/
theorem Tree.gather_fill (h : Gathers gather) {tree : Tree} {cs : List Chunk}
    (hlength : cs.length = tree.inclusions.length) (origin : Option Origin) :
    (tree.fill source cs).flatMap (gather origin) =
      gathered source gather tree.inclusions cs := by
  obtain ⟨nodes, malformed⟩ := tree
  unfold Tree.fill Tree.inclusions at *
  induction nodes generalizing cs with
  | nil => simp [fillNodes, gathered]
  | cons n ns ih =>
    rw [List.flatMap_cons, List.length_append] at hlength
    have hfirst : (cs.take n.inclusions.length).length = n.inclusions.length := by
      rw [List.length_take]
      omega
    have hrest : (cs.drop n.inclusions.length).length = (ns.flatMap Node.inclusions).length := by
      rw [List.length_drop]
      omega
    rw [fillNodes, List.flatMap_cons, Node.gather_fill h hfirst, ih hrest, List.flatMap_cons]
    nth_rewrite 3 [← List.take_append_drop n.inclusions.length cs]
    rw [gathered, gathered, gathered, List.zip_append hfirst.symm, List.flatMap_append]

end Template

/-! ## The directives of a document -/

theorem sitesOfChunks_eq_flatMap (cs : List Chunk) : sitesOfChunks cs = cs.flatMap Chunk.sites := by
  induction cs with
  | nil => rfl
  | cons c cs ih => rw [sitesOfChunks, ih, List.flatMap_cons]

theorem failuresOfChunks_eq_flatMap (origin : Option Origin) (cs : List Chunk) :
    failuresOfChunks origin cs = cs.flatMap (Chunk.failures origin) := by
  induction cs with
  | nil => rfl
  | cons c cs ih => rw [failuresOfChunks, ih, List.flatMap_cons]

theorem gathers_sites : Gathers fun _ => Chunk.sites where
  code _ _ := rfl
  verbatim _ _ := rfl
  fragment _ _ chunks := sitesOfChunks_eq_flatMap chunks

theorem gathers_failures : Gathers Chunk.failures where
  code _ _ := rfl
  verbatim _ _ := rfl
  fragment origin own chunks := failuresOfChunks_eq_flatMap (own <|> origin) chunks

mutual

theorem Chunk.documents_eq_flatMap :
    ∀ c : Chunk, c.documents = c.sites.flatMap fun s => s.document.withIncluded
  | .code _ | .verbatim _ | .gap _ => rfl
  | .fragment _ chunks => documentsOfChunks_eq_flatMap chunks
  | .inclusion _ document => by
    rw [Chunk.documents, Chunk.sites, List.flatMap_cons, List.flatMap_nil, List.append_nil]

/-- The documents in pieces are those at their sites, with all that they include. -/
theorem documentsOfChunks_eq_flatMap :
    ∀ cs : List Chunk,
      documentsOfChunks cs = (sitesOfChunks cs).flatMap fun s => s.document.withIncluded
  | [] => rfl
  | c :: cs => by
    rw [documentsOfChunks, sitesOfChunks, List.flatMap_append, ← c.documents_eq_flatMap,
      ← documentsOfChunks_eq_flatMap cs]

end

mutual

theorem Chunk.hasGaps_iff (origin : Option Origin) :
    ∀ c : Chunk, c.hasGaps = true ↔
      c.failures origin ≠ [] ∨ ∃ s ∈ c.sites, s.document.hasGaps = true
  | .code _ | .verbatim _ | .gap _ => by simp [Chunk.hasGaps, Chunk.failures, Chunk.sites]
  | .fragment own chunks => haveGaps_iff (own <|> origin) chunks
  | .inclusion _ document => by simp [Chunk.hasGaps, Chunk.failures, Chunk.sites]

theorem haveGaps_iff (origin : Option Origin) :
    ∀ cs : List Chunk, haveGaps cs = true ↔
      failuresOfChunks origin cs ≠ [] ∨ ∃ s ∈ sitesOfChunks cs, s.document.hasGaps = true
  | [] => by simp [haveGaps, failuresOfChunks, sitesOfChunks]
  | c :: cs => by
    rw [haveGaps, Bool.or_eq_true, c.hasGaps_iff origin, haveGaps_iff origin cs, failuresOfChunks,
      sitesOfChunks, ← not_iff_not]
    simp only [not_or, not_not, not_exists, not_and, List.append_eq_nil_iff, List.mem_append,
      or_imp, forall_and]
    tauto

end

namespace Document

/-- The sites and the failures of a document are those of what its directives have become. -/
theorem directives_fill (stamp : Stamp) (source : String) {tree : Template.Tree} {cs : List Chunk}
    (hlength : cs.length = tree.inclusions.length) :
    (Document.mk stamp (tree.fill source cs)).sites =
        Template.gathered source (fun _ => Chunk.sites) tree.inclusions cs ∧
      (Document.mk stamp (tree.fill source cs)).failures =
        Template.gathered source Chunk.failures tree.inclusions cs := by
  constructor
  · rw [sites, chunks, sitesOfChunks_eq_flatMap]
    exact Template.Tree.gather_fill gathers_sites hlength none
  · rw [failures, chunks, failuresOfChunks_eq_flatMap]
    exact Template.Tree.gather_fill gathers_failures hlength none

/-- The documents in a document are itself and those at its sites, with all that they include. -/
theorem mem_withIncluded_iff {d x : Document} :
    x ∈ d.withIncluded ↔ x = d ∨ ∃ s ∈ d.sites, x ∈ s.document.withIncluded := by
  obtain ⟨stamp, chunks⟩ := d
  rw [withIncluded, List.mem_cons, documentsOfChunks_eq_flatMap, List.mem_flatMap]
  rfl

/-- A document has a gap if one of its own directives fails, or there is a gap at one of its
sites. -/
theorem hasGaps_iff (d : Document) :
    d.hasGaps = true ↔ d.failures ≠ [] ∨ ∃ s ∈ d.sites, s.document.hasGaps = true := by
  obtain ⟨stamp, chunks⟩ := d
  exact haveGaps_iff none chunks

/-- What is at the sites of a document without gaps has no gaps. -/
theorem hasGaps_of_mem_sites {d : Document} (h : d.hasGaps = false) {s : Site} (hs : s ∈ d.sites) :
    s.document.hasGaps = false := by
  by_contra hgaps
  exact absurd (d.hasGaps_iff.mpr (.inr ⟨s, hs, by simpa using hgaps⟩)) (by simp [h])

end Document

end Stencil
