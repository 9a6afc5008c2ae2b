import Stencil.Proofs.Compile.Numbering
import Stencil.Proofs.Program.Notes

/-! # Every include once, and in its place

The code of a program is the code of its root with all includes carried out in their places.  What
is recorded of them follows the includes of the root, the includes of what they insert, and so on:
one occurrence for each, behind those in it, with the range that its document takes.  A weaver that
looks ranges up in its notes finds the same ones, since the documents of an engine are numbered from
the inside out.
-/
namespace Stencil

/-! ## The includes of a root -/

mutual

/-- The directives in a piece that insert a document, with those in the documents. Those in a
document stand in front of the directive that inserts it. -/
def Chunk.expandedSites : Chunk → List Site
  | .fragment _ chunks => expandedSitesOfChunks chunks
  | .inclusion directive document => document.expandedSites ++ [⟨directive, document⟩]
  | _ => []

/-- The directives in pieces that insert a document, with those in the documents. -/
def expandedSitesOfChunks : List Chunk → List Site
  | [] => []
  | c :: cs => c.expandedSites ++ expandedSitesOfChunks cs

/-- The directives of a document that insert another one, with those in these documents. -/
def Document.expandedSites : Document → List Site
  | .mk _ chunks => expandedSitesOfChunks chunks

end

mutual

theorem Chunk.expandedSites_eq :
    ∀ c : Chunk, c.expandedSites = c.sites.flatMap fun s => s.document.expandedSites ++ [s]
  | .code _ | .verbatim _ | .gap _ => rfl
  | .fragment _ chunks => expandedSitesOfChunks_eq chunks
  | .inclusion _ document => by simp [Chunk.expandedSites, Chunk.sites]

theorem expandedSitesOfChunks_eq :
    ∀ cs : List Chunk,
      expandedSitesOfChunks cs = (sitesOfChunks cs).flatMap fun s => s.document.expandedSites ++ [s]
  | [] => rfl
  | c :: cs => by
    rw [expandedSitesOfChunks, c.expandedSites_eq, expandedSitesOfChunks_eq cs, sitesOfChunks,
      List.flatMap_append]

end

/-- The sites of a document, each behind those in its document. -/
theorem Document.expandedSites_eq (d : Document) :
    d.expandedSites = d.sites.flatMap fun s => s.document.expandedSites ++ [s] := by
  obtain ⟨stamp, chunks⟩ := d
  exact expandedSitesOfChunks_eq chunks

mutual

theorem Chunk.perm_expandedSites :
    ∀ c : Chunk, c.expandedSites.Perm (c.sites ++ c.documents.flatMap Document.sites)
  | .code _ | .verbatim _ | .gap _ => .nil
  | .fragment _ chunks => perm_expandedSitesOfChunks chunks
  | .inclusion directive document => by
    rw [Chunk.expandedSites, Chunk.sites, Chunk.documents]
    exact (document.perm_expandedSites.append_right _).trans List.perm_append_comm

theorem perm_expandedSitesOfChunks :
    ∀ cs : List Chunk, (expandedSitesOfChunks cs).Perm
      (sitesOfChunks cs ++ (documentsOfChunks cs).flatMap Document.sites)
  | [] => .nil
  | c :: cs => by
    rw [expandedSitesOfChunks, sitesOfChunks, documentsOfChunks, List.flatMap_append]
    refine (c.perm_expandedSites.append (perm_expandedSitesOfChunks cs)).trans ?_
    rw [List.append_assoc, List.append_assoc]
    refine List.Perm.append_left _ ?_
    rw [← List.append_assoc, ← List.append_assoc]
    exact List.perm_append_comm.append_right _

/-- They are the sites of all documents, each as often as its document is included. -/
theorem Document.perm_expandedSites :
    ∀ d : Document, d.expandedSites.Perm (d.withIncluded.flatMap Document.sites)
  | .mk _ chunks => perm_expandedSitesOfChunks chunks

end

/-! ## Where documents are put -/

/-- A document that a directive inserts, and the code in front of it. -/
structure Placement where
  site : Site
  before : List Char

/-- The code of the document and what stands in front of it. -/
def Placement.through (p : Placement) : List Char := p.before ++ p.site.document.text.toList

/-- What is recorded of a directive whose document is put in a place. -/
def Placement.occurrence (p : Placement) : Occurrence :=
  ⟨p.site.directive, p.site.document, ⟨Mark.origin.after p.before, Mark.origin.after p.through⟩⟩

mutual

/-- The documents in a piece that stands behind some code, each behind those in it. -/
def Chunk.placements (before : List Char) : Chunk → List Placement
  | .fragment _ chunks => placementsOfChunks before chunks
  | .inclusion directive document =>
    document.placements before ++ [⟨⟨directive, document⟩, before⟩]
  | _ => []

/-- The documents in pieces that stand behind some code. -/
def placementsOfChunks (before : List Char) : List Chunk → List Placement
  | [] => []
  | c :: cs => c.placements before ++ placementsOfChunks (before ++ c.text.toList) cs

/-- The documents in a document that stands behind some code. -/
def Document.placements (before : List Char) : Document → List Placement
  | .mk _ chunks => placementsOfChunks before chunks

end

mutual

theorem Chunk.sites_placements (before : List Char) :
    ∀ c : Chunk, (c.placements before).map Placement.site = c.expandedSites
  | .code _ | .verbatim _ | .gap _ => rfl
  | .fragment _ chunks => sites_placementsOfChunks before chunks
  | .inclusion _ document => by
    rw [Chunk.placements, List.map_append, document.sites_placements before, Chunk.expandedSites,
      List.map_singleton]

theorem sites_placementsOfChunks (before : List Char) :
    ∀ cs : List Chunk,
      (placementsOfChunks before cs).map Placement.site = expandedSitesOfChunks cs
  | [] => rfl
  | c :: cs => by
    rw [placementsOfChunks, List.map_append, c.sites_placements before,
      sites_placementsOfChunks _ cs, expandedSitesOfChunks]

theorem Document.sites_placements (before : List Char) :
    ∀ d : Document, (d.placements before).map Placement.site = d.expandedSites
  | .mk _ chunks => sites_placementsOfChunks before chunks

end

mutual

theorem Chunk.occurrences_eq_placements (before : List Char) :
    ∀ c : Chunk,
      c.occurrences (Mark.origin.after before) = (c.placements before).map Placement.occurrence
  | .code _ | .verbatim _ | .gap _ => rfl
  | .fragment _ chunks => occurrencesOfChunks_eq_placements before chunks
  | .inclusion directive document => by
    rw [Chunk.occurrences, document.occurrences_eq_placements before, Chunk.placements,
      List.map_append, List.map_singleton, Placement.occurrence, Placement.through,
      Mark.after_append]
    rfl

theorem occurrencesOfChunks_eq_placements (before : List Char) :
    ∀ cs : List Chunk,
      occurrencesOfChunks (Mark.origin.after before) cs =
        (placementsOfChunks before cs).map Placement.occurrence
  | [] => rfl
  | c :: cs => by
    rw [occurrencesOfChunks, c.occurrences_eq_placements before, ← Mark.after_append,
      occurrencesOfChunks_eq_placements _ cs, placementsOfChunks, List.map_append]

/-- The occurrences in a document are those of the documents that are put there. -/
theorem Document.occurrences_eq_placements (before : List Char) :
    ∀ d : Document,
      d.occurrences (Mark.origin.after before) = (d.placements before).map Placement.occurrence
  | .mk _ chunks => occurrencesOfChunks_eq_placements before chunks

end

mutual

theorem Chunk.through_prefix (before : List Char) :
    ∀ c : Chunk, ∀ p ∈ c.placements before, p.through <+: before ++ c.text.toList
  | .code _ | .verbatim _ | .gap _ => fun p hp => by cases hp
  | .fragment _ chunks => through_prefix_chunks before chunks
  | .inclusion directive document => by
    intro p hp
    rcases List.mem_append.mp hp with hp | hp
    · exact document.through_prefix before p hp
    · obtain rfl := List.mem_singleton.mp hp
      exact List.prefix_refl _

theorem through_prefix_chunks (before : List Char) :
    ∀ cs : List Chunk, ∀ p ∈ placementsOfChunks before cs,
      p.through <+: before ++ (textOfChunks cs).toList
  | [], p, hp => by cases hp
  | c :: cs, p, hp => by
    rw [textOfChunks, String.toList_append, ← List.append_assoc]
    rcases List.mem_append.mp hp with hp | hp
    · exact (c.through_prefix before p hp).trans (List.prefix_append _ _)
    · exact through_prefix_chunks _ cs p hp

/-- The code of a document in another one stands where it was put. -/
theorem Document.through_prefix (before : List Char) :
    ∀ d : Document, ∀ p ∈ d.placements before, p.through <+: before ++ d.text.toList
  | .mk _ chunks => through_prefix_chunks before chunks

end

/-! ## Programs -/

/-- The includes of the root of a program are all carried out, each once and in its place. -/
structure Program.Expanded (p : Program) : Prop where
  /-- The code is that of the root. -/
  code : p.code = p.root.text
  /-- The occurrences follow the expanded includes of the root, those in a document before it. -/
  sites : (p.root.placements []).map Placement.site = p.root.expandedSites
  /-- Each site of each document counts once for each time that the document is included. -/
  counted : p.root.expandedSites.Perm (p.root.withIncluded.flatMap Document.sites)
  /-- Each occurrence has the range that begins and ends with its document. -/
  occurrences : p.occurrences = (p.root.placements []).map Placement.occurrence
  /-- The code of its document stands in this range. -/
  placed : ∀ x ∈ p.root.placements [], x.through <+: p.code.toList
  /-- The ranges that were noted last give the same program. -/
  noted : (p.root.weaveNoting .start).weaver = p.root.weave .start

/-- Documents that are numbered from the inside out are distinct. -/
theorem AllNumbered.distinct {root : Document} {now : Nat} (h : AllNumbered now root.withIncluded) :
    root.Distinct := fun x hx =>
  ⟨(h x hx).fragments, fun y hy => Nat.ne_of_lt ((h x hx).inner y hy)⟩

theorem Document.expanded_program {root : Document} (h : root.Distinct) :
    root.program.Expanded where
  code := root.code_program_eq_text
  sites := root.sites_placements []
  counted := root.perm_expandedSites
  occurrences := root.occurrences_program.trans (root.occurrences_eq_placements [])
  placed p hp := by
    rw [root.code_program_eq_text]
    exact root.through_prefix [] p hp
  noted := root.weaver_weaveNoting .start h

namespace Engine

/-- **Weaving carries out every include once, and in its place**, whatever has become of the files
and of the cache before, and whether a file or a text was compiled. -/
theorem expanded_course (e : Engine) (files : Files) (mode : CacheMode) (events : List Event)
    (path source : String) :
    let w := e.course files mode events
    (match (e.compile path w).1 with
      | .ok program => program.Expanded
      | .error _ => True) ∧
    match (e.compileSource path source w).1 with
    | .ok program => program.Expanded
    | .error _ => True := by
  intro w
  have hnumbered : w.Numbered := e.numbered_course files mode events
  constructor
  · cases hcompiled : (e.compile path w).1 with
    | error reason => trivial
    | ok program =>
      obtain ⟨root, now, rfl, hall⟩ := (numbered_compile hnumbered path).2 program hcompiled
      exact Document.expanded_program hall.distinct
  · cases hcompiled : (e.compileSource path source w).1 with
    | error reason => trivial
    | ok program =>
      obtain ⟨root, now, rfl, hall⟩ :=
        (numbered_compileSource hnumbered path source).2 program hcompiled
      exact Document.expanded_program hall.distinct

end Engine

end Stencil
