import Stencil.Proofs.Program.Enclosure

/-! # Documents without numbers

Two compilations of the same files make documents that differ at most in their numbers.  A document
without numbers says what they have in common, and the program of a document depends on the numbers
only where failures are recorded: those of a document count once for each number.
-/
namespace Stencil

mutual

/-- A piece whose documents all have the number zero. -/
def Chunk.bare : Chunk → Chunk
  | .code text => .code text
  | .verbatim text => .verbatim text
  | .gap error => .gap error
  | .fragment own chunks => .fragment own (bareChunks chunks)
  | .inclusion directive document => .inclusion directive document.bare

/-- Pieces whose documents all have the number zero. -/
def bareChunks : List Chunk → List Chunk
  | [] => []
  | c :: cs => c.bare :: bareChunks cs

/-- A document in which all numbers are zero. -/
def Document.bare : Document → Document
  | .mk stamp chunks => .mk { stamp with number := 0 } (bareChunks chunks)

end

theorem bareChunks_eq_map (cs : List Chunk) : bareChunks cs = cs.map Chunk.bare := by
  induction cs with
  | nil => rfl
  | cons c cs ih => rw [bareChunks, ih, List.map_cons]

@[simp] theorem Document.path_bare (d : Document) : d.bare.path = d.path := by
  cases d
  rfl

theorem Document.chunks_bare (d : Document) : d.bare.chunks = bareChunks d.chunks := by
  cases d
  rfl

/-! ## What does not depend on numbers -/

mutual

theorem Chunk.text_bare : ∀ c : Chunk, c.bare.text = c.text
  | .code _ | .verbatim _ | .gap _ => rfl
  | .fragment _ chunks => by rw [Chunk.bare, Chunk.text, text_bareChunks chunks, Chunk.text]
  | .inclusion _ document => by rw [Chunk.bare, Chunk.text, document.text_bare, Chunk.text]

theorem text_bareChunks : ∀ cs : List Chunk, textOfChunks (bareChunks cs) = textOfChunks cs
  | [] => rfl
  | c :: cs => by rw [bareChunks, textOfChunks, c.text_bare, text_bareChunks cs, textOfChunks]

theorem Document.text_bare : ∀ d : Document, d.bare.text = d.text
  | .mk _ chunks => by rw [Document.bare, Document.text, text_bareChunks chunks, Document.text]

end

mutual

theorem Chunk.hasGaps_bare : ∀ c : Chunk, c.bare.hasGaps = c.hasGaps
  | .code _ | .verbatim _ | .gap _ => rfl
  | .fragment _ chunks => by
    rw [Chunk.bare, Chunk.hasGaps, haveGaps_bareChunks chunks, Chunk.hasGaps]
  | .inclusion _ document => by
    rw [Chunk.bare, Chunk.hasGaps, document.hasGaps_bare, Chunk.hasGaps]

theorem haveGaps_bareChunks : ∀ cs : List Chunk, haveGaps (bareChunks cs) = haveGaps cs
  | [] => rfl
  | c :: cs => by rw [bareChunks, haveGaps, c.hasGaps_bare, haveGaps_bareChunks cs, haveGaps]

theorem Document.hasGaps_bare : ∀ d : Document, d.bare.hasGaps = d.hasGaps
  | .mk _ chunks => by
    rw [Document.bare, Document.hasGaps, haveGaps_bareChunks chunks, Document.hasGaps]

end

mutual

theorem Chunk.isFresh_bare (files : Files) : ∀ c : Chunk, c.bare.isFresh files = c.isFresh files
  | .code _ | .verbatim _ | .gap _ => rfl
  | .fragment _ chunks => by
    rw [Chunk.bare, Chunk.isFresh, areFresh_bareChunks files chunks, Chunk.isFresh]
  | .inclusion _ document => by
    rw [Chunk.bare, Chunk.isFresh, document.isFresh_bare files, Chunk.isFresh]

theorem areFresh_bareChunks (files : Files) :
    ∀ cs : List Chunk, areFresh files (bareChunks cs) = areFresh files cs
  | [] => rfl
  | c :: cs => by
    rw [bareChunks, areFresh, c.isFresh_bare files, areFresh_bareChunks files cs, areFresh]

theorem Document.isFresh_bare (files : Files) :
    ∀ d : Document, d.bare.isFresh files = d.isFresh files
  | .mk stamp chunks => by
    simp only [Document.bare, Document.isFresh, areFresh_bareChunks files chunks]

end

mutual

theorem Chunk.failures_bare (origin : Option Origin) :
    ∀ c : Chunk, c.bare.failures origin = c.failures origin
  | .code _ | .verbatim _ | .gap _ | .inclusion _ _ => rfl
  | .fragment own chunks => by
    rw [Chunk.bare, Chunk.failures, failures_bareChunks _ chunks, Chunk.failures]

theorem failures_bareChunks (origin : Option Origin) :
    ∀ cs : List Chunk, failuresOfChunks origin (bareChunks cs) = failuresOfChunks origin cs
  | [] => rfl
  | c :: cs => by
    rw [bareChunks, failuresOfChunks, c.failures_bare origin, failures_bareChunks origin cs,
      failuresOfChunks]

end

theorem Document.failures_bare (d : Document) : d.bare.failures = d.failures := by
  rw [Document.failures, Document.failures, d.chunks_bare, failures_bareChunks]

mutual

theorem Chunk.documents_bare : ∀ c : Chunk, c.bare.documents = c.documents.map Document.bare
  | .code _ | .verbatim _ | .gap _ => rfl
  | .fragment _ chunks => by
    rw [Chunk.bare, Chunk.documents, documents_bareChunks chunks, Chunk.documents]
  | .inclusion _ document => by
    rw [Chunk.bare, Chunk.documents, document.withIncluded_bare, Chunk.documents]

theorem documents_bareChunks :
    ∀ cs : List Chunk, documentsOfChunks (bareChunks cs) = (documentsOfChunks cs).map Document.bare
  | [] => rfl
  | c :: cs => by
    rw [bareChunks, documentsOfChunks, c.documents_bare, documents_bareChunks cs,
      documentsOfChunks, List.map_append]

theorem Document.withIncluded_bare :
    ∀ d : Document, d.bare.withIncluded = d.withIncluded.map Document.bare
  | .mk _ chunks => by
    rw [Document.bare, Document.withIncluded, documents_bareChunks chunks, Document.withIncluded,
      List.map_cons, Document.bare]

end

mutual

theorem Chunk.tidy_bare {path : String} : ∀ c : Chunk, c.bare.Tidy path ↔ c.Tidy path
  | .code _ | .verbatim _ | .gap _ => Iff.rfl
  | .fragment own chunks => by
    rw [Chunk.bare, Chunk.Tidy, tidy_bareChunks chunks, Chunk.Tidy]
    refine and_congr_right fun _ => or_congr_left ⟨?_, ?_⟩
    · rintro ⟨text, htext⟩
      match chunks, htext with
      | [.verbatim _], _ => exact ⟨_, rfl⟩
    · rintro ⟨text, rfl⟩
      exact ⟨text, rfl⟩
  | .inclusion _ document => by rw [Chunk.bare, Chunk.Tidy, document.tidy_bare, Chunk.Tidy]

theorem tidy_bareChunks {path : String} :
    ∀ cs : List Chunk, TidyChunks path (bareChunks cs) ↔ TidyChunks path cs
  | [] => Iff.rfl
  | c :: cs => by rw [bareChunks, TidyChunks, c.tidy_bare, tidy_bareChunks cs, TidyChunks]

theorem Document.tidy_bare : ∀ d : Document, d.bare.Tidy ↔ d.Tidy
  | .mk stamp chunks => by
    rw [Document.bare, Document.Tidy, tidy_bareChunks chunks, Document.Tidy, bareChunks_eq_map]
    refine and_congr_right fun _ => ?_
    rw [List.forall_mem_map]
    refine forall₂_congr fun c _ => ?_
    cases c <;> rfl

end

mutual

theorem Chunk.map_emitted_cells_bare (origin : Option Origin) (place : Mark) :
    ∀ c : Chunk,
      (c.bare.cells origin place).map Cell.emitted = (c.cells origin place).map Cell.emitted
  | .code _ | .verbatim _ | .gap _ => rfl
  | .fragment own chunks => by
    rw [Chunk.bare, Chunk.cells, map_emitted_cells_bareChunks _ _ chunks, Chunk.cells]
  | .inclusion directive document => by
    have hunder : ∀ o : Occurrence, Cell.emitted ∘ Cell.under o =
        Emitted.within o.directive ∘ Cell.emitted := fun o => funext (Cell.emitted_under o)
    rw [Chunk.bare, Chunk.cells, Chunk.cells, List.map_map, List.map_map, hunder, hunder,
      ← List.map_map, ← List.map_map, document.map_emitted_cells_bare]
    rfl

theorem map_emitted_cells_bareChunks (origin : Option Origin) (place : Mark) :
    ∀ cs : List Chunk, (cellsOfChunks origin place (bareChunks cs)).map Cell.emitted =
      (cellsOfChunks origin place cs).map Cell.emitted
  | [] => rfl
  | c :: cs => by
    rw [bareChunks, cellsOfChunks, List.map_append, c.map_emitted_cells_bare, c.text_bare,
      map_emitted_cells_bareChunks _ _ cs, cellsOfChunks, List.map_append]

theorem Document.map_emitted_cells_bare (place : Mark) :
    ∀ d : Document, (d.bare.cells place).map Cell.emitted = (d.cells place).map Cell.emitted
  | .mk _ chunks => map_emitted_cells_bareChunks none place chunks

end

theorem Document.unnested_bare (d : Document) : d.bare.Unnested ↔ d.Unnested := by
  have hinner : ∀ x : Document, documentsOfChunks x.bare.chunks =
      (documentsOfChunks x.chunks).map Document.bare := fun x => by
    rw [x.chunks_bare, documents_bareChunks]
  simp only [Document.Unnested, d.withIncluded_bare, List.forall_mem_map, hinner,
    Document.path_bare]

end Stencil
