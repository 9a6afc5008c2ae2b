import Stencil.Proofs.Compile.Expansion

/-! # The documents in a document

The documents in the document of a file are those of the files that it includes, directly or
through others.  So a file whose includes lead into no cycle has a document in which none contains
another one of its own path, and which is fresh as long as the files stay what they are.
-/
namespace Stencil
open Relation (ReflTransGen TransGen)

theorem mem_documentsOfChunks {x : Document} {cs : List Chunk} :
    x ∈ documentsOfChunks cs ↔ ∃ c ∈ cs, x ∈ c.documents := by
  induction cs with
  | nil => simp [documentsOfChunks]
  | cons c cs ih => simp [documentsOfChunks, ih]

theorem documentsOfChunks_append (xs ys : List Chunk) :
    documentsOfChunks (xs ++ ys) = documentsOfChunks xs ++ documentsOfChunks ys := by
  induction xs with
  | nil => rfl
  | cons x xs ih =>
    rw [List.cons_append, documentsOfChunks, ih, documentsOfChunks, List.append_assoc]

theorem areFresh_iff {files : Files} {cs : List Chunk} :
    areFresh files cs = true ↔ ∀ c ∈ cs, c.isFresh files = true := by
  induction cs with
  | nil => simp [areFresh]
  | cons c cs ih => rw [areFresh, Bool.and_eq_true, ih, List.forall_mem_cons]

namespace Template

variable {source : String} {insert : Inclusion → Chunk} {n : Node}

/-- The documents in the piece of a node are those that its directives insert. -/
theorem Node.exists_of_mem_documents_piece {x : Document}
    (hx : x ∈ (n.piece source insert).documents) :
    ∃ i ∈ n.inclusions, x ∈ (insert i).documents := by
  obtain ⟨origin, cs, hpiece, -, hcs⟩ := n.exists_piece_eq source insert
  rw [hpiece, Chunk.documents, mem_documentsOfChunks] at hx
  obtain ⟨c, hc, hx⟩ := hx
  rcases hcs c hc with ⟨text, rfl⟩ | ⟨s, -, rfl⟩ | ⟨i, hi, rfl | rfl⟩
  · cases hx
  · cases hx
  · exact ⟨i, hi, hx⟩
  · obtain ⟨c, hc, hx⟩ := mem_documentsOfChunks.mp hx
    rw [List.mem_singleton.mp hc] at hx
    exact ⟨i, hi, hx⟩

/-- The piece of a node is fresh if what its directives insert is. -/
theorem Node.isFresh_piece {files : Files}
    (h : ∀ i ∈ n.inclusions, (insert i).isFresh files = true) :
    (n.piece source insert).isFresh files = true := by
  obtain ⟨origin, cs, hpiece, -, hcs⟩ := n.exists_piece_eq source insert
  rw [hpiece, Chunk.isFresh, areFresh_iff]
  intro c hc
  rcases hcs c hc with ⟨text, rfl⟩ | ⟨s, -, rfl⟩ | ⟨i, hi, rfl | rfl⟩
  · rfl
  · rfl
  · exact h i hi
  · rw [Chunk.isFresh, areFresh, areFresh, h i hi]
    rfl

end Template

namespace Dialect

variable {d : Dialect} {read : String → Except ReadError String}

/-- The documents in the document of a file are those of files that it includes. -/
theorem exists_of_mem_chunks_document {bound : Nat} {path content : String} {x : Document}
    (h : d.Settles read (bound + 1) path content)
    (hx : x ∈ documentsOfChunks (d.document read (bound + 1) path content).chunks) :
    ∃ q inner, q ∈ d.targets path content ∧ read q = .ok inner ∧
      d.Settles read bound q inner ∧ x ∈ (d.document read bound q inner).withIncluded := by
  rw [document, Document.chunks] at hx
  obtain ⟨c, hc, hx⟩ := mem_documentsOfChunks.mp hx
  obtain ⟨n, hn, rfl⟩ := List.mem_map.mp hc
  obtain ⟨i, hi, hx⟩ := Template.Node.exists_of_mem_documents_piece hx
  rcases d.inserted_cases path i with ⟨reason, hgap, -⟩ | ⟨q, inner, hq, hread, hinsert, -⟩
  · rw [hgap] at hx
    cases hx
  · rw [hinsert] at hx
    have hmem := mem_targets hn hi hq
    exact ⟨q, inner, hmem, hread, h q hmem inner hread, hx⟩

/-- A document in the document of a file is that of a file which can be reached by includes. -/
theorem reaches_of_mem_document {bound : Nat} {path content : String} {x : Document}
    (hread : read path = .ok content) (h : d.Settles read bound path content)
    (hx : x ∈ (d.document read bound path content).withIncluded) :
    ReflTransGen (d.Includes read) path x.path ∧ ∃ inner bound', read x.path = .ok inner ∧
      d.Settles read bound' x.path inner ∧ x = d.document read bound' x.path inner := by
  induction bound generalizing path content with
  | zero => exact h.elim
  | succ bound ih =>
    rw [Document.withIncluded_eq] at hx
    rcases List.mem_cons.mp hx with rfl | hx
    · rw [path_document]
      exact ⟨.refl, content, _, hread, h, rfl⟩
    · obtain ⟨q, inner, hmem, hinner, hsettles, hx⟩ := exists_of_mem_chunks_document h hx
      obtain ⟨hreach, hdocument⟩ := ih hinner hsettles hx
      exact ⟨.head ⟨content, hread, hmem⟩ hreach, hdocument⟩

/-- **No document of a file whose includes settle contains another one of its own path.** -/
theorem unnested_document {bound : Nat} {path content : String} (hread : read path = .ok content)
    (h : d.Settles read bound path content) : (d.document read bound path content).Unnested := by
  intro x hx y hy heq
  obtain ⟨-, inner, bound', hinner, hsettles, hdocument⟩ := reaches_of_mem_document hread h hx
  rw [hdocument] at hy
  obtain _ | bound' := bound'
  · exact hsettles.elim
  obtain ⟨q, content', hq, hread', hsettles', hy⟩ := exists_of_mem_chunks_document hsettles hy
  obtain ⟨hreach, -⟩ := reaches_of_mem_document hread' hsettles' hy
  -- from a document the way leads to one in it, so that one of the same path would close a cycle
  have hcycle : TransGen (d.Includes read) x.path y.path := .head' ⟨inner, hinner, hq⟩ hreach
  rw [heq] at hcycle
  exact not_transGen_of_acc (hsettles.acc hinner) hcycle

/-- The document of a file is fresh as long as the files stay what they are. -/
theorem isFresh_document {files : Files} (depth : Nat) {path content : String}
    (hread : files.read path = .ok content) :
    (d.document files.read depth path content).isFresh files = true := by
  induction depth generalizing path content with
  | zero => simp [document, Document.isFresh, hread, areFresh]
  | succ depth ih =>
    simp only [document, Document.isFresh, hread, beq_self_eq_true, Bool.true_and]
    refine areFresh_iff.mpr (List.forall_mem_map.mpr fun n _ => ?_)
    refine Template.Node.isFresh_piece fun i _ => ?_
    rcases d.inserted_cases path i with ⟨reason, hgap, -⟩ | ⟨q, inner, -, hinner, hinsert, -⟩
    · rw [hgap]
      rfl
    · rw [hinsert, Chunk.isFresh, ih hinner]

end Dialect

end Stencil
