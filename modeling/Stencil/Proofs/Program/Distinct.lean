import Stencil.Proofs.Program.Numbers

/-! # Failures of distinct documents

A weaver records the failures of a document where it meets it first, and knows it again by its
number.  So a program reports the failures of all documents that it takes the code of, those of a
document once however often it is included, if numbers tell the documents apart.
-/
namespace Stencil

/-- The documents of a list whose numbers are not in `seen`, each where its number is met first. -/
def unseen (seen : List Nat) : List Document → List Document
  | [] => []
  | d :: ds => if d.number ∈ seen then unseen seen ds else d :: unseen (d.number :: seen) ds

/-- The numbers that are known behind a list of documents, the last one first. -/
def seenAfter (seen : List Nat) (ds : List Document) : List Nat :=
  ((unseen seen ds).map Document.number).reverse ++ seen

section
variable {seen : List Nat} {d x : Document} {ds : List Document}

theorem unseen_cons_of_mem (h : d.number ∈ seen) : unseen seen (d :: ds) = unseen seen ds :=
  if_pos h

theorem unseen_cons_of_notMem (h : d.number ∉ seen) :
    unseen seen (d :: ds) = d :: unseen (d.number :: seen) ds :=
  if_neg h

theorem unseen_append (xs ys : List Document) :
    unseen seen (xs ++ ys) = unseen seen xs ++ unseen (seenAfter seen xs) ys := by
  induction xs generalizing seen with
  | nil => rfl
  | cons x xs ih =>
    rw [seenAfter, List.cons_append]
    by_cases hx : x.number ∈ seen
    · rw [unseen_cons_of_mem hx, unseen_cons_of_mem hx, ih, seenAfter]
    · rw [unseen_cons_of_notMem hx, unseen_cons_of_notMem hx, ih, seenAfter]
      simp

theorem mem_of_mem_unseen (h : x ∈ unseen seen ds) : x ∈ ds ∧ x.number ∉ seen := by
  induction ds generalizing seen with
  | nil => cases h
  | cons d ds ih =>
    by_cases hd : d.number ∈ seen
    · rw [unseen_cons_of_mem hd] at h
      exact ⟨List.mem_cons_of_mem d (ih h).1, (ih h).2⟩
    · rw [unseen_cons_of_notMem hd] at h
      rcases List.mem_cons.mp h with rfl | h
      · exact ⟨List.mem_cons_self, hd⟩
      · exact ⟨List.mem_cons_of_mem d (ih h).1, fun hx => (ih h).2 (List.mem_cons_of_mem _ hx)⟩

/-- No two documents that are taken have the same number. -/
theorem pairwise_unseen : (unseen seen ds).Pairwise fun x y => x.number ≠ y.number := by
  induction ds generalizing seen with
  | nil => exact .nil
  | cons d ds ih =>
    by_cases hd : d.number ∈ seen
    · rw [unseen_cons_of_mem hd]
      exact ih
    · rw [unseen_cons_of_notMem hd]
      refine List.pairwise_cons.mpr ⟨fun x hx heq => ?_, ih⟩
      exact (mem_of_mem_unseen hx).2 (heq ▸ List.mem_cons_self)

/-- Some document with the number of any other is taken, unless the number is known. -/
theorem exists_mem_unseen (h : x ∈ ds) (hx : x.number ∉ seen) :
    ∃ y ∈ unseen seen ds, y.number = x.number := by
  induction ds generalizing seen with
  | nil => cases h
  | cons d ds ih =>
    by_cases hd : d.number ∈ seen
    · rw [unseen_cons_of_mem hd]
      refine ih ((List.mem_cons.mp h).resolve_left ?_) hx
      rintro rfl
      exact hx hd
    · rw [unseen_cons_of_notMem hd]
      by_cases heq : d.number = x.number
      · exact ⟨d, List.mem_cons_self, heq⟩
      · have hmem : x ∈ ds := (List.mem_cons.mp h).resolve_left fun hsame => heq (hsame ▸ rfl)
        have hnew : x.number ∉ d.number :: seen := fun hmem => by
          rcases List.mem_cons.mp hmem with hsame | hmem
          · exact heq hsame.symm
          · exact hx hmem
        obtain ⟨y, hy, hnumber⟩ := ih hmem hnew
        exact ⟨y, List.mem_cons_of_mem d hy, hnumber⟩

end

/-- The distinct documents of a tree, if numbers tell them apart. -/
def Document.distinct (root : Document) : List Document := unseen [] root.withIncluded

/-! ## What a weaver collects -/

namespace Weaver

/-- A weaver that meets documents knows their numbers, and has the failures of those that it did not
know before. -/
structure Collects (w w' : Weaver) (documents : List Document) : Prop where
  seen : w'.seen = seenAfter w.seen documents
  failures : w'.failures =
    ((unseen w.seen documents).flatMap Document.failures).reverse ++ w.failures

variable {w w' w'' : Weaver}

theorem Collects.of_eq (hseen : w'.seen = w.seen) (hfail : w'.failures = w.failures) :
    Collects w w' [] := ⟨hseen, hfail⟩

theorem Collects.trans {xs ys : List Document} (h : Collects w w' xs) (h' : Collects w' w'' ys) :
    Collects w w'' (xs ++ ys) where
  seen := by
    rw [h'.seen, h.seen, seenAfter, seenAfter.eq_def w.seen (xs ++ ys), unseen_append]
    simp [seenAfter]
  failures := by
    rw [h'.failures, h.failures, h.seen, unseen_append, List.flatMap_append, List.reverse_append,
      List.append_assoc]

/-- Writing a text meets no document. -/
theorem Adds.collects {text : List Char} (h : Adds w w' text) : Collects w w' [] :=
  .of_eq h.seen h.failures

theorem collects_meet (w : Weaver) (d : Document) : Collects w (w.meet d) [d] := by
  unfold meet
  split
  · rename_i hseen
    exact ⟨by simp [seenAfter, unseen, hseen], by simp [unseen, hseen]⟩
  · rename_i hnew
    exact ⟨by simp [seenAfter, unseen, hnew], by simp [unseen, hnew]⟩

end Weaver

open Weaver

mutual

theorem Chunk.collects_weave (origin : Option Origin) (w : Weaver) :
    ∀ c : Chunk, Collects w (c.weave origin w) c.documents
  | .code _ => (adds_putCode origin w _).collects
  | .verbatim _ => (adds_putVerbatim origin w _).collects
  | .gap _ => (adds_putCode origin w _).collects
  | .fragment own chunks => by
    have hchunks := collects_weaveChunks (own <|> origin) (w.mapTo own) chunks
    have hback := ((adds_mapTo w own).collects.trans hchunks).trans (adds_mapTo _ origin).collects
    rwa [List.append_nil] at hback
  | .inclusion directive document => by
    have hoccur : Collects (document.weave w)
        ((document.weave w).occur directive document w.place) [] := .of_eq rfl rfl
    have hback := ((document.collects_weave w).trans hoccur).trans (adds_mapTo _ origin).collects
    rwa [List.append_nil, List.append_nil] at hback

theorem collects_weaveChunks (origin : Option Origin) (w : Weaver) :
    ∀ cs : List Chunk, Collects w (weaveChunks origin w cs) (documentsOfChunks cs)
  | [] => .of_eq rfl rfl
  | c :: cs =>
    (c.collects_weave origin w).trans (collects_weaveChunks origin (c.weave origin w) cs)

/-- Weaving meets a document and all that it includes. -/
theorem Document.collects_weave (w : Weaver) :
    ∀ d : Document, Collects w (d.weave w) d.withIncluded
  | .mk stamp chunks =>
    (collects_meet w (.mk stamp chunks)).trans
      (collects_weaveChunks none (w.meet (.mk stamp chunks)) chunks)

end

/-- **A program reports the failures of its distinct documents.** -/
theorem Document.map_failure_program (root : Document) :
    root.program.failures.map PlacedFailure.failure =
      root.distinct.flatMap Document.failures := by
  have hfailures := (root.collects_weave .start).failures
  rw [Document.program, hfailures, List.reverse_append, List.reverse_reverse, List.map_map]
  exact List.map_id _

/-! ## Gaps -/

mutual

theorem Chunk.exists_of_hasGaps (origin : Option Origin) :
    ∀ c : Chunk, c.hasGaps = true →
      c.failures origin ≠ [] ∨ ∃ x ∈ c.documents, x.failures ≠ []
  | .code _, h | .verbatim _, h => by cases h
  | .gap _, _ => .inl (List.cons_ne_nil _ _)
  | .fragment own chunks, h => exists_of_haveGaps (own <|> origin) chunks h
  | .inclusion _ document, h => .inr (document.exists_of_hasGaps h)

theorem exists_of_haveGaps (origin : Option Origin) :
    ∀ cs : List Chunk, haveGaps cs = true →
      failuresOfChunks origin cs ≠ [] ∨ ∃ x ∈ documentsOfChunks cs, x.failures ≠ []
  | [], h => by cases h
  | c :: cs, h => by
    rw [failuresOfChunks, documentsOfChunks]
    rcases Bool.or_eq_true_iff.mp h with h | h
    · rcases c.exists_of_hasGaps origin h with hfail | ⟨x, hx, hfail⟩
      · exact .inl (List.append_ne_nil_of_left_ne_nil hfail _)
      · exact .inr ⟨x, List.mem_append_left _ hx, hfail⟩
    · rcases exists_of_haveGaps origin cs h with hfail | ⟨x, hx, hfail⟩
      · exact .inl (List.append_ne_nil_of_right_ne_nil _ hfail)
      · exact .inr ⟨x, List.mem_append_right _ hx, hfail⟩

/-- A document with gaps has failures itself, or one that it includes has some. -/
theorem Document.exists_of_hasGaps :
    ∀ d : Document, d.hasGaps = true → ∃ x ∈ d.withIncluded, x.failures ≠ []
  | .mk stamp chunks, h => by
    rcases exists_of_haveGaps none chunks h with hfail | ⟨x, hx, hfail⟩
    · exact ⟨.mk stamp chunks, List.mem_cons_self, hfail⟩
    · exact ⟨x, List.mem_cons_of_mem _ hx, hfail⟩

end

namespace Document

variable {root : Document}

/-- Numbers tell the documents of a tree apart. -/
def Identified (root : Document) : Prop :=
  ∀ x ∈ root.withIncluded, ∀ y ∈ root.withIncluded, x.number = y.number → x = y

/-- The distinct documents of a tree are all of them, each once. -/
theorem Identified.mem_distinct (h : root.Identified) {x : Document} :
    x ∈ root.distinct ↔ x ∈ root.withIncluded := by
  refine ⟨fun hx => (mem_of_mem_unseen hx).1, fun hx => ?_⟩
  obtain ⟨y, hy, hnumber⟩ := exists_mem_unseen hx (List.not_mem_nil : x.number ∉ [])
  rwa [← h y (mem_of_mem_unseen hy).1 x hx hnumber]

theorem nodup_distinct (root : Document) : root.distinct.Nodup :=
  pairwise_unseen.imp fun hne heq => hne (congrArg Document.number heq)

/-- **A program reports failures if and only if its document has gaps.** -/
theorem Identified.hasGaps_iff_failures (h : root.Identified) :
    root.hasGaps = true ↔ root.program.failures ≠ [] := by
  have hempty : root.program.failures = [] ↔ ∀ x ∈ root.withIncluded, x.failures = [] := by
    rw [← List.map_eq_nil_iff (f := PlacedFailure.failure), root.map_failure_program,
      List.flatMap_eq_nil_iff]
    simp only [h.mem_distinct]
  rw [Ne, hempty]
  constructor
  · intro hgaps hnone
    obtain ⟨x, hx, hfail⟩ := root.exists_of_hasGaps hgaps
    exact hfail (hnone x hx)
  · intro hsome
    by_contra hgaps
    exact hsome fun x hx => failures_eq_nil (Bool.eq_false_iff.mpr hgaps) hx

end Document

end Stencil
