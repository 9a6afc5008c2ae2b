import Stencil.Proofs.Compile.World

/-! # Fresh documents

A document that is kept was made from the files as they once were.  If it has no gaps and all of its
files still have the hashes that they had, it is the document that the files have to be compiled to
as they are now: every directive in it names the same file, and finds the same text there.  A file
that could not be read would have left a gap, so none can have appeared behind a directive.
-/
namespace Stencil
open Template (originAt)

/-- The hashes of some texts tell them apart. -/
def HashesDiffer (texts : List String) : Prop :=
  ∀ s ∈ texts, ∀ t ∈ texts, contentHash s = contentHash t → s = t

instance (texts : List String) : Decidable (HashesDiffer texts) :=
  inferInstanceAs (Decidable (∀ s ∈ texts, ∀ t ∈ texts, contentHash s = contentHash t → s = t))

/-- All texts that can be read are in a list. -/
def Files.Within (files : Files) (texts : List String) : Prop :=
  ∀ path content, files.read path = .ok content → content ∈ texts

theorem haveGaps_eq_false_iff {cs : List Chunk} :
    haveGaps cs = false ↔ ∀ c ∈ cs, c.hasGaps = false := by
  induction cs with
  | nil => simp [haveGaps]
  | cons c cs ih => rw [haveGaps, Bool.or_eq_false_iff, ih, List.forall_mem_cons]

namespace Template

variable {source : String} {insert : Inclusion → Chunk} {n : Node} {i : Inclusion}

/-- What a directive of a node becomes is in the piece of the node, at most one fragment deep. -/
theorem Node.insert_mem_piece (hi : i ∈ n.inclusions) :
    ∃ origin cs, n.piece source insert = .fragment origin cs ∧
      (insert i ∈ cs ∨ ∃ inner, .fragment inner [insert i] ∈ cs) := by
  cases n with
  | text => cases hi
  | inlineWrite => cases hi
  | block location parts =>
    rw [Node.piece_block]
    refine ⟨_, _, rfl, .inr ⟨some (originAt source i.location.start), ?_⟩⟩
    refine List.mem_append_left _ (List.mem_map.mpr ⟨.inclusion i, ?_, ?_⟩)
    · exact mem_inclusions_block.mp hi
    · exact BlockPart.piece_inclusion i
  | inclusion j =>
    obtain rfl := List.mem_singleton.mp hi
    exact ⟨_, _, Node.piece_inclusion i, .inl List.mem_cons_self⟩

/-- A piece without gaps has nothing but what leaves no gap for its directives. -/
theorem Node.hasGaps_insert (hi : i ∈ n.inclusions)
    (h : (n.piece source insert).hasGaps = false) : (insert i).hasGaps = false := by
  obtain ⟨origin, cs, hpiece, hmem⟩ := Node.insert_mem_piece hi
  rw [hpiece, Chunk.hasGaps, haveGaps_eq_false_iff] at h
  rcases hmem with hmem | ⟨inner, hmem⟩
  · exact h _ hmem
  · have hinner := h _ hmem
    rw [Chunk.hasGaps, haveGaps_eq_false_iff] at hinner
    exact hinner _ List.mem_cons_self

/-- A fresh piece has what is fresh for its directives. -/
theorem Node.isFresh_insert {files : Files} (hi : i ∈ n.inclusions)
    (h : (n.piece source insert).isFresh files = true) : (insert i).isFresh files = true := by
  obtain ⟨origin, cs, hpiece, hmem⟩ := Node.insert_mem_piece hi
  rw [hpiece, Chunk.isFresh, areFresh_iff] at h
  rcases hmem with hmem | ⟨inner, hmem⟩
  · exact h _ hmem
  · have hinner := h _ hmem
    rw [Chunk.isFresh, areFresh_iff] at hinner
    exact hinner _ List.mem_cons_self

end Template

namespace Dialect

variable {d : Dialect} {old now : Files} {texts : List String}

/-- The file of a fresh document holds the text that was compiled. -/
theorem read_of_isFresh (hdiffer : HashesDiffer texts) (hold : old.Within texts)
    (hnow : now.Within texts) {bound : Nat} {path content : String}
    (hread : old.read path = .ok content)
    (hfresh : (d.document old.read bound path content).isFresh now = true) :
    now.read path = .ok content := by
  have hstamp : ∃ content', now.read path = .ok content' ∧
      contentHash content' = contentHash content := by
    cases hcurrent : now.read path with
    | error fault => cases bound <;> simp [document, Document.isFresh, hcurrent] at hfresh
    | ok content' =>
      refine ⟨content', rfl, ?_⟩
      cases bound <;> simp [document, Document.isFresh, hcurrent] at hfresh
      · exact hfresh.1
      · exact hfresh.1
  obtain ⟨content', hcurrent, hhash⟩ := hstamp
  obtain rfl := hdiffer content' (hnow path content' hcurrent) content (hold path content hread)
    hhash
  exact hcurrent

/-- **A fresh document without gaps is what the file has to be compiled to now.** -/
theorem document_of_isFresh (hdiffer : HashesDiffer texts) (hold : old.Within texts)
    (hnow : now.Within texts) {bound : Nat} {path content : String}
    (hread : old.read path = .ok content) (h : d.Settles old.read bound path content)
    (hwhole : (d.document old.read bound path content).hasGaps = false)
    (hfresh : (d.document old.read bound path content).isFresh now = true) :
    d.Settles now.read bound path content ∧
      d.document now.read bound path content = d.document old.read bound path content := by
  induction bound generalizing path content with
  | zero => exact h.elim
  | succ bound ih =>
    have hgaps : ∀ n ∈ (d.tree content).nodes, ∀ i ∈ n.inclusions,
        (d.inserted old.read path (d.document old.read bound) i).hasGaps = false := by
      intro n hn i hi
      rw [document, Document.hasGaps, haveGaps_eq_false_iff] at hwhole
      exact Template.Node.hasGaps_insert hi (hwhole _ (List.mem_map_of_mem hn))
    have hcurrent : ∀ n ∈ (d.tree content).nodes, ∀ i ∈ n.inclusions,
        (d.inserted old.read path (d.document old.read bound) i).isFresh now = true := by
      intro n hn i hi
      have hall : areFresh now ((d.tree content).nodes.map
          (Template.Node.piece path (d.inserted old.read path (d.document old.read bound)))) =
          true := by
        rw [document, Document.isFresh] at hfresh
        split at hfresh
        · exact (Bool.and_eq_true_iff.mp hfresh).2
        · cases hfresh
      exact Template.Node.isFresh_insert hi (areFresh_iff.mp hall _ (List.mem_map_of_mem hn))
    -- every directive named a file then, and that file has not changed
    have hdirective : ∀ n ∈ (d.tree content).nodes, ∀ i ∈ n.inclusions, ∃ q inner,
        d.target i.arguments path = .ok q ∧ now.read q = .ok inner ∧
        d.Settles now.read bound q inner ∧
        d.inserted now.read path (d.document now.read bound) i =
          d.inserted old.read path (d.document old.read bound) i := by
      intro n hn i hi
      have hno := hgaps n hn i hi
      have hyes := hcurrent n hn i hi
      rcases d.inserted_cases path i with ⟨reason, hgap, -⟩ | ⟨q, inner, hq, hinner, hinsert, -⟩
      · rw [hgap] at hno
        cases hno
      · rw [hinsert] at hno hyes
        have hsettles := h q (mem_targets hn hi hq) inner hinner
        have hsame := read_of_isFresh hdiffer hold hnow hinner hyes
        obtain ⟨hsettles', hdocument⟩ := ih hinner hsettles hno hyes
        refine ⟨q, inner, hq, hsame, hsettles', ?_⟩
        simp only [inserted, hq, hinner, hsame, hdocument]
    refine ⟨fun q hq inner hinner => ?_, ?_⟩
    · obtain ⟨i, hi, htarget⟩ := List.mem_filterMap.mp hq
      obtain ⟨n, hn, hi⟩ := List.mem_flatMap.mp hi
      obtain ⟨q', inner', hq', hinner', hsettles', -⟩ := hdirective n hn i hi
      obtain rfl : q' = q := by simpa [hq', Except.toOption] using htarget
      obtain rfl : inner' = inner := Except.ok.inj (hinner'.symm.trans hinner)
      exact hsettles'
    · rw [document, document]
      refine congrArg _ (List.map_congr_left fun n hn => Template.Node.piece_congr fun i hi => ?_)
      obtain ⟨q, inner, -, -, -, hinserted⟩ := hdirective n hn i hi
      exact hinserted

end Dialect

/-- **What is fresh may be kept**: a document that could be kept once can be kept now, if its hashes
are those of the files as they are. -/
theorem Kept.of_isFresh {d : Dialect} {old files : Files} {texts : List String}
    (hdiffer : HashesDiffer texts) (hold : old.Within texts) (hnow : files.Within texts)
    {now : Nat} {path : String} {document : Document} (h : Kept d old now path document)
    (hfresh : document.isFresh files = true) : Kept d files now path document := by
  obtain ⟨content, hread, hsettles, hbare⟩ := h.compiles
  have hwhole : (d.document old.read (old.size + 1) path content).hasGaps = false := by
    rw [← hbare, document.hasGaps_bare]
    exact h.whole
  have hfresh' : (d.document old.read (old.size + 1) path content).isFresh files = true := by
    rw [← hbare, document.isFresh_bare]
    exact hfresh
  have hread' := Dialect.read_of_isFresh hdiffer hold hnow hread hfresh'
  obtain ⟨hsettles', hdocument⟩ :=
    Dialect.document_of_isFresh hdiffer hold hnow hread hsettles hwhole hfresh'
  -- the bound that fits the files of then also fits those of now
  have hbound := (Dialect.settles_or_loops hread').resolve_right (hsettles'.not_loops hread')
  have hsame : d.document files.read (old.size + 1) path content =
      d.document files.read (files.size + 1) path content :=
    calc d.document files.read (old.size + 1) path content
      _ = d.document files.read (max (old.size + 1) (files.size + 1)) path content :=
        (Dialect.document_eq hsettles' (Nat.le_max_left _ _)).symm
      _ = d.document files.read (files.size + 1) path content :=
        Dialect.document_eq hbound (Nat.le_max_right _ _)
  exact ⟨⟨content, hread', hbound, by rw [hbare, ← hdocument, hsame]⟩, h.whole, h.below⟩

end Stencil
