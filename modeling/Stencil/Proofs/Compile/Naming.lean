import Stencil.Proofs.Compile.Expansion
import Stencil.Proofs.Program.Lookup
import Stencil.Proofs.Template.Placement

/-! # The places that a document names

Whatever ranges a classifier reports, the spans of a template begin at bytes of its text, and so do
the nodes of its tree.  So all origins that the document of a file names lie in files that can be
read: they are places of bytes, with columns that the text has room for.
-/
namespace Stencil
open Template (originAt)

/-! ## Columns -/

theorem charsInBytes?_le {cs : List Char} {n k : Nat} (h : charsInBytes? cs n = some k) :
    k ≤ n := by
  fun_induction charsInBytes? cs n generalizing k with
  | case1 =>
    obtain rfl := Option.some.inj h
    exact Nat.le_refl 0
  | case2 => cases h
  | case3 c cs n hc ih =>
    obtain ⟨j, hj, rfl⟩ := Option.map_eq_some_iff.mp h
    have hle := ih hj
    have hpos := c.utf8Size_pos
    omega
  | case4 => cases h

/-- A column counts at most the bytes of the text. -/
theorem LineIndex.column_position_le (index : LineIndex) (offset : Nat) :
    (index.position offset).column ≤ index.size := by
  unfold position
  extract_lets within line
  split
  · rename_i l _
    show (charsInBytes? l.chars (within - l.start)).getD (within - l.start) ≤ index.size
    have hwithin : within - l.start ≤ index.size :=
      Nat.le_trans (Nat.sub_le _ _) (Nat.min_le_right _ _)
    cases hchars : charsInBytes? l.chars (within - l.start) with
    | none => exact hwithin
    | some k => exact Nat.le_trans (charsInBytes?_le hchars) hwithin
  · exact Nat.zero_le _

namespace Template

/-! ## Spans -/

namespace Scanner

variable {index : LineIndex} {text : List Char} {s : Scanner}

/-- All spans begin at bytes of the text. -/
def Indexed (index : LineIndex) (s : Scanner) : Prop :=
  ∀ x ∈ s.spans, ∃ offset, x.start = index.position offset

theorem Indexed.cons {x : Span} {rest : List Span} {openEnd : Option Nat} {cursor : Nat}
    (hx : ∃ offset, x.start = index.position offset)
    (hrest : ∀ y ∈ rest, ∃ offset, y.start = index.position offset) :
    Indexed index ⟨x :: rest, openEnd, cursor⟩ :=
  List.forall_mem_cons.mpr ⟨hx, hrest⟩

theorem Indexed.addContent (hs : s.Indexed index) (scope : Scope) (start stop : Nat) :
    (s.addContent text index scope start stop).Indexed index := by
  unfold Scanner.addContent
  split
  · exact hs
  · rename_i cs hslice
    split
    · rename_i last rest hspans
      have hkept : ∀ x ∈ last :: rest, ∃ offset, x.start = index.position offset := hspans ▸ hs
      obtain ⟨hlast, hrest⟩ := List.forall_mem_cons.mp hkept
      split
      · -- the last span grows, but keeps its beginning
        exact Indexed.cons hlast hrest
      · exact Indexed.cons ⟨start, rfl⟩ hs
    · exact Indexed.cons ⟨start, rfl⟩ (by simp)

theorem Indexed.addRange (hs : s.Indexed index) (scope : Scope) (start stop : Nat) :
    (s.addRange text index scope start stop).Indexed index := by
  unfold Scanner.addRange
  split
  · exact hs
  · split
    · split
      · exact hs.addContent scope start stop
      · exact hs
    · exact Indexed.cons ⟨start, rfl⟩ hs

theorem Indexed.step (hs : s.Indexed index) (c : Classified) :
    (s.step text index c).Indexed index := by
  unfold Scanner.step
  extract_lets start stop content
  split
  · exact hs
  · have hcontent : content.Indexed index := by
      unfold content
      split
      · exact hs.addContent .text s.cursor start
      · exact hs
    exact hcontent.addRange c.scope start stop

theorem Indexed.foldl (hs : s.Indexed index) (ranges : List Classified) :
    (ranges.foldl (Scanner.step text index) s).Indexed index := by
  induction ranges generalizing s with
  | nil => exact hs
  | cons c ranges ih => exact ih (hs.step c)

theorem Indexed.finish (hs : s.Indexed index) :
    ∀ x ∈ s.finish text index, ∃ offset, x.start = index.position offset := by
  intro x hx
  unfold Scanner.finish at hx
  simp only [List.mem_reverse] at hx
  split at hx
  · exact hs.addContent .text s.cursor _ x hx
  · exact hs x hx

end Scanner

/-- The spans of a text begin at its bytes. -/
theorem indexed_of_mem_scan (classifier : Classifier) (text : String) :
    ∀ s ∈ scan classifier text, ∃ offset, s.start = (LineIndex.ofString text).position offset := by
  have hstart : Scanner.Indexed (.ofString text) .start := by simp [Scanner.Indexed, Scanner.start]
  unfold scan scanRanges
  simp only [String.ofList_toList]
  exact (hstart.foldl _).finish

/-! ## Nodes -/

/-- The nodes of a tree begin where spans do. -/
theorem Tree.begins_of_starts {spans : List Span} {good : Position → Prop}
    (h : ∀ s ∈ spans, good s.start) : ∀ n ∈ (Tree.ofSpans spans).nodes, n.Begins good good := by
  have hspans : ∀ s ∈ spans, Builder.Admits good good s := fun s hs => by
    unfold Builder.Admits
    split
    · exact h s hs
    · exact fun _ => h s hs
  have hstart : Builder.Begins good good .start :=
    ⟨by simp [Builder.start], by simp [Builder.start], by simp [Builder.start]⟩
  intro n hn
  exact ((hstart.foldl hspans).finish _).nodes n (by simpa [Tree.ofSpans] using hn)

end Template

variable {P : Origin → Prop} {source : String} {origin : Option Origin}

/-- A copied span names the places of its characters. -/
theorem Template.names_copied {span : Template.Span}
    (h : ∀ pre post, span.value.toList = pre ++ post → P (originAt source (span.start.after pre))) :
    (copied source span).Names P origin := by
  have hplaces : ∀ pre post, span.value.toList = pre ++ post →
      P { originAt source span.start with mark := (originAt source span.start).mark.after pre } := by
    intro pre post hvalue
    rw [originAt, ← Position.mark_after]
    exact h pre post hvalue
  exact ⟨fun o ho => Option.some.inj ho ▸ h [] _ rfl, hplaces, trivial⟩

/-- The piece of a node names its beginning and the places of what it copies, and what its
directives become names. -/
theorem Template.Node.names_piece {insert : Inclusion → Chunk} {n : Node}
    (hbegins : n.Begins (fun p => P (originAt source p)) fun p => P (originAt source p))
    (hspans : ∀ s ∈ n.spans, ∀ pre post, s.value.toList = pre ++ post →
      P (originAt source (s.start.after pre)))
    (hinsert : ∀ i, P (originAt source i.location.start) →
      (insert i).Names P (some (originAt source i.location.start))) :
    (n.piece source insert).Names P none := by
  have hown : ∀ {p : Position}, P (originAt source p) →
      ∀ o ∈ some (originAt source p), P o := fun h o ho => Option.some.inj ho ▸ h
  cases n with
  | text location value =>
    rw [Node.piece_text]
    exact ⟨hown hbegins, hbegins, trivial⟩
  | inlineWrite location children =>
    rw [Node.piece_inlineWrite]
    refine ⟨hown hbegins, nameChunks_iff.mpr ?_⟩
    simp only [List.cons_append, List.forall_mem_cons, List.forall_mem_append, List.forall_mem_map]
    exact ⟨hbegins, fun s hs => names_copied (hspans s hs), hbegins, by simp⟩
  | block location parts =>
    obtain ⟨hstart, hdirectives⟩ := hbegins
    rw [Node.piece_block]
    refine ⟨hown hstart, nameChunks_iff.mpr ?_⟩
    simp only [List.forall_mem_append, List.forall_mem_cons, List.forall_mem_map]
    refine ⟨fun part hpart => ?_, hstart, by simp⟩
    cases part with
    | script s => exact names_copied (hspans s (List.mem_filterMap.mpr ⟨_, hpart, rfl⟩))
    | inclusion i =>
      have hdirective := hdirectives i hpart
      rw [BlockPart.piece_inclusion]
      exact ⟨hown hdirective, hinsert i hdirective, trivial⟩
  | inclusion i =>
    rw [Node.piece_inclusion]
    exact ⟨hown hbegins, hinsert i hbegins, trivial⟩

/-! ## Documents -/

/-- A place of a byte in a file that is read, with a column that its text has room for. -/
def Origin.LiesIn (reads : (path content : String) → Prop) (o : Origin) : Prop :=
  ∃ content, reads o.source content ∧ o.mark.column ≤ content.utf8ByteSize + 1 ∧
    ∃ offset, o.mark = ((LineIndex.ofString content).position offset).mark

variable {reads : (path content : String) → Prop}

theorem Origin.liesIn_position {path content : String} (h : reads path content) (offset : Nat) :
    (originAt path ((LineIndex.ofString content).position offset)).LiesIn reads :=
  ⟨content, h, Nat.succ_le_succ (LineIndex.column_position_le _ offset), offset, rfl⟩

namespace Dialect

variable {d : Dialect} {read : String → Except ReadError String}

/-- **All origins that the document of a file names lie in files that are read.** -/
theorem names_document (hreads : ∀ path content, read path = .ok content → reads path content)
    {depth : Nat} {path content : String} (h : reads path content) :
    (d.document read depth path content).Names (Origin.LiesIn reads) := by
  induction depth generalizing path content with
  | zero => trivial
  | succ depth ih =>
    rw [document, Document.Names, nameChunks_iff, List.forall_mem_map]
    intro n hn
    have hstarts : ∀ s ∈ Template.scan d.classifier content,
        (originAt path s.start).LiesIn reads := by
      intro s hs
      obtain ⟨offset, hstart⟩ := Template.indexed_of_mem_scan d.classifier content s hs
      rw [hstart]
      exact Origin.liesIn_position h offset
    have hstands := Template.Tree.forall_spans_ofSpans
      (Template.standsIn_of_mem_scan d.classifier content) n hn
    refine Template.Node.names_piece (Template.Tree.begins_of_starts hstarts n hn) (fun s hs pre post hvalue => ?_) fun i hi => ?_
    · obtain ⟨before, behind, hcontent, hstart⟩ := hstands s hs
      have hsplit : content.toList = (before ++ pre) ++ (post ++ behind) := by
        rw [hcontent, hvalue]
        simp only [List.append_assoc]
      have hposition := Template.Scanner.position_of_append (before ++ pre) (post ++ behind) hsplit
      rw [String.ofList_toList] at hposition
      rw [hstart, ← Position.after_append, ← hposition]
      exact Origin.liesIn_position h _
    · rcases d.inserted_cases path i with ⟨reason, hgap, -⟩ | ⟨q, inner, -, hread, hinsert, -⟩
      · rw [hgap]
        exact hi
      · rw [hinsert]
        exact ih (hreads q inner hread)

/-- Lookups in the program of a file lead into files that are read. -/
theorem locates_of_bare (hreads : ∀ path content, read path = .ok content → reads path content)
    {depth : Nat} {path content : String} (h : reads path content) {document : Document}
    (hbare : document.bare = d.document read depth path content)
    (hmappings : document.program.map.mappings ≠ []) :
    document.program.Locates (Origin.LiesIn reads) := by
  have htidy : document.Tidy := by
    rw [← document.tidy_bare, hbare]
    exact tidy_document _ _ _
  have hnames : document.bare.Names (Origin.LiesIn reads) := by
    rw [hbare]
    exact names_document hreads h
  exact document.locates_of_bare htidy hnames hmappings

end Dialect

end Stencil
