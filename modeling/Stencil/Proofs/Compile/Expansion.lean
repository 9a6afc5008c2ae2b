import Stencil.Proofs.Compile.Cycle
import Stencil.Proofs.Program.Bare
import Stencil.Proofs.Template.Copied

/-! # The expansion of a file

What a file stands for once all directives are replaced by the files that they name, read off the
trees of the templates alone: as a text in which every character knows its origin and the directives
around it, and as the document that a compilation has to make.  The cells of the document are the
characters of the text.
-/
namespace Stencil
open Template (originAt writeStatement)
open Include (IncludeError)

/-! ## Nodes -/

namespace Template

/-- The characters that a part of a block becomes. -/
def BlockPart.emitted (source : String) (insert : Inclusion → List Emitted) :
    BlockPart → List Emitted
  | .script span => Emitted.copiedFrom (originAt source span.start) span.value.toList
  | .inclusion i => insert i

/-- The characters that a node becomes. What is not copied comes from the beginning of the node. -/
def Node.emitted (source : String) (insert : Inclusion → List Emitted) : Node → List Emitted
  | .text location value =>
    Emitted.made (originAt source location.start) (writeStatement value).toList
  | .inlineWrite location children =>
    Emitted.made (originAt source location.start) ";write(".toList ++
      children.flatMap (fun span =>
        Emitted.copiedFrom (originAt source span.start) span.value.toList) ++
      Emitted.made (originAt source location.start) ");".toList
  | .block location parts =>
    parts.flatMap (BlockPart.emitted source insert) ++
      Emitted.made (originAt source location.start) "\n".toList
  | .inclusion i => insert i

/-- The piece of a part of a block, if it is known what directives become. -/
def BlockPart.piece (source : String) (insert : Inclusion → Chunk) (p : BlockPart) : Chunk :=
  Id.run (p.chunk source fun i => pure (insert i))

/-- The piece of a node, if it is known what directives become. -/
def Node.piece (source : String) (insert : Inclusion → Chunk) (n : Node) : Chunk :=
  Id.run (n.chunk source fun i => pure (insert i))

variable {source : String} {insert insert' : Inclusion → Chunk}

theorem BlockPart.piece_inclusion (i : Inclusion) :
    (BlockPart.inclusion i).piece source insert =
      .fragment (some (originAt source i.location.start)) [insert i] := rfl

theorem Node.piece_text (location : Location) (value : String) :
    (Node.text location value).piece source insert =
      .fragment (some (originAt source location.start)) [.code (writeStatement value)] := rfl

theorem Node.piece_inlineWrite (location : Location) (children : List Span) :
    (Node.inlineWrite location children).piece source insert =
      .fragment (some (originAt source location.start))
        (.code ";write(" :: children.map (copied source) ++ [.code ");"]) := rfl

theorem Node.piece_block (location : Location) (parts : List BlockPart) :
    (Node.block location parts).piece source insert =
      .fragment (some (originAt source location.start))
        (parts.map (BlockPart.piece source insert) ++ [.code "\n"]) := by
  show Id.run (do
    let chunks ← parts.mapM (BlockPart.chunk source fun i => pure (insert i))
    return Chunk.fragment (some (originAt source location.start)) (chunks ++ [.code "\n"])) = _
  rw [Id.run_bind, List.idRun_mapM]
  rfl

theorem Node.piece_inclusion (i : Inclusion) :
    (Node.inclusion i).piece source insert =
      .fragment (some (originAt source i.location.start)) [insert i] := rfl

theorem mem_inclusions_block {location : Location} {parts : List BlockPart} {i : Inclusion} :
    i ∈ (Node.block location parts).inclusions ↔ .inclusion i ∈ parts := by
  rw [Node.inclusions, List.mem_filterMap]
  constructor
  · rintro ⟨part, hpart, hi⟩
    cases part with
    | script span => cases hi
    | inclusion j =>
      obtain rfl := Option.some.inj hi
      exact hpart
  · exact fun h => ⟨_, h, rfl⟩

/-- The piece of a node is a fragment of code, of copied spans and of what its directives become. -/
theorem Node.exists_piece_eq (source : String) (insert : Inclusion → Chunk) (n : Node) :
    ∃ origin cs, n.piece source insert = .fragment (some origin) cs ∧ origin.source = source ∧
      ∀ c ∈ cs, (∃ text, c = .code text) ∨ (∃ s ∈ n.spans, c = copied source s) ∨
        ∃ i ∈ n.inclusions, c = insert i ∨
          c = .fragment (some (originAt source i.location.start)) [insert i] := by
  cases n with
  | text location value =>
    refine ⟨_, _, rfl, rfl, fun c hc => ?_⟩
    exact .inl ⟨_, List.mem_singleton.mp hc⟩
  | inlineWrite location children =>
    refine ⟨_, _, rfl, rfl, fun c hc => ?_⟩
    simp only [List.cons_append, List.mem_cons, List.mem_append, List.mem_map, List.not_mem_nil,
      or_false] at hc
    rcases hc with rfl | ⟨s, hs, rfl⟩ | rfl
    · exact .inl ⟨_, rfl⟩
    · exact .inr (.inl ⟨s, hs, rfl⟩)
    · exact .inl ⟨_, rfl⟩
  | block location parts =>
    rw [Node.piece_block]
    refine ⟨_, _, rfl, rfl, fun c hc => ?_⟩
    simp only [List.mem_append, List.mem_map, List.mem_cons, List.not_mem_nil, or_false] at hc
    rcases hc with ⟨part, hpart, rfl⟩ | rfl
    · cases part with
      | script s => exact .inr (.inl ⟨s, List.mem_filterMap.mpr ⟨_, hpart, rfl⟩, rfl⟩)
      | inclusion i => exact .inr (.inr ⟨i, mem_inclusions_block.mpr hpart, .inr rfl⟩)
    · exact .inl ⟨_, rfl⟩
  | inclusion i =>
    refine ⟨_, _, rfl, rfl, fun c hc => ?_⟩
    exact .inr (.inr ⟨i, List.mem_cons_self, .inl (List.mem_singleton.mp hc)⟩)

/-- The piece of a node depends only on what its own directives become. -/
theorem Node.piece_congr {n : Node} (h : ∀ i ∈ n.inclusions, insert i = insert' i) :
    n.piece source insert = n.piece source insert' := by
  cases n with
  | text => rfl
  | inlineWrite => rfl
  | block location parts =>
    have hparts : parts.map (BlockPart.piece source insert) =
        parts.map (BlockPart.piece source insert') := by
      refine List.map_congr_left fun part hpart => ?_
      cases part with
      | script => rfl
      | inclusion i =>
        rw [BlockPart.piece_inclusion, BlockPart.piece_inclusion,
          h i (mem_inclusions_block.mpr hpart)]
    rw [Node.piece_block, Node.piece_block, hparts]
  | inclusion i =>
    rw [Node.piece_inclusion, Node.piece_inclusion, h i List.mem_cons_self]

end Template

/-! ## Documents and expansions of files -/

namespace Dialect

variable (d : Dialect) (read : String → Except ReadError String)

/-- What a directive of a file becomes, if `document` gives the document of each file. -/
def inserted (path : String) (document : (path content : String) → Document)
    (i : Template.Inclusion) : Chunk :=
  match d.target i.arguments path with
  | .error reason => .gap reason
  | .ok target =>
    match read target with
    | .ok content =>
      .inclusion (originAt path i.location.start) (document target content)
    | .error reason => .gap (.ofReadError target reason)

/-- The document of a file, with includes up to a depth. -/
def document : (depth : Nat) → (path content : String) → Document
  | 0, path, content => .mk ⟨0, path, contentHash content, (d.tree content).malformed⟩ []
  | depth + 1, path, content =>
    .mk ⟨0, path, contentHash content, (d.tree content).malformed⟩
      ((d.tree content).nodes.map
        (Template.Node.piece path (d.inserted read path (document depth))))

/-- The characters that a directive of a file becomes, if `expansion` gives those of each file. -/
def emitted (path : String) (expansion : (path content : String) → List Emitted)
    (i : Template.Inclusion) : List Emitted :=
  let directive := originAt path i.location.start
  match d.target i.arguments path with
  | .error _ => Emitted.made directive gapCode.toList
  | .ok target =>
    match read target with
    | .ok content => (expansion target content).map (Emitted.within directive)
    | .error _ => Emitted.made directive gapCode.toList

/-- The characters that a file stands for, with includes up to a depth. -/
def expansion : (depth : Nat) → (path content : String) → List Emitted
  | 0, _, _ => []
  | depth + 1, path, content =>
    (d.tree content).nodes.flatMap
      (Template.Node.emitted path (d.emitted read path (expansion depth)))

variable {d read}

/-- A directive leaves a gap, or inserts what a readable file that it names stands for. -/
theorem inserted_cases (d : Dialect) (path : String) (i : Template.Inclusion) :
    (∃ reason, (∀ document, d.inserted read path document i = .gap reason) ∧
      ∀ expansion, d.emitted read path expansion i =
        Emitted.made (originAt path i.location.start) gapCode.toList) ∨
    ∃ target content, d.target i.arguments path = .ok target ∧ read target = .ok content ∧
      (∀ document, d.inserted read path document i =
        .inclusion (originAt path i.location.start) (document target content)) ∧
      ∀ expansion, d.emitted read path expansion i =
        (expansion target content).map (Emitted.within (originAt path i.location.start)) := by
  unfold inserted emitted
  cases htarget : d.target i.arguments path with
  | error reason => exact .inl ⟨reason, fun _ => rfl, fun _ => rfl⟩
  | ok target =>
    cases hread : read target with
    | error reason =>
      exact .inl ⟨.ofReadError target reason, fun _ => by simp [hread], fun _ => by simp [hread]⟩
    | ok content =>
      exact .inr ⟨target, content, rfl, hread, fun _ => by simp [hread], fun _ => by simp [hread]⟩

theorem mem_targets {path content target : String} {n : Template.Node} {i : Template.Inclusion}
    (hn : n ∈ (d.tree content).nodes) (hi : i ∈ n.inclusions)
    (h : d.target i.arguments path = .ok target) : target ∈ d.targets path content :=
  List.mem_filterMap.mpr ⟨i, List.mem_flatMap.mpr ⟨n, hn, hi⟩, by rw [h]; rfl⟩

theorem path_document (depth : Nat) (path content : String) :
    (d.document read depth path content).path = path := by
  cases depth <;> rfl

/-- Beyond the bound that the includes of a file keep to, its document stays the same. -/
theorem document_eq {m n : Nat} {path content : String} (h : d.Settles read m path content)
    (hle : m ≤ n) : d.document read n path content = d.document read m path content := by
  induction m generalizing n path content with
  | zero => exact h.elim
  | succ m ih =>
    obtain _ | n := n
    · exact absurd hle (Nat.not_succ_le_zero m)
    · rw [document, document]
      refine congrArg _ (List.map_congr_left fun node hnode => Template.Node.piece_congr ?_)
      intro i hi
      rcases d.inserted_cases path i with ⟨reason, hgap, -⟩ | ⟨q, inner, hq, hread, hinsert, -⟩
      · rw [hgap, hgap]
      · rw [hinsert, hinsert, ih (h q (mem_targets hnode hi hq) inner hread)
          (Nat.le_of_succ_le_succ hle)]

end Dialect

/-! ## The cells of a document are its expansion -/

theorem cellsOfChunks_append (origin : Option Origin) (place : Mark) (xs ys : List Chunk) :
    cellsOfChunks origin place (xs ++ ys) = cellsOfChunks origin place xs ++
      cellsOfChunks origin (place.after (textOfChunks xs).toList) ys := by
  induction xs generalizing place with
  | nil => simp [cellsOfChunks, textOfChunks]
  | cons x xs ih =>
    rw [List.cons_append, cellsOfChunks, cellsOfChunks, ih, textOfChunks, String.toList_append,
      Mark.after_append, List.append_assoc]

theorem map_emitted_cellsOfChunks {α : Type} {origin : Option Origin} {xs : List α}
    {piece : α → Chunk} {emitted : α → List Emitted}
    (h : ∀ x ∈ xs, ∀ place, ((piece x).cells origin place).map Cell.emitted = emitted x)
    (place : Mark) :
    (cellsOfChunks origin place (xs.map piece)).map Cell.emitted = xs.flatMap emitted := by
  induction xs generalizing place with
  | nil => rfl
  | cons x xs ih =>
    rw [List.map_cons, cellsOfChunks, List.map_append, h x List.mem_cons_self,
      ih fun y hy => h y (List.mem_cons_of_mem x hy), List.flatMap_cons]

theorem map_emitted_singleton (origin : Option Origin) (place : Mark) (c : Chunk) :
    (cellsOfChunks origin place [c]).map Cell.emitted =
      (c.cells origin place).map Cell.emitted := by
  rw [cellsOfChunks, cellsOfChunks, List.append_nil]

theorem map_emitted_code (origin : Origin) (place : Mark) (text : String) :
    ((Chunk.code text).cells (some origin) place).map Cell.emitted =
      Emitted.made origin text.toList :=
  Cell.map_emitted_made origin place text.toList

theorem map_emitted_copied (source : String) (span : Template.Span) (origin : Option Origin)
    (place : Mark) :
    ((Template.copied source span).cells origin place).map Cell.emitted =
      Emitted.copiedFrom (originAt source span.start) span.value.toList := by
  rw [Template.copied, Chunk.cells, map_emitted_singleton]
  exact Cell.map_emitted_copiedFrom _ _ _

theorem Template.Node.map_emitted_piece {source : String} {insert : Inclusion → Chunk}
    {emitted : Inclusion → List Emitted} {n : Node}
    (h : ∀ i ∈ n.inclusions, ∀ place, ((insert i).cells (some (originAt source i.location.start))
      place).map Cell.emitted = emitted i) (origin : Option Origin) (place : Mark) :
    ((n.piece source insert).cells origin place).map Cell.emitted = n.emitted source emitted := by
  cases n with
  | text location value =>
    rw [Node.piece_text, Chunk.cells, map_emitted_singleton]
    exact map_emitted_code _ _ _
  | inlineWrite location children =>
    rw [Node.piece_inlineWrite, Chunk.cells, cellsOfChunks_append, List.map_append,
      map_emitted_singleton, cellsOfChunks, List.map_append,
      map_emitted_cellsOfChunks fun span _ => map_emitted_copied source span _]
    exact congrArg₂ _ (congrArg (· ++ _) (map_emitted_code _ _ _)) (map_emitted_code _ _ _)
  | block location parts =>
    have hparts : ∀ part ∈ parts, ∀ place,
        ((part.piece source insert).cells (some (originAt source location.start)) place).map
          Cell.emitted = part.emitted source emitted := by
      intro part hpart place
      cases part with
      | script span => exact map_emitted_copied source span _ place
      | inclusion i =>
        rw [BlockPart.piece_inclusion, Chunk.cells, map_emitted_singleton]
        exact h i (mem_inclusions_block.mpr hpart) place
    rw [Node.piece_block, Chunk.cells, cellsOfChunks_append, List.map_append,
      map_emitted_singleton]
    exact congrArg₂ _ (map_emitted_cellsOfChunks hparts place) (map_emitted_code _ _ _)
  | inclusion i =>
    rw [Node.piece_inclusion, Chunk.cells, map_emitted_singleton]
    exact h i List.mem_cons_self place

namespace Dialect

variable {d : Dialect} {read : String → Except ReadError String}

/-- The cells of the document of a file are the characters that the file stands for. -/
theorem map_emitted_document (depth : Nat) (path content : String) (place : Mark) :
    ((d.document read depth path content).cells place).map Cell.emitted =
      d.expansion read depth path content := by
  induction depth generalizing path content place with
  | zero => rfl
  | succ depth ih =>
    rw [document, expansion, Document.cells]
    refine map_emitted_cellsOfChunks (fun n _ place => ?_) place
    refine Template.Node.map_emitted_piece (fun i _ place => ?_) none place
    rcases d.inserted_cases path i with ⟨reason, hgap, hmade⟩ | ⟨q, inner, -, -, hinsert, hemitted⟩
    · rw [hgap, hmade, Chunk.cells]
      exact Cell.map_emitted_made _ _ _
    · have hunder : ∀ o : Occurrence, Cell.emitted ∘ Cell.under o =
          Emitted.within o.directive ∘ Cell.emitted := fun o => funext (Cell.emitted_under o)
      rw [hinsert, hemitted, Chunk.cells, List.map_map, hunder, ← List.map_map, ih]
      rfl

end Dialect

/-! ## Documents of files are tidy -/

theorem tidyChunks_iff {path : String} {cs : List Chunk} :
    TidyChunks path cs ↔ ∀ c ∈ cs, c.Tidy path := by
  induction cs with
  | nil => simp [TidyChunks]
  | cons c cs ih => rw [TidyChunks, ih, List.forall_mem_cons]

theorem tidy_copied (source : String) (span : Template.Span) :
    (Template.copied source span).Tidy source :=
  ⟨⟨_, rfl, rfl⟩, .inl ⟨_, rfl⟩⟩

theorem Template.Node.tidy_piece {source : String} {insert : Inclusion → Chunk} {n : Node}
    (h : ∀ i ∈ n.inclusions, (insert i).Tidy source) :
    (n.piece source insert).Tidy source ∧ (n.piece source insert).IsFragment := by
  obtain ⟨origin, cs, hpiece, hsource, hcs⟩ := n.exists_piece_eq source insert
  rw [hpiece]
  refine ⟨⟨⟨origin, rfl, hsource⟩, .inr (tidyChunks_iff.mpr fun c hc => ?_)⟩, trivial⟩
  rcases hcs c hc with ⟨text, rfl⟩ | ⟨s, -, rfl⟩ | ⟨i, hi, rfl | rfl⟩
  · trivial
  · exact tidy_copied source s
  · exact h i hi
  · exact ⟨⟨_, rfl, rfl⟩, .inr ⟨h i hi, trivial⟩⟩

theorem Dialect.tidy_document {d : Dialect} {read : String → Except ReadError String} (depth : Nat)
    (path content : String) : (d.document read depth path content).Tidy := by
  induction depth generalizing path content with
  | zero => exact ⟨trivial, by simp⟩
  | succ depth ih =>
    have hpiece : ∀ n : Template.Node,
        (n.piece path (d.inserted read path (d.document read depth))).Tidy path ∧
          (n.piece path (d.inserted read path (d.document read depth))).IsFragment := by
      refine fun n => Template.Node.tidy_piece fun i _ => ?_
      rcases d.inserted_cases path i with ⟨reason, hgap, -⟩ | ⟨q, inner, -, -, hinsert, -⟩
      · rw [hgap]
        trivial
      · rw [hinsert]
        exact ⟨rfl, ih q inner⟩
    rw [document, Document.Tidy, tidyChunks_iff, List.forall_mem_map, List.forall_mem_map]
    exact ⟨fun n _ => (hpiece n).1, fun n _ => (hpiece n).2⟩

/-! ## Copied characters stand at their origins -/

/-- The character of a file at a place is given. -/
def Origin.Holds (read : String → Except ReadError String) (o : Origin) (c : Char) : Prop :=
  ∃ content pre post, read o.source = .ok content ∧ content.toList = pre ++ c :: post ∧
    o.mark = Mark.origin.after pre

theorem Emitted.holds_of_mem_copiedFrom {read : String → Except ReadError String}
    {content : String} {o : Origin} {cs pre post : List Char} (hread : read o.source = .ok content)
    (hcontent : content.toList = pre ++ cs ++ post) (hmark : o.mark = Mark.origin.after pre) :
    ∀ e ∈ Emitted.copiedFrom o cs, e.origin.Holds read e.char := by
  induction cs generalizing o pre with
  | nil => simp [Emitted.copiedFrom]
  | cons c cs ih =>
    intro e he
    rcases List.mem_cons.mp he with rfl | he
    · exact ⟨content, pre, cs ++ post, hread, by rw [hcontent]; simp, hmark⟩
    · refine @ih { o with mark := o.mark.advance c } (pre ++ [c]) hread ?_ ?_ e he
      · rw [hcontent]
        simp
      · simp [hmark]

theorem Emitted.not_copied_of_mem_made {o : Origin} {cs : List Char} :
    ∀ e ∈ Emitted.made o cs, e.copied = false := by
  intro e he
  obtain ⟨c, -, rfl⟩ := List.mem_map.mp he
  rfl

theorem Template.Node.holds_of_mem_emitted {read : String → Except ReadError String}
    {path content : String} {emitted : Inclusion → List Emitted} {n : Node}
    (hread : read path = .ok content) (hspans : ∀ s ∈ n.spans, s.StandsIn content.toList)
    (hinsert : ∀ i, ∀ e ∈ emitted i, e.copied = true → e.origin.Holds read e.char) :
    ∀ e ∈ n.emitted path emitted, e.copied = true → e.origin.Holds read e.char := by
  have hmade : ∀ (o : Origin) (cs : List Char), ∀ e ∈ Emitted.made o cs, e.copied = true →
      e.origin.Holds read e.char := fun o cs e he hcopied => by
    rw [Emitted.not_copied_of_mem_made e he] at hcopied
    cases hcopied
  have hspan : ∀ s : Span, s.StandsIn content.toList →
      ∀ e ∈ Emitted.copiedFrom (originAt path s.start) s.value.toList,
        e.origin.Holds read e.char := by
    rintro s ⟨pre, post, hcontent, hstart⟩
    refine Emitted.holds_of_mem_copiedFrom hread hcontent ?_
    rw [originAt, hstart, Position.mark_after]
    rfl
  intro e he hcopied
  cases n with
  | text location value => exact hmade _ _ e he hcopied
  | inlineWrite location children =>
    rcases List.mem_append.mp he with he | he
    · rcases List.mem_append.mp he with he | he
      · exact hmade _ _ e he hcopied
      · obtain ⟨s, hs, he⟩ := List.mem_flatMap.mp he
        exact hspan s (hspans s hs) e he
    · exact hmade _ _ e he hcopied
  | block location parts =>
    rcases List.mem_append.mp he with he | he
    · obtain ⟨part, hpart, he⟩ := List.mem_flatMap.mp he
      cases part with
      | script s => exact hspan s (hspans s (List.mem_filterMap.mpr ⟨_, hpart, rfl⟩)) e he
      | inclusion i => exact hinsert i e he hcopied
    · exact hmade _ _ e he hcopied
  | inclusion i => exact hinsert i e he hcopied

/-- **Every copied character of an expansion stands at its origin.** -/
theorem Dialect.holds_of_mem_expansion {d : Dialect} {read : String → Except ReadError String}
    {depth : Nat} {path content : String} (hread : read path = .ok content) :
    ∀ e ∈ d.expansion read depth path content, e.copied = true → e.origin.Holds read e.char := by
  induction depth generalizing path content with
  | zero => intro e he; cases he
  | succ depth ih =>
    intro e he
    obtain ⟨n, hn, he⟩ := List.mem_flatMap.mp he
    have hspans := Template.Tree.forall_spans_ofSpans
      (Template.standsIn_of_mem_scan d.classifier content) n hn
    refine Template.Node.holds_of_mem_emitted hread hspans (fun i e he hcopied => ?_) e he
    rcases d.inserted_cases path i with ⟨reason, -, hmade⟩ | ⟨q, inner, -, hq, -, hemitted⟩
    · rw [hmade] at he
      rw [Emitted.not_copied_of_mem_made e he] at hcopied
      cases hcopied
    · rw [hemitted] at he
      obtain ⟨e', he', rfl⟩ := List.mem_map.mp he
      exact ih hq e' he' hcopied

end Stencil
