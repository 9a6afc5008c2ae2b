import Stencil.Proofs.Compile.Expansion
import Stencil.Proofs.Program.Placing
import Stencil.Proofs.Template.Placement

/-! # Directives that cannot be resolved

What stays unresolved when all directives of a file are replaced by the files that they name, read
off the trees of the templates: once for each place in the expansion, with the directives that have
led there.  The gaps of the document of the file are just these.  If a syntax takes the files apart,
nothing but a gap comes from the place where a directive begins.
-/
namespace Stencil
open Template (originAt)

/-! ## The gaps of a file -/

namespace Dialect

variable (d : Dialect) (read : String → Except ReadError String)

/-- What a directive of a file leaves unresolved, if `rest` says that of each file. -/
def leaves (path : String) (rest : (path content : String) → List Unresolved)
    (i : Template.Inclusion) : List Unresolved :=
  let directive := originAt path i.location.start
  match d.target i.arguments path with
  | .error reason => [⟨⟨directive, reason⟩, []⟩]
  | .ok target =>
    match read target with
    | .ok content => (rest target content).map (Unresolved.within directive)
    | .error reason => [⟨⟨directive, .ofReadError target reason⟩, []⟩]

/-- What a file leaves unresolved, with includes up to a depth: once for each place in its
expansion, in order. -/
def unresolved : (depth : Nat) → (path content : String) → List Unresolved
  | 0, _, _ => []
  | depth + 1, path, content =>
    (d.tree content).inclusions.flatMap (d.leaves read path (unresolved depth))

end Dialect

theorem gapsOfChunks_append (origin : Option Origin) (place : Mark) (xs ys : List Chunk) :
    gapsOfChunks origin place (xs ++ ys) = gapsOfChunks origin place xs ++
      gapsOfChunks origin (place.after (textOfChunks xs).toList) ys := by
  induction xs generalizing place with
  | nil => simp [gapsOfChunks, textOfChunks]
  | cons x xs ih =>
    rw [List.cons_append, gapsOfChunks, gapsOfChunks, ih, textOfChunks, String.toList_append,
      Mark.after_append, List.append_assoc]

theorem map_unresolved_gapsOfChunks {α : Type} {origin : Option Origin} {xs : List α}
    {piece : α → Chunk} {leaves : α → List Unresolved}
    (h : ∀ x ∈ xs, ∀ place, ((piece x).gaps origin place).map Gap.toUnresolved = leaves x)
    (place : Mark) :
    (gapsOfChunks origin place (xs.map piece)).map Gap.toUnresolved = xs.flatMap leaves := by
  induction xs generalizing place with
  | nil => rfl
  | cons x xs ih =>
    rw [List.map_cons, gapsOfChunks, List.map_append, h x List.mem_cons_self,
      ih fun y hy => h y (List.mem_cons_of_mem x hy), List.flatMap_cons]

theorem gapsOfChunks_eq_nil {origin : Option Origin} {cs : List Chunk}
    (h : ∀ c ∈ cs, ∀ place, c.gaps origin place = []) (place : Mark) :
    gapsOfChunks origin place cs = [] := by
  induction cs generalizing place with
  | nil => rfl
  | cons c cs ih =>
    rw [gapsOfChunks, h c List.mem_cons_self, ih fun d hd => h d (List.mem_cons_of_mem c hd),
      List.append_nil]

theorem gapsOfChunks_singleton (origin : Option Origin) (place : Mark) (c : Chunk) :
    gapsOfChunks origin place [c] = c.gaps origin place := by
  rw [gapsOfChunks, gapsOfChunks, List.append_nil]

namespace Template

variable {source : String} {insert : Inclusion → Chunk}

/-- The gaps in the piece of a node are those in what its directives become. -/
theorem Node.map_unresolved_piece {leaves : Inclusion → List Unresolved} {n : Node}
    (h : ∀ i ∈ n.inclusions, ∀ place, ((insert i).gaps (some (originAt source i.location.start))
      place).map Gap.toUnresolved = leaves i) (origin : Option Origin) (place : Mark) :
    ((n.piece source insert).gaps origin place).map Gap.toUnresolved =
      n.inclusions.flatMap leaves := by
  cases n with
  | text location value => rfl
  | inlineWrite location children =>
    rw [Node.piece_inlineWrite, Chunk.gaps, gapsOfChunks_eq_nil]
    · rfl
    · intro c hc place
      simp only [List.cons_append, List.mem_cons, List.mem_append, List.mem_map, List.not_mem_nil,
        or_false] at hc
      rcases hc with rfl | ⟨s, -, rfl⟩ | rfl <;> rfl
  | block location parts =>
    have hparts : ∀ part ∈ parts, ∀ place, ((part.piece source insert).gaps
        (some (originAt source location.start)) place).map Gap.toUnresolved =
          part.inclusion?.toList.flatMap leaves := by
      intro part hpart place
      cases part with
      | script span => rfl
      | inclusion i =>
        rw [BlockPart.piece_inclusion, Chunk.gaps, gapsOfChunks_singleton]
        exact (h i (mem_inclusions_block.mpr hpart) place).trans (by simp [BlockPart.inclusion?])
    rw [Node.piece_block, Chunk.gaps, gapsOfChunks_append, List.map_append]
    refine (congrArg (· ++ _) (map_unresolved_gapsOfChunks hparts place)).trans ?_
    rw [Node.inclusions, List.filterMap_eq_flatMap_toList, List.flatMap_assoc]
    exact List.append_nil _
  | inclusion i =>
    rw [Node.piece_inclusion, Chunk.gaps, gapsOfChunks_singleton]
    exact (h i List.mem_cons_self place).trans (by simp [Node.inclusions])

end Template

namespace Dialect

variable {d : Dialect} {read : String → Except ReadError String}

/-- What a directive leaves unresolved is what it becomes a gap for. -/
theorem leaves_cases (d : Dialect) (path : String) (i : Template.Inclusion) :
    (∃ reason, (∀ document, d.inserted read path document i = .gap reason) ∧
      ∀ rest, d.leaves read path rest i = [⟨⟨originAt path i.location.start, reason⟩, []⟩]) ∨
    ∃ target content, read target = .ok content ∧
      (∀ document, d.inserted read path document i =
        .inclusion (originAt path i.location.start) (document target content)) ∧
      ∀ rest, d.leaves read path rest i =
        (rest target content).map (Unresolved.within (originAt path i.location.start)) := by
  unfold inserted leaves
  cases htarget : d.target i.arguments path with
  | error reason => exact .inl ⟨reason, fun _ => rfl, fun _ => rfl⟩
  | ok target =>
    cases hread : read target with
    | error reason =>
      exact .inl ⟨.ofReadError target reason, fun _ => by simp [hread], fun _ => by simp [hread]⟩
    | ok content =>
      exact .inr ⟨target, content, hread, fun _ => by simp [hread], fun _ => by simp [hread]⟩

/-- **The gaps of the document of a file are what the file leaves unresolved.** -/
theorem map_unresolved_document (depth : Nat) (path content : String) (place : Mark) :
    ((d.document read depth path content).gaps place).map Gap.toUnresolved =
      d.unresolved read depth path content := by
  induction depth generalizing path content place with
  | zero => rfl
  | succ depth ih =>
    rw [document, unresolved, Document.gaps, Template.Tree.inclusions, List.flatMap_assoc]
    refine map_unresolved_gapsOfChunks (fun n _ place => ?_) place
    refine Template.Node.map_unresolved_piece (fun i _ place => ?_) none place
    rcases d.leaves_cases path i with ⟨reason, hgap, hleaves⟩ | ⟨q, inner, -, hinsert, hleaves⟩
    · rw [hgap, hleaves]
      rfl
    · have hwithin : Gap.toUnresolved ∘ Gap.within (originAt path i.location.start) =
          Unresolved.within (originAt path i.location.start) ∘ Gap.toUnresolved := rfl
      rw [hinsert, hleaves, Chunk.gaps, List.map_map, hwithin, ← List.map_map, ih]

end Dialect

/-! ## Origins of directives -/

/-- The piece of a node keeps the reserved origins free if the node avoids them. -/
theorem Template.Node.clear_piece {reserved : Origin → Prop} {source : String}
    {insert : Inclusion → Chunk} {n : Node} (hn : n.Avoids fun m => reserved ⟨source, m⟩)
    (h : ∀ i ∈ n.inclusions, (∃ error, insert i = .gap error) ∨
      ∀ origin, (insert i).Clear reserved origin) (origin : Option Origin) :
    (n.piece source insert).Clear reserved origin := by
  have hcopied : ∀ s ∈ n.spans, ∀ o, (copied source s).Clear reserved o := fun s hs _ =>
    .inr ⟨hn.copies s hs, trivial⟩
  have hdirective : ∀ i ∈ n.inclusions, ∀ o,
      (Chunk.fragment (some (originAt source i.location.start)) [insert i]).Clear reserved o := by
    intro i hi o
    rcases h i hi with ⟨error, hgap⟩ | hclear
    · exact .inl ⟨_, error, rfl, by rw [hgap]⟩
    · exact .inr ⟨hclear _, trivial⟩
  cases n with
  | text location value => exact .inr ⟨hn.begins (by simp), trivial⟩
  | inlineWrite location children =>
    have hcode : ¬ reserved (originAt source location.start) := hn.begins (by simp)
    rw [Node.piece_inlineWrite]
    refine .inr (clearChunks_iff.mpr fun c hc => ?_)
    simp only [List.cons_append, List.mem_cons, List.mem_append, List.mem_map, List.not_mem_nil,
      or_false] at hc
    rcases hc with rfl | ⟨s, hs, rfl⟩ | rfl
    · exact hcode
    · exact hcopied s hs _
    · exact hcode
  | block location parts =>
    have hcode : ¬ reserved (originAt source location.start) := hn.begins (by simp)
    rw [Node.piece_block]
    refine .inr (clearChunks_iff.mpr fun c hc => ?_)
    simp only [List.mem_append, List.mem_map, List.mem_cons, List.not_mem_nil, or_false] at hc
    rcases hc with ⟨part, hpart, rfl⟩ | rfl
    · cases part with
      | script s => exact hcopied s (List.mem_filterMap.mpr ⟨_, hpart, rfl⟩) _
      | inclusion i => exact hdirective i (mem_inclusions_block.mpr hpart) _
    · exact hcode
  | inclusion i => exact hdirective i List.mem_cons_self origin

namespace Dialect

variable {d : Dialect} {read : String → Except ReadError String} {reserved : Origin → Prop}

/-- The document of a file keeps the reserved origins free if the nodes of all files avoid them. -/
theorem clear_document (hfiles : ∀ path content, read path = .ok content →
      ∀ n ∈ (d.tree content).nodes, n.Avoids fun m => reserved ⟨path, m⟩)
    (depth : Nat) {path content : String} (hread : read path = .ok content) :
    (d.document read depth path content).Clear reserved := by
  induction depth generalizing path content with
  | zero => exact trivial
  | succ depth ih =>
    rw [document, Document.Clear, clearChunks_iff, List.forall_mem_map]
    intro n hn
    refine Template.Node.clear_piece (hfiles path content hread n hn) (fun i _ => ?_) none
    rcases d.leaves_cases path i with ⟨reason, hgap, -⟩ | ⟨q, inner, hinner, hinsert, -⟩
    · exact .inl ⟨reason, hgap _⟩
    · refine .inr fun _ => ?_
      rw [hinsert]
      exact ih hinner

/-- Any document of a file keeps the origins free of which there are none. -/
theorem clear_document_none (depth : Nat) {path content : String}
    (hread : read path = .ok content) :
    (d.document read depth path content).Clear fun _ => False :=
  clear_document (fun _ _ _ _ _ => ⟨fun _ h => h, fun _ _ _ _ h => h⟩) depth hread

variable (d read) in
/-- A directive of a readable file begins at an origin. -/
def Directs (o : Origin) : Prop :=
  ∃ content, read o.source = .ok content ∧
    Template.BeginsDirective (Template.scan d.classifier content) o.mark

/-- If a syntax takes the files apart, the origins of directives are kept free. -/
theorem clear_document_directs {s : Template.Syntax} (hclassifier : d.classifier = s.classify)
    (depth : Nat) {path content : String} (hread : read path = .ok content) :
    (d.document read depth path content).Clear (d.Directs read) := by
  refine clear_document (fun q inner hq n hn => ?_) depth hread
  have horder : Template.InOrder (Template.scan d.classifier inner) :=
    hclassifier ▸ Template.inOrder_scan s inner
  obtain ⟨hbegins, hcopies⟩ := horder.avoids_ofSpans n hn
  have honly : ∀ m, d.Directs read ⟨q, m⟩ →
      Template.BeginsDirective (Template.scan d.classifier inner) m := by
    rintro m ⟨content', hread', hdirective⟩
    obtain rfl := Except.ok.inj (hread'.symm.trans hq)
    exact hdirective
  exact ⟨fun hother h => hbegins hother (honly _ h),
    fun s hs m hm h => hcopies s hs m hm (honly _ h)⟩

/-- What is unresolved is a directive. -/
theorem directs_of_mem_unresolved (depth : Nat) {path content : String}
    (hread : read path = .ok content) :
    ∀ u ∈ d.unresolved read depth path content, d.Directs read u.failure.origin := by
  induction depth generalizing path content with
  | zero => intro u hu; cases hu
  | succ depth ih =>
    intro u hu
    obtain ⟨i, hi, hu⟩ := List.mem_flatMap.mp hu
    rcases d.leaves_cases path i with ⟨reason, -, hleaves⟩ | ⟨q, inner, hinner, -, hleaves⟩
    · rw [hleaves] at hu
      obtain rfl := List.mem_singleton.mp hu
      obtain ⟨n, hn, hi⟩ := List.mem_flatMap.mp hi
      have hbegins := Template.Tree.begins_ofSpans _ n hn
      obtain ⟨s, hs, hscope, hstart⟩ :
          ∃ s ∈ Template.scan d.classifier content, s.scope = .includeBegin ∧
            s.start = i.location.start := by
        cases n with
        | text | inlineWrite => cases hi
        | block location parts => exact hbegins.2 i (Template.mem_inclusions_block.mp hi)
        | inclusion j =>
          obtain rfl := List.mem_singleton.mp hi
          exact hbegins
      exact ⟨content, hread, s, hs, hscope, congrArg Position.mark hstart⟩
    · rw [hleaves] at hu
      obtain ⟨u', hu', rfl⟩ := List.mem_map.mp hu
      exact ih hinner u' hu'

end Dialect

end Stencil
