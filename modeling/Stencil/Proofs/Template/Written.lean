import Stencil.Proofs.Compile.Cycle
import Stencil.Proofs.Template.Arguments
import Stencil.Proofs.Template.Outline

/-! # What is written in a directive

A directive of a template stands where its spans stand: behind the one that begins it comes its
text, up to the one that ends it, or to the end of the template.  Its arguments are what the text is
split into.
-/
namespace Stencil.Template

/-- What spans hold between them. -/
def contentOf (spans : List Span) : String :=
  String.join ((spans.filter (·.scope.isContent)).map Span.value)

theorem contentOf_concat (spans : List Span) (s : Span) :
    contentOf (spans ++ [s]) =
      if s.scope.isContent then contentOf spans ++ s.value else contentOf spans := by
  unfold contentOf
  rw [List.filter_append, List.map_append, String.join_append, List.filter_singleton]
  cases s.scope.isContent <;> simp

/-- A span ends a directive. -/
def Span.EndsDirective (s : Span) : Prop := s.scope = .includeEnd ∨ s.scope = .blockClose

/-- A directive begins at a position, and its text stands behind it, before the last spans. -/
def Opens (spans : List Span) (start : Position) (text : String) (last : List Span) : Prop :=
  ∃ front opening inner, spans = front ++ opening :: (inner ++ last) ∧
    opening.scope = .includeBegin ∧ opening.start = start ∧
    (∀ s ∈ inner, ¬ s.EndsDirective) ∧ contentOf inner = text

/-- A directive stands in spans with its text, which goes up to the span that ends it, or else to
the last one. -/
def Inclusion.Written (spans : List Span) (i : Inclusion) (text : String) : Prop :=
  i.arguments = splitArguments text ∧
    ∃ last, Opens spans i.location.start text last ∧ ∀ s ∈ last.head?, s.EndsDirective

/-- The directives of an open region so far. -/
def OpenRegion.inclusions : OpenRegion → List Inclusion
  | .block _ parts => parts.filterMap BlockPart.inclusion?
  | .inlineWrite _ _ => []

namespace Builder

/-- The directives that have ended. -/
def inclusions (b : Builder) : List Inclusion :=
  (b.region.map OpenRegion.inclusions).getD [] ++ b.nodes.flatMap Node.inclusions

variable {b : Builder} {s : Span} {j : Inclusion}

theorem mem_inclusions_endInclusion {i : OpenInclusion} {stop : Position}
    (h : j ∈ (b.endInclusion i stop).inclusions) :
    j = ⟨⟨i.start, stop⟩, splitArguments i.text⟩ ∨ j ∈ b.inclusions := by
  obtain ⟨nodes, malformed, region, inclusion⟩ := b
  rcases region with _ | ⟨start, parts⟩ | ⟨start, children⟩ <;>
    simp_all [inclusions, endInclusion, addNode, OpenRegion.inclusions, Node.inclusions,
      BlockPart.inclusion?]

theorem mem_inclusions_endRegion {region : OpenRegion} (hregion : b.region = some region)
    {stop : Position} : j ∈ (b.endRegion region stop).inclusions ↔ j ∈ b.inclusions := by
  cases region <;>
    simp [inclusions, endRegion, addNode, hregion, OpenRegion.inclusions, Node.inclusions]

theorem mem_inclusions_stepRegion (h : j ∈ (b.stepRegion s).inclusions) : j ∈ b.inclusions := by
  unfold stepRegion at h
  split at h
  · unfold stepOutside at h
    split at h
    · simp_all [inclusions, OpenRegion.inclusions]
    · simp_all [inclusions, OpenRegion.inclusions]
    · exact h
    · split at h
      · simpa [inclusions, addNode, Node.inclusions] using h
      · exact h
  · rename_i start parts hregion
    unfold stepBlock at h
    split at h
    · exact (mem_inclusions_endRegion hregion).mp h
    · exact h
    · split at h
      · simpa [inclusions, hregion, OpenRegion.inclusions, BlockPart.inclusion?] using h
      · exact h
  · rename_i start children hregion
    unfold stepInline at h
    split at h
    · exact (mem_inclusions_endRegion hregion).mp h
    · split at h
      · simpa [inclusions, hregion, OpenRegion.inclusions] using h
      · exact h

theorem inclusion_stepRegion (b : Builder) (s : Span) :
    (b.stepRegion s).inclusion = b.inclusion ∨
      s.scope = .includeBegin ∧ (b.stepRegion s).inclusion = some ⟨s.start, ""⟩ := by
  unfold stepRegion
  split
  · unfold stepOutside
    split
    · exact .inl rfl
    · exact .inl rfl
    · exact .inr ⟨‹_›, rfl⟩
    · split <;> exact .inl rfl
  · unfold stepBlock
    split
    · exact .inl rfl
    · exact .inr ⟨‹_›, rfl⟩
    · split <;> exact .inl rfl
  · unfold stepInline
    split
    · exact .inl rfl
    · split <;> exact .inl rfl

/-- The directives that have ended stand in the spans, and one that is open has its text before the
last of them, which are still to come. -/
structure Reads (spans last : List Span) (b : Builder) : Prop where
  ended : ∀ j ∈ b.inclusions, ∃ text, j.Written spans text
  opened : ∀ i, b.inclusion = some i → Opens spans i.start i.text last

variable {spans last : List Span}

/-- An open directive takes in a span that does not end it. -/
theorem Reads.keep (h : b.Reads spans (s :: last)) {i : OpenInclusion} (hi : b.inclusion = some i)
    (hs : ¬ s.EndsDirective) :
    Opens spans i.start (if s.scope.isContent then i.text ++ s.value else i.text) last := by
  obtain ⟨front, opening, inner, rfl, hscope, hstart, hinner, htext⟩ := h.opened i hi
  refine ⟨front, opening, inner ++ [s], by simp, hscope, hstart, ?_, ?_⟩
  · rw [List.forall_mem_append, List.forall_mem_singleton]
    exact ⟨hinner, hs⟩
  · rw [contentOf_concat, htext]

/-- An open directive ends where nothing follows but a span that ends it. -/
theorem Reads.endInclusion (h : b.Reads spans last) {i : OpenInclusion} (hi : b.inclusion = some i)
    (hlast : ∀ s ∈ last.head?, s.EndsDirective) (stop : Position) :
    ∀ j ∈ (b.endInclusion i stop).inclusions, ∃ text, j.Written spans text := by
  intro j hj
  rcases mem_inclusions_endInclusion hj with rfl | hj
  · exact ⟨i.text, rfl, last, h.opened i hi, hlast⟩
  · exact h.ended j hj

theorem Reads.step (h : b.Reads spans (s :: last)) (hmem : ∃ seen, spans = seen ++ s :: last) :
    (b.step s).Reads spans last := by
  unfold Builder.step
  split
  · rename_i hclosed
    refine ⟨fun j hj => h.ended j (mem_inclusions_stepRegion hj), fun i hi => ?_⟩
    rcases b.inclusion_stepRegion s with hsame | ⟨hscope, hopened⟩
    · rw [hsame, hclosed] at hi
      cases hi
    · rw [hopened] at hi
      obtain rfl := Option.some.inj hi
      obtain ⟨seen, rfl⟩ := hmem
      exact ⟨seen, s, [], rfl, hscope, rfl, by simp, rfl⟩
  · rename_i i hopen
    split
    · rename_i hscope
      have hends : ∀ x ∈ (s :: last).head?, x.EndsDirective := by
        rintro x ⟨⟩
        exact .inl hscope
      refine ⟨h.endInclusion hopen hends _, fun j hj => ?_⟩
      rw [inclusion_endInclusion] at hj
      cases hj
    · rename_i hscope
      have hends : ∀ x ∈ (s :: last).head?, x.EndsDirective := by
        rintro x ⟨⟩
        exact .inr hscope
      have hreport : (b.report .inclusion i.start).Reads spans (s :: last) := ⟨h.ended, h.opened⟩
      refine ⟨fun j hj => hreport.endInclusion hopen hends _ j (mem_inclusions_stepRegion hj),
        fun j hj => ?_⟩
      rcases ((b.report .inclusion i.start).endInclusion i s.start).inclusion_stepRegion s with
        hsame | ⟨hbegins, -⟩
      · rw [hsame, inclusion_endInclusion] at hj
        cases hj
      · rw [hscope] at hbegins
        cases hbegins
    · rename_i hend hclose
      have hkept := h.keep hopen fun hends => hends.elim hend hclose
      split
      · rename_i hcontent
        rw [if_pos hcontent] at hkept
        exact ⟨h.ended, fun j hj => Option.some.inj hj ▸ hkept⟩
      · rename_i hcontent
        rw [if_neg hcontent] at hkept
        refine ⟨h.ended, fun j hj => ?_⟩
        obtain rfl := Option.some.inj (hopen.symm.trans hj)
        exact hkept

theorem Reads.foldl (h : b.Reads spans last) (hmem : ∃ seen, spans = seen ++ last) :
    (last.foldl Builder.step b).Reads spans [] := by
  induction last generalizing b with
  | nil => exact h
  | cons s last ih =>
    obtain ⟨seen, hseen⟩ := hmem
    exact ih (h.step ⟨seen, hseen⟩) ⟨seen ++ [s], by simpa using hseen⟩

theorem Reads.finish (h : b.Reads spans []) (stop : Position) :
    ∀ j ∈ (b.finish stop).inclusions, ∃ text, j.Written spans text := by
  unfold Builder.finish
  extract_lets closed
  have hclosed : ∀ j ∈ closed.inclusions, ∃ text, j.Written spans text := by
    unfold closed
    split
    · rename_i i hopen
      have hreport : (b.report .inclusion i.start).Reads spans [] := ⟨h.ended, h.opened⟩
      exact hreport.endInclusion hopen (by simp) _
    · exact h.ended
  split
  · rename_i start parts hregion
    exact fun j hj => hclosed j ((mem_inclusions_endRegion (b := closed.report _ _) hregion).mp hj)
  · rename_i start children hregion
    exact fun j hj => hclosed j ((mem_inclusions_endRegion (b := closed.report _ _) hregion).mp hj)
  · exact hclosed

end Builder

/-- **Every directive of a tree stands in the spans**, and its arguments are those of its text. -/
theorem Tree.exists_written (spans : List Span) {i : Inclusion}
    (hi : i ∈ (Tree.ofSpans spans).inclusions) : ∃ text, i.Written spans text := by
  have hstart : Builder.start.Reads spans spans :=
    ⟨by simp [Builder.inclusions, Builder.start], by simp [Builder.start]⟩
  have hread := (hstart.foldl ⟨[], rfl⟩).finish ((spans.getLast?.map Span.stop).getD .origin)
  refine hread i (List.mem_append_right _ ?_)
  simpa [Tree.inclusions, Tree.ofSpans] using hi

end Stencil.Template
