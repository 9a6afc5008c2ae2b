import Stencil.Proofs.Text.Offset
import Stencil.Template.Scan
import Stencil.Template.Tree

/-! # Copied spans

The spans that a tree copies into its code stand in the text of the template: each of them is the
text behind its own start.  The scanner keeps this whatever ranges a classifier reports, because it
cuts spans out of the text and lets a span grow only by the text right behind it; the tree builder
keeps it because it makes no spans of its own.
-/
namespace Stencil.Template

/-- A span that is the part of a text behind its start. -/
def Span.StandsIn (text : List Char) (s : Span) : Prop :=
  ∃ pre post, text = pre ++ s.value.toList ++ post ∧ s.start = Position.origin.after pre

/-! ## Scanning -/

namespace Scanner

/-- A scanner whose content stands in the text, and whose last span ends where it may still grow. -/
structure Faithful (text : List Char) (s : Scanner) : Prop where
  content : ∀ x ∈ s.spans, x.scope.isContent → x.StandsIn text
  grows : ∀ stop, s.openEnd = some stop → ∃ last rest, s.spans = last :: rest ∧
    ∃ pre post, text = pre ++ last.value.toList ++ post ∧
      last.start = Position.origin.after pre ∧ utf8Length (pre ++ last.value.toList) = stop

variable {text : List Char} {s : Scanner}

theorem faithful_start : Faithful text .start :=
  ⟨fun x hx => absurd hx (by simp [start]), fun stop h => by cases h⟩

/-- Two prefixes of a text with the same length in bytes are the same. -/
theorem prefix_eq_of_utf8Length {xs ys as bs : List Char} (h : xs ++ as = ys ++ bs)
    (hlen : utf8Length xs = utf8Length ys) : xs = ys := by
  induction xs generalizing ys with
  | nil =>
    cases ys with
    | nil => rfl
    | cons y ys =>
      have := Char.utf8Size_pos y
      simp only [utf8Length_nil, utf8Length_cons] at hlen
      omega
  | cons x xs ih =>
    cases ys with
    | nil =>
      have := Char.utf8Size_pos x
      simp only [utf8Length_nil, utf8Length_cons] at hlen
      omega
    | cons y ys =>
      obtain ⟨rfl, htail⟩ := List.cons.inj h
      rw [utf8Length_cons, utf8Length_cons] at hlen
      rw [ih htail (by omega)]

theorem position_of_append (pre post : List Char) {text : List Char} (h : text = pre ++ post) :
    (LineIndex.ofString (String.ofList text)).position (utf8Length pre) =
      Position.origin.after pre := by
  rw [h, LineIndex.position_utf8Length]

theorem Faithful.addContent (hs : Faithful text s) (scope : Scope) (start stop : Nat) :
    Faithful text (s.addContent text (.ofString (.ofList text)) scope start stop) := by
  unfold Scanner.addContent
  split
  · exact hs
  · rename_i cs hslice
    -- offsets that do not cut the text at characters give no slice, so that both name prefixes
    obtain ⟨pre, post, htext, rfl, rfl⟩ := eq_append_of_slice? hslice
    have hpos : (LineIndex.ofString (String.ofList text)).position (utf8Length pre) =
        Position.origin.after pre :=
      position_of_append pre (cs ++ post) (by rw [htext, List.append_assoc])
    -- a span of its own
    have hnew : Faithful text { s with
        spans := spanOf (.ofString (.ofList text)) (String.ofList cs) scope (utf8Length pre)
          (utf8Length (pre ++ cs)) :: s.spans
        openEnd := some (utf8Length (pre ++ cs)) } := by
      refine ⟨fun x hx hc => ?_, fun stop h => ⟨_, _, rfl, pre, post, ?_, ?_, ?_⟩⟩
      · rcases List.mem_cons.mp hx with rfl | hx
        · exact ⟨pre, post, by simpa [spanOf] using htext, by simpa [spanOf] using hpos⟩
        · exact hs.content x hx hc
      · simpa [spanOf] using htext
      · simpa [spanOf] using hpos
      · simpa [spanOf] using h
    split
    · rename_i last rest hspans
      split
      · -- the last span takes the slice in
        rename_i hgrow
        obtain ⟨hopen, -⟩ : s.openEnd = some (utf8Length pre) ∧ last.scope = scope := by
          simpa using hgrow
        obtain ⟨last', rest', hspans', before, after, hold, hstart, hlen⟩ := hs.grows _ hopen
        obtain ⟨rfl, rfl⟩ := List.cons.inj (hspans ▸ hspans')
        have hsplit : before ++ last.value.toList ++ after = pre ++ (cs ++ post) := by
          rw [← hold, htext, List.append_assoc]
        have hpre : before ++ last.value.toList = pre := prefix_eq_of_utf8Length hsplit hlen
        have hvalue : (last.value ++ String.ofList cs).toList = last.value.toList ++ cs := by simp
        have hwhole : text = before ++ (last.value ++ String.ofList cs).toList ++ post := by
          rw [hvalue, ← List.append_assoc, hpre, htext]
        refine ⟨fun x hx hc => ?_, fun stop h => ⟨_, _, rfl, before, post, hwhole, hstart, ?_⟩⟩
        · rcases List.mem_cons.mp hx with rfl | hx
          · exact ⟨before, post, hwhole, hstart⟩
          · exact hs.content x (hspans ▸ List.mem_cons_of_mem _ hx) hc
        · obtain rfl := Option.some.inj h
          rw [hvalue, ← List.append_assoc, hpre]
      · exact hnew
    · rename_i hspans
      rw [hspans] at hnew
      exact hnew

/-- Closing the last span keeps a scanner faithful. -/
theorem Faithful.close (hs : Faithful text s) : Faithful text { s with openEnd := none } :=
  ⟨hs.content, fun stop h => by cases h⟩

/-- The place up to which a scanner has come does not matter. -/
theorem Faithful.moveTo (hs : Faithful text s) (place : Nat) :
    Faithful text { s with cursor := place } := ⟨hs.content, hs.grows⟩

theorem Faithful.addRange (hs : Faithful text s) (scope : Scope) (start stop : Nat) :
    Faithful text (s.addRange text (.ofString (.ofList text)) scope start stop) := by
  unfold Scanner.addRange
  -- only content can be copied; of the spans of other scopes nothing is asked
  split
  · exact hs.close
  · split
    · split
      · exact hs.addContent scope start stop
      · exact hs
    · rename_i hcontent
      refine ⟨fun x hx hc => ?_, fun stop h => by cases h⟩
      rcases List.mem_cons.mp hx with rfl | hx
      · exact absurd hc hcontent
      · exact hs.content x hx hc

theorem Faithful.step (hs : Faithful text s) (c : Classified) :
    Faithful text (s.step text (.ofString (.ofList text)) c) := by
  unfold Scanner.step
  simp only
  split
  · exact hs
  · refine Faithful.moveTo (Faithful.addRange ?_ _ _ _) _
    split
    · exact hs.addContent _ _ _
    · exact hs

theorem Faithful.finish (hs : Faithful text s) :
    ∀ x ∈ s.finish text (.ofString (.ofList text)), x.scope.isContent → x.StandsIn text := by
  intro x hx hc
  unfold Scanner.finish at hx
  simp only [List.mem_reverse] at hx
  split at hx
  · exact (hs.addContent .text s.cursor _).content x hx hc
  · exact hs.content x hx hc

theorem Faithful.foldl (hs : Faithful text s) (ranges : List Classified) :
    Faithful text (ranges.foldl (Scanner.step text (.ofString (.ofList text))) s) := by
  induction ranges generalizing s with
  | nil => exact hs
  | cons c ranges ih => exact ih (hs.step c)

end Scanner

/-- **Scanned content stands in the text**, whatever the classifier reports. -/
theorem standsIn_of_mem_scan (classifier : Classifier) (text : String) :
    ∀ s ∈ scan classifier text, s.scope.isContent → s.StandsIn text.toList :=
  (Scanner.faithful_start.foldl _).finish

/-! ## Building trees -/

/-- The span that a part of a block copies. -/
def BlockPart.span? : BlockPart → Option Span
  | .script span => some span
  | .inclusion _ => none

/-- The spans that a node copies. -/
def Node.spans : Node → List Span
  | .inlineWrite _ children => children
  | .block _ parts => parts.filterMap BlockPart.span?
  | .text _ _ | .inclusion _ => []

/-- The spans that an open region has taken in so far. -/
def OpenRegion.spans : OpenRegion → List Span
  | .block _ parts => parts.filterMap BlockPart.span?
  | .inlineWrite _ children => children

namespace Builder

/-- All spans in a builder come from a list of content spans. -/
structure Uses (good : Span → Prop) (b : Builder) : Prop where
  nodes : ∀ n ∈ b.nodes, ∀ s ∈ n.spans, good s
  region : ∀ r, b.region = some r → ∀ s ∈ r.spans, good s

variable {good : Span → Prop} {b : Builder}

theorem Uses.report (hb : Uses good b) (kind : RegionKind) (start : Position) :
    Uses good (b.report kind start) := ⟨hb.nodes, hb.region⟩

theorem Uses.addNode (hb : Uses good b) {node : Node} (hn : ∀ s ∈ node.spans, good s) :
    Uses good (b.addNode node) := by
  refine ⟨fun n h => ?_, hb.region⟩
  rcases List.mem_cons.mp h with rfl | h
  · exact hn
  · exact hb.nodes n h

theorem Uses.endInclusion (hb : Uses good b) (i : OpenInclusion) (stop : Position) :
    Uses good (b.endInclusion i stop) := by
  unfold Builder.endInclusion
  simp only
  split
  · rename_i start parts hregion
    refine ⟨hb.nodes, fun r hr s hs => ?_⟩
    obtain rfl := Option.some.inj hr
    exact hb.region _ hregion s hs
  · have hdone : Uses good { b with inclusion := none } := ⟨hb.nodes, hb.region⟩
    exact hdone.addNode fun s hs => by cases hs

theorem Uses.endRegion (hb : Uses good b) {region : OpenRegion}
    (hr : ∀ s ∈ region.spans, good s) (stop : Position) : Uses good (b.endRegion region stop) := by
  unfold Builder.endRegion
  have hclosed : Uses good { b with region := none } := ⟨hb.nodes, fun r h => by cases h⟩
  cases region with
  | block start parts =>
    refine hclosed.addNode fun s hs => hr s ?_
    simpa [OpenRegion.spans, Node.spans] using hs
  | inlineWrite start children =>
    refine hclosed.addNode fun s hs => hr s ?_
    simpa [OpenRegion.spans, Node.spans] using hs

theorem Uses.stepRegion (hb : Uses good b) {s : Span} (hs : s.scope.isContent → good s) :
    Uses good (b.stepRegion s) := by
  unfold Builder.stepRegion
  -- a span is copied only into an open region, and only if it is content
  split
  · unfold Builder.stepOutside
    split
    · exact ⟨hb.nodes, fun r hr x hx => by cases hr; cases hx⟩
    · exact ⟨hb.nodes, fun r hr x hx => by cases hr; cases hx⟩
    · exact ⟨hb.nodes, hb.region⟩
    · split
      · exact hb.addNode fun x hx => by cases hx
      · exact hb
  · rename_i start parts hregion
    have hparts := hb.region _ hregion
    unfold Builder.stepBlock
    split
    · exact hb.endRegion hparts _
    · exact ⟨hb.nodes, hb.region⟩
    · split
      · rename_i hcontent
        refine ⟨hb.nodes, fun r hr x hx => ?_⟩
        obtain rfl := Option.some.inj hr
        rcases List.mem_cons.mp hx with rfl | hx
        · exact hs hcontent
        · exact hparts x hx
      · exact hb
  · rename_i start children hregion
    have hchildren := hb.region _ hregion
    unfold Builder.stepInline
    split
    · exact hb.endRegion hchildren _
    · split
      · rename_i hcontent
        refine ⟨hb.nodes, fun r hr x hx => ?_⟩
        obtain rfl := Option.some.inj hr
        rcases List.mem_cons.mp hx with rfl | hx
        · exact hs hcontent
        · exact hchildren x hx
      · exact hb

theorem Uses.step (hb : Uses good b) {s : Span} (hs : s.scope.isContent → good s) :
    Uses good (b.step s) := by
  unfold Builder.step
  split
  · exact hb.stepRegion hs
  · split
    · exact hb.endInclusion _ _
    · exact ((hb.report _ _).endInclusion _ _).stepRegion hs
    · split
      · exact ⟨hb.nodes, hb.region⟩
      · exact hb

theorem Uses.finish (hb : Uses good b) (stop : Position) : Uses good (b.finish stop) := by
  unfold Builder.finish
  -- at the end of the spans an open directive is closed first, then an open region
  extract_lets closed
  have hclosed : Uses good closed := by
    unfold closed
    split
    · exact (hb.report _ _).endInclusion _ _
    · exact hb
  split
  · rename_i hregion
    exact (hclosed.report _ _).endRegion (hclosed.region _ hregion) _
  · rename_i hregion
    exact (hclosed.report _ _).endRegion (hclosed.region _ hregion) _
  · exact hclosed

theorem Uses.foldl (hb : Uses good b) {spans : List Span}
    (hs : ∀ s ∈ spans, s.scope.isContent → good s) : Uses good (spans.foldl Builder.step b) := by
  induction spans generalizing b with
  | nil => exact hb
  | cons s spans ih =>
    exact ih (hb.step (hs s List.mem_cons_self)) fun x hx => hs x (List.mem_cons_of_mem _ hx)

end Builder

/-- **A tree copies only content spans that it was built from.** -/
theorem Tree.forall_spans_ofSpans {good : Span → Prop} {spans : List Span}
    (h : ∀ s ∈ spans, s.scope.isContent → good s) :
    ∀ n ∈ (Tree.ofSpans spans).nodes, ∀ s ∈ n.spans, good s := by
  have hstart : Builder.Uses good .start := ⟨by simp [Builder.start], fun r h => by cases h⟩
  intro n hn
  exact ((hstart.foldl h).finish _).nodes n (by simpa [Tree.ofSpans] using hn)

end Stencil.Template
