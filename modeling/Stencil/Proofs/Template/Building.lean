import Stencil.Proofs.Template.Lossless
import Stencil.Proofs.Template.Outline

/-! # Building trees

What a span becomes in a tree depends on two things: on what the spans before it have left open,
and, if it opens something itself, on the first span behind it that ends that.  A tree is listed by
its nodes, each followed by its parts; the listing of a built tree can be read off the spans one by
one, and so can the reports of what has no end.  Where positions never decrease along the spans,
neither do they along the tree.
-/
namespace Stencil.Template

/-! ## What stands open -/

/-- What the spans before a place have left open. A directive stands in a block or outside. -/
inductive Context
  | outside
  | block
  | inlineWrite
  | inclusion (inBlock : Bool)
  deriving DecidableEq, Repr

namespace Context

/-- The region that a scope opens. -/
def opens? : Context → Scope → Option RegionKind
  | outside, .blockOpen => some .block
  | outside, .inlineOpen => some .inlineWrite
  | outside, .includeBegin | block, .includeBegin => some .inclusion
  | _, _ => none

/-- What is left open behind a scope. -/
def behind : Context → Scope → Context
  | outside, .blockOpen => block
  | outside, .inlineOpen => inlineWrite
  | outside, .includeBegin => inclusion false
  | block, .includeBegin => inclusion true
  | block, .blockClose | inlineWrite, .inlineClose | inclusion _, .blockClose => outside
  | inclusion inBlock, .includeEnd => if inBlock then block else outside
  | k, _ => k

end Context

namespace RegionKind

/-- The scope of a region's own end. -/
def closer : RegionKind → Scope
  | block => .blockClose
  | inlineWrite => .inlineClose
  | inclusion => .includeEnd

/-- A region ends at its own end, and a directive also at the end of a block. -/
def endsAt (kind : RegionKind) (scope : Scope) : Bool :=
  scope = kind.closer || kind = inclusion && scope = .blockClose

/-- The first of the spans behind the beginning of a region that ends it. -/
def end? (kind : RegionKind) (behind : List Span) : Option Span :=
  behind.find? fun s => kind.endsAt s.scope

/-- Where a region ends: behind its own end, in front of what cuts it off, or with all spans. -/
def stop (kind : RegionKind) (last : Position) (behind : List Span) : Position :=
  match kind.end? behind with
  | some s => if s.scope = kind.closer then s.stop else s.start
  | none => last

/-- What is reported of a region: nothing, if it has an end of its own. -/
def lost? (kind : RegionKind) (start : Position) (behind : List Span) : Option Malformed :=
  match kind.end? behind with
  | some s => if s.scope = kind.closer then none else some ⟨kind, start⟩
  | none => some ⟨kind, start⟩

end RegionKind

/-- The text between the beginning of a directive and its end. -/
def directiveText (behind : List Span) : String :=
  .join (((behind.takeWhile fun s => !RegionKind.inclusion.endsAt s.scope).filter
    fun s => s.scope.isContent).map Span.value)

section
variable {kind : RegionKind} {last start : Position} {s : Span} {rest : List Span}

theorem RegionKind.endsAt_of_isContent (hs : s.scope.isContent = true) (kind : RegionKind) :
    kind.endsAt s.scope = false := by
  cases hscope : s.scope <;> cases kind <;> simp_all [Scope.isContent, endsAt, closer]

theorem Context.opens?_of_isContent (hs : s.scope.isContent = true) (k : Context) :
    k.opens? s.scope = none := by
  cases hscope : s.scope <;> cases k <;> simp_all [Scope.isContent, opens?]

theorem RegionKind.stop_cons :
    kind.stop last (s :: rest) = if kind.endsAt s.scope then
      (if s.scope = kind.closer then s.stop else s.start) else kind.stop last rest := by
  unfold stop end?
  rw [List.find?_cons]
  cases kind.endsAt s.scope <;> rfl

theorem RegionKind.lost?_cons : kind.lost? start (s :: rest) = if kind.endsAt s.scope then
    (if s.scope = kind.closer then none else some ⟨kind, start⟩) else kind.lost? start rest := by
  unfold lost? end?
  rw [List.find?_cons]
  cases kind.endsAt s.scope <;> rfl

/-- A report tells the kind of its region. -/
theorem RegionKind.filter_lost? (p : RegionKind → Bool) :
    (kind.lost? start rest).filter (fun m => p m.kind) =
      if p kind then kind.lost? start rest else none := by
  unfold lost?
  split
  · split
    · simp
    · rw [Option.filter_some]
  · rw [Option.filter_some]

theorem directiveText_nil : directiveText [] = "" := rfl

theorem directiveText_cons : directiveText (s :: rest) =
    if RegionKind.inclusion.endsAt s.scope then "" else
      (if s.scope.isContent then s.value else "") ++ directiveText rest := by
  unfold directiveText
  rw [List.takeWhile_cons]
  cases RegionKind.inclusion.endsAt s.scope with
  | true => rfl
  | false => cases hs : s.scope.isContent <;> simp [hs, String.join_cons]

end

/-! ## Listings -/

/-- What is listed of a tree: a node, or a part of the region listed last before it. -/
inductive Listed
  | text (location : Location) (value : String)
  | block (location : Location)
  | script (span : Span)
  | inlineWrite (location : Location)
  | expression (span : Span)
  | inclusion (inBlock : Bool) (inclusion : Inclusion)
  deriving DecidableEq, Repr

/-- The part of a block as it is listed. -/
def BlockPart.listed : BlockPart → Listed
  | .script span => .script span
  | .inclusion i => .inclusion true i

/-- A node, followed by its parts. -/
def Node.listing : Node → List Listed
  | .text l value => [.text l value]
  | .inlineWrite l children => .inlineWrite l :: children.map .expression
  | .block l parts => .block l :: parts.map BlockPart.listed
  | .inclusion i => [.inclusion false i]

/-- The nodes of a tree with their parts, from the first to the last. -/
def Tree.listing (tree : Tree) : List Listed := tree.nodes.flatMap Node.listing

/-- What is listed as a part of a region. -/
def Listed.isPart : Listed → Bool
  | .script _ | .expression _ => true
  | .inclusion inBlock _ => inBlock
  | .text _ _ | .block _ | .inlineWrite _ => false

theorem BlockPart.listed_injective : Function.Injective BlockPart.listed := by
  rintro (s | i) (t | j) h <;> cases h <;> rfl

/-- A node is listed as something that is no part, and its parts. -/
theorem Node.exists_listing (n : Node) : ∃ first parts, n.listing = first :: parts ∧
    first.isPart = false ∧ ∀ x ∈ parts, x.isPart = true := by
  cases n with
  | text l value => exact ⟨_, [], rfl, rfl, by simp⟩
  | inlineWrite l children => exact ⟨_, _, rfl, rfl, by simp [Listed.isPart]⟩
  | block l parts =>
    refine ⟨_, _, rfl, rfl, List.forall_mem_map.mpr fun p _ => ?_⟩
    cases p <;> rfl
  | inclusion i => exact ⟨_, [], rfl, rfl, by simp⟩

theorem Node.listing_injective : Function.Injective Node.listing := by
  intro n m h
  cases n <;> cases m <;>
    simp_all [Node.listing, List.map_inj_right, BlockPart.listed_injective.eq_iff]

/-- The nodes of a tree can be read off its listing. -/
theorem listing_inj {nodes others : List Node}
    (h : nodes.flatMap Node.listing = others.flatMap Node.listing) : nodes = others := by
  -- the parts of a node are all that is listed behind it up to the next node
  have hbehind (ns : List Node) : (ns.flatMap Node.listing).takeWhile Listed.isPart = [] := by
    cases ns with
    | nil => rfl
    | cons n ns =>
      obtain ⟨first, parts, hn, hfirst, -⟩ := n.exists_listing
      simp [hn, hfirst]
  induction nodes generalizing others with
  | nil =>
    cases others with
    | nil => rfl
    | cons m others =>
      obtain ⟨first, parts, hm, -⟩ := m.exists_listing
      simp [hm] at h
  | cons n nodes ih =>
    obtain ⟨first, parts, hn, -, hparts⟩ := n.exists_listing
    cases others with
    | nil => simp [hn] at h
    | cons m others =>
      obtain ⟨first', parts', hm, -, hparts'⟩ := m.exists_listing
      rw [List.flatMap_cons, List.flatMap_cons, hn, hm, List.cons_append, List.cons_append] at h
      obtain ⟨rfl, htail⟩ := List.cons.inj h
      have htaken := congrArg (List.takeWhile Listed.isPart) htail
      rw [List.takeWhile_append_of_pos hparts, List.takeWhile_append_of_pos hparts', hbehind,
        hbehind, List.append_nil, List.append_nil] at htaken
      subst htaken
      rw [Node.listing_injective (hn.trans hm.symm), ih (List.append_cancel_left htail)]

/-- A span, what stands open at it, and the spans behind it. -/
structure Visit where
  context : Context
  span : Span
  behind : List Span

/-- The visits of spans one by one. -/
def visits (k : Context) : List Span → List Visit
  | [] => []
  | s :: rest => ⟨k, s, rest⟩ :: visits (k.behind s.scope) rest

/-- What content becomes. The content of directives makes up their arguments. -/
def Context.content? : Context → Span → Option Listed
  | outside, s => some (.text ⟨s.start, s.stop⟩ s.value)
  | block, s => some (.script s)
  | inlineWrite, s => some (.expression s)
  | inclusion _, _ => none

namespace Visit

/-- What a span is listed as, if the last one ends at a position. Where nothing is opened, all but
content counts for nothing. -/
def listed? (last : Position) (v : Visit) : Option Listed :=
  match v.context.opens? v.span.scope with
  | some .block => some (.block ⟨v.span.start, RegionKind.block.stop last v.behind⟩)
  | some .inlineWrite =>
    some (.inlineWrite ⟨v.span.start, RegionKind.inlineWrite.stop last v.behind⟩)
  | some .inclusion =>
    some (.inclusion (v.context = .block) ⟨⟨v.span.start, RegionKind.inclusion.stop last v.behind⟩,
      splitArguments (directiveText v.behind)⟩)
  | none => if v.span.scope.isContent then v.context.content? v.span else none

/-- What is reported of a span that opens something. -/
def lost? (v : Visit) : Option Malformed :=
  (v.context.opens? v.span.scope).bind (·.lost? v.span.start v.behind)

end Visit

/-! ## Steps -/

namespace OpenRegion

/-- Where an open region begins. -/
def start : OpenRegion → Position
  | block start _ | inlineWrite start _ => start

/-- What stands open in a region. -/
def context : OpenRegion → Context
  | block _ _ => .block
  | inlineWrite _ _ => .inlineWrite

end OpenRegion

namespace Builder

/-- What a builder has left open. -/
def context (b : Builder) : Context :=
  match b.inclusion, b.region with
  | some _, region => .inclusion region.isSome
  | none, some region => region.context
  | none, none => .outside

/-- All that a builder can do with a span. -/
inductive Step (s : Span) : Builder → Builder → Prop
  | text {nodes malformed} (hs : s.scope.isContent = true) :
    Step s ⟨nodes, malformed, none, none⟩
      ⟨.text ⟨s.start, s.stop⟩ s.value :: nodes, malformed, none, none⟩
  | openBlock {nodes malformed} (hs : s.scope = .blockOpen) :
    Step s ⟨nodes, malformed, none, none⟩ ⟨nodes, malformed, some (.block s.start []), none⟩
  | script {nodes malformed start parts} (hs : s.scope.isContent = true) :
    Step s ⟨nodes, malformed, some (.block start parts), none⟩
      ⟨nodes, malformed, some (.block start (.script s :: parts)), none⟩
  | closeBlock {nodes malformed start parts} (hs : s.scope = .blockClose) :
    Step s ⟨nodes, malformed, some (.block start parts), none⟩
      ⟨.block ⟨start, s.stop⟩ parts.reverse :: nodes, malformed, none, none⟩
  | openInline {nodes malformed} (hs : s.scope = .inlineOpen) :
    Step s ⟨nodes, malformed, none, none⟩ ⟨nodes, malformed, some (.inlineWrite s.start []), none⟩
  | expression {nodes malformed start children} (hs : s.scope.isContent = true) :
    Step s ⟨nodes, malformed, some (.inlineWrite start children), none⟩
      ⟨nodes, malformed, some (.inlineWrite start (s :: children)), none⟩
  | closeInline {nodes malformed start children} (hs : s.scope = .inlineClose) :
    Step s ⟨nodes, malformed, some (.inlineWrite start children), none⟩
      ⟨.inlineWrite ⟨start, s.stop⟩ children.reverse :: nodes, malformed, none, none⟩
  | openInclusion {nodes malformed} (hs : s.scope = .includeBegin) :
    Step s ⟨nodes, malformed, none, none⟩ ⟨nodes, malformed, none, some ⟨s.start, ""⟩⟩
  | openInner {nodes malformed start parts} (hs : s.scope = .includeBegin) :
    Step s ⟨nodes, malformed, some (.block start parts), none⟩
      ⟨nodes, malformed, some (.block start parts), some ⟨s.start, ""⟩⟩
  | argument {nodes malformed region i} (hs : s.scope.isContent = true) :
    Step s ⟨nodes, malformed, region, some i⟩
      ⟨nodes, malformed, region, some ⟨i.start, i.text ++ s.value⟩⟩
  | endInclusion {nodes malformed i} (hs : s.scope = .includeEnd) :
    Step s ⟨nodes, malformed, none, some i⟩
      ⟨.inclusion ⟨⟨i.start, s.stop⟩, splitArguments i.text⟩ :: nodes, malformed, none, none⟩
  | endInner {nodes malformed start parts i} (hs : s.scope = .includeEnd) :
    Step s ⟨nodes, malformed, some (.block start parts), some i⟩
      ⟨nodes, malformed, some (.block start
        (.inclusion ⟨⟨i.start, s.stop⟩, splitArguments i.text⟩ :: parts)), none⟩
  | cutOff {nodes malformed i} (hs : s.scope = .blockClose) :
    Step s ⟨nodes, malformed, none, some i⟩
      ⟨.inclusion ⟨⟨i.start, s.start⟩, splitArguments i.text⟩ :: nodes,
        ⟨.inclusion, i.start⟩ :: malformed, none, none⟩
  | cutOffInner {nodes malformed start parts i} (hs : s.scope = .blockClose) :
    Step s ⟨nodes, malformed, some (.block start parts), some i⟩
      ⟨.block ⟨start, s.stop⟩
        (.inclusion ⟨⟨i.start, s.start⟩, splitArguments i.text⟩ :: parts).reverse :: nodes,
        ⟨.inclusion, i.start⟩ :: malformed, none, none⟩
  | skip {b} (hs : s.scope.isContent = false) (hopens : b.context.opens? s.scope = none)
    (hcontext : b.context.behind s.scope = b.context)
    (hregion : ∀ r, b.region = some r → r.kind.endsAt s.scope = false)
    (hinclusion : b.inclusion ≠ none → RegionKind.inclusion.endsAt s.scope = false) : Step s b b

variable {b b' : Builder} {s : Span}

theorem step_outside {nodes malformed} :
    Step s ⟨nodes, malformed, none, none⟩ (stepOutside ⟨nodes, malformed, none, none⟩ s) := by
  unfold stepOutside
  split
  · exact .openBlock ‹_›
  · exact .openInline ‹_›
  · exact .openInclusion ‹_›
  · split
    · exact .text ‹_›
    · refine .skip (Bool.eq_false_of_not_eq_true ‹_›) ?_ ?_ (by simp) (absurd rfl) <;>
        cases hscope : s.scope <;> simp_all [context, Context.opens?, Context.behind]

theorem step_block {nodes malformed start parts} :
    Step s ⟨nodes, malformed, some (.block start parts), none⟩
      (stepBlock ⟨nodes, malformed, some (.block start parts), none⟩ start parts s) := by
  unfold stepBlock
  split
  · exact .closeBlock ‹_›
  · exact .openInner ‹_›
  · split
    · exact .script ‹_›
    · refine .skip (Bool.eq_false_of_not_eq_true ‹_›) ?_ ?_ ?_ (absurd rfl) <;>
        cases hscope : s.scope <;> simp_all [context, OpenRegion.context, OpenRegion.kind,
          Context.opens?, Context.behind, RegionKind.endsAt, RegionKind.closer]

theorem step_inline {nodes malformed start children} :
    Step s ⟨nodes, malformed, some (.inlineWrite start children), none⟩
      (stepInline ⟨nodes, malformed, some (.inlineWrite start children), none⟩ start children
        s) := by
  unfold stepInline
  split
  · exact .closeInline ‹_›
  · split
    · exact .expression ‹_›
    · refine .skip (Bool.eq_false_of_not_eq_true ‹_›) ?_ ?_ ?_ (absurd rfl) <;>
        cases hscope : s.scope <;> simp_all [context, OpenRegion.context, OpenRegion.kind,
          Context.opens?, Context.behind, RegionKind.endsAt, RegionKind.closer]

theorem step_inclusion {nodes malformed i} :
    Step s ⟨nodes, malformed, none, some i⟩ (step ⟨nodes, malformed, none, some i⟩ s) := by
  cases hs : s.scope with
  | includeEnd => simpa [step, hs, Builder.endInclusion, addNode] using Step.endInclusion hs
  | blockClose =>
    simpa [step, hs, report, Builder.endInclusion, addNode, stepRegion, stepOutside,
      Scope.isContent] using Step.cutOff hs
  | text | block | inlineWrite =>
    have hcontent : s.scope.isContent = true := by rw [hs]; rfl
    simpa [step, hs, Scope.isContent] using Step.argument hcontent
  | _ =>
    rw [show step ⟨nodes, malformed, none, some i⟩ s = ⟨nodes, malformed, none, some i⟩ by
      simp [step, hs, Scope.isContent]]
    refine .skip ?_ ?_ ?_ (by simp) ?_ <;>
      simp [hs, Scope.isContent, context, Context.opens?, Context.behind, RegionKind.endsAt,
        RegionKind.closer]

theorem step_innerInclusion {nodes malformed start parts i} :
    Step s ⟨nodes, malformed, some (.block start parts), some i⟩
      (step ⟨nodes, malformed, some (.block start parts), some i⟩ s) := by
  cases hs : s.scope with
  | includeEnd => simpa [step, hs, Builder.endInclusion, addNode] using Step.endInner hs
  | blockClose =>
    simpa [step, hs, report, Builder.endInclusion, addNode, stepRegion, stepBlock, endRegion,
      Scope.isContent] using Step.cutOffInner hs
  | text | block | inlineWrite =>
    have hcontent : s.scope.isContent = true := by rw [hs]; rfl
    simpa [step, hs, Scope.isContent] using Step.argument hcontent
  | _ =>
    rw [show step ⟨nodes, malformed, some (.block start parts), some i⟩ s =
        ⟨nodes, malformed, some (.block start parts), some i⟩ by simp [step, hs, Scope.isContent]]
    refine .skip ?_ ?_ ?_ ?_ ?_ <;>
      simp [hs, Scope.isContent, context, Context.opens?, Context.behind, RegionKind.endsAt,
        OpenRegion.kind, RegionKind.closer]

/-- **What a builder does with a span.** -/
theorem Regular.step_cases (hb : b.Regular) : Step s b (b.step s) := by
  obtain ⟨nodes, malformed, region, inclusion⟩ := b
  match region, inclusion, hb with
  | none, none, _ => exact step_outside
  | some (.block _ _), none, _ => exact step_block
  | some (.inlineWrite _ _), none, _ => exact step_inline
  | none, some _, _ => exact step_inclusion
  | some (.block _ _), some _, _ => exact step_innerInclusion
  | some (.inlineWrite _ _), some _, hb => exact absurd rfl (hb (Option.some_ne_none _))

/-- What stands open behind a span. -/
theorem Step.context (h : Step s b b') : b'.context = b.context.behind s.scope := by
  cases h with
  | skip hs hopens hcontext => exact hcontext.symm
  | text hs | script hs | expression hs | argument hs =>
    cases hscope : s.scope <;>
      simp_all [Builder.context, OpenRegion.context, Context.behind, Scope.isContent]
  | _ hs => simp [Builder.context, OpenRegion.context, Context.behind, hs]

/-! ## Runs -/

/-- What adds up span by span adds up along all of them. -/
theorem Regular.foldl_visits (hb : b.Regular) {α : Type} (total : Builder → List Span → List α)
    (gain : Visit → Option α)
    (hstep : ∀ {b b' s rest}, Step s b b' →
      total b (s :: rest) ++ (gain ⟨b.context, s, rest⟩).toList = total b' rest)
    (spans : List Span) :
    total b spans ++ (visits b.context spans).filterMap gain =
      total (spans.foldl Builder.step b) [] := by
  induction spans generalizing b with
  | nil => exact List.append_nil _
  | cons s rest ih =>
    have hcase : Step s b (b.step s) := hb.step_cases
    have hhead : (visits b.context (s :: rest)).filterMap gain =
        (gain ⟨b.context, s, rest⟩).toList ++ (visits (b.step s).context rest).filterMap gain := by
      rw [visits, List.filterMap_cons, hcase.context]
      cases gain ⟨b.context, s, rest⟩ <;> rfl
    rw [hhead, ← List.append_assoc, hstep hcase, ih hb.step, List.foldl_cons]

end Builder

/-! ## Listings of builders -/

/-- The listing of an open region that these spans follow. -/
def OpenRegion.listing (last : Position) (behind : List Span) : OpenRegion → List Listed
  | .block start parts =>
    .block ⟨start, RegionKind.block.stop last behind⟩ :: parts.reverse.map BlockPart.listed
  | .inlineWrite start children =>
    .inlineWrite ⟨start, RegionKind.inlineWrite.stop last behind⟩ ::
      children.reverse.map .expression

/-- What becomes of an open directive that these spans follow. -/
def OpenInclusion.closed (last : Position) (behind : List Span) (i : OpenInclusion) : Inclusion :=
  ⟨⟨i.start, RegionKind.inclusion.stop last behind⟩,
    splitArguments (i.text ++ directiveText behind)⟩

namespace Builder

/-- The listing of what a builder holds, if these spans follow. -/
def listing (last : Position) (b : Builder) (behind : List Span) : List Listed :=
  b.nodes.reverse.flatMap Node.listing ++ (b.region.map (·.listing last behind)).getD [] ++
    (b.inclusion.map (·.closed last behind)).toList.map (.inclusion b.region.isSome)

variable {b b' : Builder} {s : Span} {rest : List Span} {last : Position}

/-- A region goes on behind a span that does not end it. -/
theorem listing_cons_of_not_endsAt {r : OpenRegion} (h : r.kind.endsAt s.scope = false) :
    r.listing last (s :: rest) = r.listing last rest := by
  cases r <;> simp_all [OpenRegion.listing, OpenRegion.kind, RegionKind.stop_cons]

/-- Each span adds what it is listed as. -/
theorem Step.listing (h : Step s b b') : b.listing last (s :: rest) ++
    (Visit.listed? last ⟨b.context, s, rest⟩).toList = b'.listing last rest := by
  cases h with
  | skip hs hopens hcontext hregion hinclusion =>
    have hlisted : Visit.listed? last ⟨b.context, s, rest⟩ = none := by
      simp [Visit.listed?, hopens, hs]
    have hnodes : b.region.map (OpenRegion.listing last (s :: rest)) =
        b.region.map (OpenRegion.listing last rest) :=
      Option.map_congr fun r hr => listing_cons_of_not_endsAt (hregion r hr)
    have hopen : b.inclusion.map (OpenInclusion.closed last (s :: rest)) =
        b.inclusion.map (OpenInclusion.closed last rest) := by
      refine Option.map_congr fun i hi => ?_
      have hends := hinclusion (by simp [Option.mem_def.mp hi])
      simp [OpenInclusion.closed, RegionKind.stop_cons, directiveText_cons, hends, hs]
    simp [Builder.listing, hlisted, hnodes, hopen]
  | text hs | script hs | expression hs | argument hs =>
    have hends := RegionKind.endsAt_of_isContent hs
    simp [Builder.listing, Visit.listed?, Context.content?, Context.opens?_of_isContent hs, hs,
      Builder.context, OpenRegion.context, OpenRegion.listing, OpenInclusion.closed, hends,
      RegionKind.stop_cons, Node.listing, BlockPart.listed, directiveText_cons, String.append_assoc]
  | openBlock hs | openInline hs | openInclusion hs | openInner hs =>
    simp [Builder.listing, Visit.listed?, Builder.context, OpenRegion.context, Context.opens?, hs,
      OpenRegion.listing, OpenInclusion.closed, RegionKind.stop_cons, RegionKind.endsAt,
      RegionKind.closer]
  | closeBlock hs | closeInline hs | endInclusion hs | endInner hs | cutOff hs | cutOffInner hs =>
    simp [Builder.listing, Visit.listed?, Builder.context, OpenRegion.context, Context.opens?, hs,
      OpenRegion.listing, OpenInclusion.closed, RegionKind.stop_cons, RegionKind.endsAt,
      RegionKind.closer, Scope.isContent, Node.listing, BlockPart.listed, directiveText_cons]

/-! ## Reports of builders -/

/-- The reports of a builder, if these spans follow, but for that of an open region. -/
def reported (b : Builder) (behind : List Span) : List Malformed :=
  b.malformed.reverse ++
    (b.inclusion.bind fun i => RegionKind.inclusion.lost? i.start behind).toList

/-- The report of the open region of a builder, if these spans follow. -/
def unended (b : Builder) (behind : List Span) : List Malformed :=
  (b.region.bind fun r => r.kind.lost? r.start behind).toList

/-- Each directive without an end of its own is reported. -/
theorem Step.reported (h : Step s b b') : b.reported (s :: rest) ++
    ((Visit.lost? ⟨b.context, s, rest⟩).filter (·.kind = .inclusion)).toList =
      b'.reported rest := by
  cases h with
  | skip hs hopens hcontext hregion hinclusion =>
    have hopen : (b.inclusion.bind fun i => RegionKind.inclusion.lost? i.start (s :: rest)) =
        b.inclusion.bind fun i => RegionKind.inclusion.lost? i.start rest := by
      refine Option.bind_congr fun i hi => ?_
      rw [RegionKind.lost?_cons, hinclusion (by simp [hi]), if_neg Bool.false_ne_true]
    simp [Builder.reported, Visit.lost?, hopens, hopen]
  | text hs | script hs | expression hs | argument hs =>
    simp [Builder.reported, Visit.lost?, Context.opens?_of_isContent hs, RegionKind.lost?_cons,
      RegionKind.endsAt_of_isContent hs]
  | openBlock hs | openInline hs | openInclusion hs | openInner hs =>
    simp [Builder.reported, Visit.lost?, Builder.context, OpenRegion.context, Context.opens?, hs,
      RegionKind.filter_lost? (decide <| · = .inclusion)]
  | closeBlock hs | closeInline hs | endInclusion hs | endInner hs | cutOff hs | cutOffInner hs =>
    simp [Builder.reported, Visit.lost?, Builder.context, OpenRegion.context, Context.opens?, hs,
      RegionKind.lost?_cons, RegionKind.endsAt, RegionKind.closer]

/-- Each other region without an end is reported. -/
theorem Step.unended (h : Step s b b') : b.unended (s :: rest) ++
    ((Visit.lost? ⟨b.context, s, rest⟩).filter (·.kind ≠ .inclusion)).toList = b'.unended rest := by
  cases h with
  | skip hs hopens hcontext hregion hinclusion =>
    have hopen : (b.region.bind fun r => r.kind.lost? r.start (s :: rest)) =
        b.region.bind fun r => r.kind.lost? r.start rest := by
      refine Option.bind_congr fun r hr => ?_
      rw [RegionKind.lost?_cons, hregion r hr, if_neg Bool.false_ne_true]
    simp [Builder.unended, Visit.lost?, hopens, hopen]
  | text hs | script hs | expression hs | argument hs =>
    simp [Builder.unended, Visit.lost?, Context.opens?_of_isContent hs, RegionKind.lost?_cons,
      RegionKind.endsAt_of_isContent hs, OpenRegion.start, OpenRegion.kind]
  | openBlock hs | openInline hs | openInclusion hs | openInner hs =>
    simp [Builder.unended, Visit.lost?, Builder.context, OpenRegion.context, Context.opens?, hs,
      RegionKind.lost?_cons, RegionKind.endsAt, RegionKind.closer, OpenRegion.start,
      OpenRegion.kind, RegionKind.filter_lost? fun kind => !decide (kind = .inclusion)]
  | closeBlock hs | closeInline hs | endInclusion hs | endInner hs | cutOff hs | cutOffInner hs =>
    simp [Builder.unended, Visit.lost?, Builder.context, OpenRegion.context, Context.opens?, hs,
      RegionKind.lost?_cons, RegionKind.endsAt, RegionKind.closer, OpenRegion.start,
      OpenRegion.kind]

/-! ## Ends -/

/-- What is still open is listed as it ends. -/
theorem Regular.listing_finish (hb : b.Regular) (last : Position) :
    (b.finish last).nodes.reverse.flatMap Node.listing = b.listing last [] := by
  obtain ⟨nodes, malformed, region, inclusion⟩ := b
  match region, inclusion, hb with
  | none, none, _ => simp [finish, listing]
  | some (.block _ _), none, _ | some (.inlineWrite _ _), none, _ =>
    simp [finish, listing, report, endRegion, addNode, OpenRegion.listing, RegionKind.stop,
      RegionKind.end?, Node.listing]
  | none, some _, _ =>
    simp [finish, listing, report, endInclusion, addNode, OpenInclusion.closed, RegionKind.stop,
      RegionKind.end?, Node.listing, directiveText_nil]
  | some (.block _ _), some _, _ =>
    simp [finish, listing, report, endInclusion, endRegion, addNode, OpenInclusion.closed,
      OpenRegion.listing, RegionKind.stop, RegionKind.end?, Node.listing, directiveText_nil,
      BlockPart.listed]
  | some (.inlineWrite _ _), some _, hb => exact absurd rfl (hb (Option.some_ne_none _))

/-- What is still open is reported: first a directive, then a region. -/
theorem Regular.malformed_finish (hb : b.Regular) (last : Position) :
    (b.finish last).malformed.reverse = b.reported [] ++ b.unended [] := by
  obtain ⟨nodes, malformed, region, inclusion⟩ := b
  match region, inclusion, hb with
  | none, none, _ => simp [finish, reported, unended]
  | some (.block _ _), none, _ | some (.inlineWrite _ _), none, _ =>
    simp [finish, reported, unended, report, endRegion, addNode, RegionKind.lost?, RegionKind.end?,
      OpenRegion.kind, OpenRegion.start]
  | none, some _, _ =>
    simp [finish, reported, unended, report, endInclusion, addNode, RegionKind.lost?,
      RegionKind.end?]
  | some (.block _ _), some _, _ =>
    simp [finish, reported, unended, report, endInclusion, endRegion, addNode, RegionKind.lost?,
      RegionKind.end?, OpenRegion.kind, OpenRegion.start]
  | some (.inlineWrite _ _), some _, hb => exact absurd rfl (hb (Option.some_ne_none _))

end Builder

end Stencil.Template
