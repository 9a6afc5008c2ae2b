import Stencil.Proofs.Compile.Found
import Stencil.Proofs.Program.Numbers

/-! # A file that appears

A directive fails since its file is missing, and then the file appears.  None of the documents that
lead down to the directive can have been kept: whether a document has a gap depends on its path
only, as long as the files stay what they are, and what has a gap is not stored.  So the next
compilation makes these documents anew, from the same texts, and the same directives lead down to
the one that finds its file now.
-/
namespace Stencil
open Template (originAt)

/-! ## Documents in a document -/

/-- Some directives, each in the document that the one before it inserts, lead to a document. -/
inductive Document.Reaches : (root : Document) → List Origin → Document → Prop
  | here {x : Document} : Reaches x [] x
  | inside {x y : Document} {s : Site} {os : List Origin} (hs : s ∈ x.sites)
    (h : Reaches s.document os y) : Reaches x (s.directive :: os) y

mutual

theorem Chunk.exists_reaches {y : Document} : ∀ c : Chunk, y ∈ c.documents →
    ∃ s ∈ c.sites, ∃ os, s.document.Reaches os y
  | .code _, h | .verbatim _, h | .gap _, h => by cases h
  | .fragment _ chunks, h => exists_reaches_chunks chunks h
  | .inclusion directive document, h =>
    ⟨⟨directive, document⟩, List.mem_cons_self, Document.exists_reaches document h⟩

theorem exists_reaches_chunks {y : Document} : ∀ cs : List Chunk, y ∈ documentsOfChunks cs →
    ∃ s ∈ sitesOfChunks cs, ∃ os, s.document.Reaches os y
  | [], h => by cases h
  | c :: cs, h => by
    rcases List.mem_append.mp h with h | h
    · obtain ⟨s, hs, hreach⟩ := Chunk.exists_reaches c h
      exact ⟨s, List.mem_append_left _ hs, hreach⟩
    · obtain ⟨s, hs, hreach⟩ := exists_reaches_chunks cs h
      exact ⟨s, List.mem_append_right _ hs, hreach⟩

/-- Directives lead to every document in a document. -/
theorem Document.exists_reaches {y : Document} : ∀ x : Document, y ∈ x.withIncluded →
    ∃ os, x.Reaches os y
  | .mk stamp chunks, h => by
    rcases List.mem_cons.mp h with rfl | h
    · exact ⟨[], .here⟩
    · obtain ⟨s, hs, os, hreach⟩ := exists_reaches_chunks chunks h
      exact ⟨s.directive :: os, .inside hs hreach⟩

end

theorem Document.Reaches.mem {x y : Document} {os : List Origin} (h : x.Reaches os y) :
    y ∈ x.withIncluded := by
  induction h with
  | here => exact Document.mem_withIncluded_iff.mpr (.inl rfl)
  | inside hs _ ih => exact Document.mem_withIncluded_iff.mpr (.inr ⟨_, hs, ih⟩)

/-- Where a directive fails, the whole document has a gap. -/
theorem Document.Reaches.hasGaps {x y : Document} {os : List Origin} (h : x.Reaches os y)
    {f : Failure} (hf : f ∈ y.failures) : x.hasGaps = true := by
  by_contra hwhole
  rw [Document.failures_eq_nil (by simpa using hwhole) h.mem] at hf
  cases hf

/-- A directive without a request fails for its arguments, and no file is missing. -/
theorem Dialect.ne_notFound_of_target {d : Dialect} {arguments : List String} {path p : String}
    {reason : Include.IncludeError} (h : d.target arguments path = .error reason) :
    reason ≠ .notFound p := by
  rintro rfl
  unfold target at h
  split at h <;> cases h

/-- A file is missing that is reported to be so. -/
theorem Include.IncludeError.eq_of_ofReadError {q p : String} {fault : ReadError}
    (h : ofReadError q fault = .notFound p) : q = p ∧ fault = .notFound := by
  cases fault with
  | notFound => exact ⟨notFound.inj h, rfl⟩
  | _ => cases h

namespace World

variable {d : Dialect} {w : World} {asked : Set String} {path content : String} {cs : List Chunk}
  {x y : Document} {i : Template.Inclusion} {q : String}

/-! ## Gaps -/

/-- A document comes from the cache or from a file that can be read. -/
theorem Gives.exists_content (h : w.Gives d asked q x) (hnew : w.found? q = none) :
    ∃ content, w.files.read q = .ok content := by
  cases h with
  | found h => rw [hnew] at h; cases h
  | @made _ content _ _ h _ => exact ⟨content, h.read⟩

/-- A directive fails since its file cannot be read. -/
theorem Composes.exists_fault (h : w.Composes d asked path content cs x) {error : Include.IncludeError}
    (hi : (i, .gap error) ∈ (d.tree content).inclusions.zip cs)
    (hq : d.target i.arguments path = .ok q) : q ∈ asked ∧ w.found? q = none ∧
      ∃ fault, w.files.read q = .error fault ∧ error = .ofReadError q fault := by
  generalize hchunk : Chunk.gap error = c at hi
  cases h.becomes_of_mem hi with
  | refused htarget => rw [hq] at htarget; cases htarget
  | unreadable htarget hasked hnew hread =>
    obtain rfl : q = _ := Except.ok.inj (hq.symm.trans htarget)
    exact ⟨hasked, hnew, _, hread, Chunk.gap.inj hchunk⟩
  | included => cases hchunk

/-- A directive whose file is missing names a file. -/
theorem Composes.exists_target_of_notFound (h : w.Composes d asked path content cs x) {p : String}
    (hi : (i, .gap (.notFound p)) ∈ (d.tree content).inclusions.zip cs) :
    ∃ q, d.target i.arguments path = .ok q := by
  cases htarget : d.target i.arguments path with
  | ok q => exact ⟨q, rfl⟩
  | error reason =>
    generalize hchunk : Chunk.gap (.notFound p) = c at hi
    cases h.becomes_of_mem hi with
    | refused htarget' =>
      exact absurd (Chunk.gap.inj hchunk).symm (Dialect.ne_notFound_of_target htarget')
    | unreadable htarget' => rw [htarget] at htarget'; cases htarget'
    | included => cases hchunk

/-- A directive that names a file inserts a document unless its file cannot be read. -/
theorem Composes.exists_inclusion (h : w.Composes d asked path content cs x)
    (hi : i ∈ (d.tree content).inclusions) (hq : d.target i.arguments path = .ok q)
    (hread : w.found? q ≠ none ∨ ∃ inner, w.files.read q = .ok inner) :
    ∃ z, (i, .inclusion (originAt path i.location.start) z) ∈ (d.tree content).inclusions.zip cs ∧
      q ∈ asked := by
  obtain ⟨c, hmem, hc⟩ := h.exists_chunk hi
  cases hc with
  | refused htarget => rw [hq] at htarget; cases htarget
  | unreadable htarget _ hnew hfault =>
    obtain rfl : q = _ := Except.ok.inj (hq.symm.trans htarget)
    rcases hread with hfound | ⟨inner, hinner⟩
    · exact absurd hnew hfound
    · rw [hfault] at hinner
      cases hinner
  | @included _ z htarget hasked =>
    obtain rfl : q = _ := Except.ok.inj (hq.symm.trans htarget)
    exact ⟨z, hmem, hasked⟩

/-- The directives of a document without gaps all insert documents without gaps. -/
theorem Composes.exists_whole (h : w.Composes d asked path content cs x)
    (hwhole : x.hasGaps = false) (hi : i ∈ (d.tree content).inclusions) :
    ∃ q z, d.target i.arguments path = .ok q ∧ z.hasGaps = false ∧
      (i, .inclusion (originAt path i.location.start) z) ∈ (d.tree content).inclusions.zip cs := by
  have hnogap : ∀ error, (i, .gap error) ∉ (d.tree content).inclusions.zip cs := by
    intro error hmem
    have hf := h.mem_failures hmem
    rw [Document.failures_eq_nil hwhole (Document.mem_withIncluded_iff.mpr (.inl rfl))] at hf
    cases hf
  obtain ⟨c, hmem, hc⟩ := h.exists_chunk hi
  cases hc with
  | refused => exact absurd hmem (hnogap _)
  | unreadable => exact absurd hmem (hnogap _)
  | @included q z htarget _ =>
    exact ⟨q, z, htarget, Document.hasGaps_of_mem_sites hwhole (h.mem_sites hmem), hmem⟩

/-- **Whether a document has a gap depends on its path only.** -/
theorem Gives.whole_of_whole (h : w.Gives d asked path x) (h' : w.Gives d asked path y)
    (hy : y.hasGaps = false) : x.hasGaps = false := by
  induction h' generalizing x with
  | found hfound =>
    cases h with
    | found h =>
      obtain rfl := Option.some.inj (h.symm.trans hfound)
      exact hy
    | made h _ => rw [h.new] at hfound; cases hfound
  | @made path content cs' y h' hinner' ih =>
    cases h with
    | found hfound => rw [h'.new] at hfound; cases hfound
    | @made _ content' cs _ h hinner =>
      obtain rfl : content' = content := Except.ok.inj (h.read.symm.trans h'.read)
      by_contra hgaps
      rcases x.hasGaps_iff.mp (by simpa using hgaps) with hfail | ⟨s, hs, hgaps⟩
      · obtain ⟨f, hf⟩ := List.exists_mem_of_ne_nil _ hfail
        obtain ⟨i, hi, -⟩ := h.mem_failures_iff.mp hf
        obtain ⟨q, z, hq, -, hz⟩ := h'.exists_whole hy (List.of_mem_zip hi).1
        obtain ⟨-, hnew, fault, hfault, -⟩ := h.exists_fault hi hq
        obtain ⟨inner, hread⟩ := (hinner' i _ z q hz hq).exists_content hnew
        rw [hfault] at hread
        cases hread
      · obtain ⟨i, hi⟩ := h.mem_sites_iff.mp hs
        obtain ⟨q, z, hq, hwhole, hz⟩ := h'.exists_whole hy (List.of_mem_zip hi).1
        have := ih i _ z q hz hq (hinner i _ _ q hi hq) hwhole
        rw [hgaps] at this
        cases this

/-- A file is missing that a directive reports to be so. -/
theorem Gives.missing (hkept : ∀ q x, w.found? q = some x → x.hasGaps = false) (h : w.Gives d asked path x)
    {z : Document} (hz : z ∈ x.withIncluded) {f : Failure} (hf : f ∈ z.failures) {p : String}
    (hp : f.error = .notFound p) :
    Path.normalize p = p ∧ w.files.read p = .error .notFound := by
  induction h with
  | @found path x hfound =>
    rw [Document.failures_eq_nil (hkept path x hfound) hz] at hf
    cases hf
  | @made path content cs x h _ ih =>
    rcases Document.mem_withIncluded_iff.mp hz with rfl | ⟨s, hs, hz⟩
    · obtain ⟨i, hi, -⟩ := h.mem_failures_iff.mp hf
      rw [hp] at hi
      obtain ⟨q, hq⟩ := h.exists_target_of_notFound hi
      obtain ⟨-, -, fault, hfault, herror⟩ := h.exists_fault hi hq
      obtain ⟨rfl, rfl⟩ := Include.IncludeError.eq_of_ofReadError herror.symm
      exact ⟨Dialect.normalize_of_target hq, hfault⟩
    · obtain ⟨i, hi⟩ := h.mem_sites_iff.mp hs
      obtain ⟨-, q, hq, -⟩ := h.target_of_mem hi
      exact ih i _ _ q hi hq hz

/-! ## The file appears -/

/-- What the world `w'` has become after a compilation that began in the world `w` and asked for the
paths in `asked`, now that there is a file at the path `p`. -/
structure Appears (d : Dialect) (p : String) (asked : Set String) (w w' : World) : Prop where
  created : ∃ content, w'.files.read p = .ok content
  same : ∀ q content, w.files.read q = .ok content → w'.files.read q = .ok content
  absent : ∀ q fault, Path.normalize q = q → q ≠ p → w.files.read q = .error fault →
    ∃ fault', w'.files.read q = .error fault'
  stays : ∀ q, w.found? q ≠ none → w'.found? q ≠ none
  /-- What is found of all that was asked for is what the compilation found or made itself. -/
  gives : ∀ q x, q ∈ asked → w'.found? q = some x → w.Gives d asked q x
  whole : ∀ q x, w'.found? q = some x → x.hasGaps = false
  /-- The new file leads into no cycle. -/
  ends : Acc (fun s q => w'.Asks d q s) p

variable {w' : World} {p : String} {later : Set String}

/-- What could be compiled before leads into no cycle. -/
theorem Appears.acc (hw : w.Appears d p asked w') (h : w.Gives d asked path x) :
    Acc (fun s q => w'.Asks d q s) path := by
  induction h with
  | found h =>
    refine Acc.intro _ fun s hs => absurd hs.1 (hw.stays _ ?_)
    rw [h]
    exact Option.some_ne_none _
  | @made path content cs x h _ ih =>
    refine Acc.intro path fun s hs => ?_
    obtain ⟨-, content', hread, hmem⟩ := hs
    obtain rfl : content = content' := Except.ok.inj ((hw.same path content h.read).symm.trans hread)
    obtain ⟨i, hi, htarget⟩ := List.mem_filterMap.mp hmem
    have hs : d.target i.arguments path = .ok s := by
      cases htarget' : d.target i.arguments path <;> simp_all [Except.toOption]
    obtain ⟨c, hmem, hc⟩ := h.exists_chunk hi
    cases hc with
    | refused htarget => rw [hs] at htarget; cases htarget
    | unreadable htarget _ _ hfault =>
      obtain rfl : s = _ := Except.ok.inj (hs.symm.trans htarget)
      by_cases hp : s = p
      · exact hp ▸ hw.ends
      · -- the file of the directive is still missing
        obtain ⟨fault', hfault'⟩ := hw.absent s _ (Dialect.normalize_of_target hs) hp hfault
        refine Acc.intro s fun r hr => ?_
        obtain ⟨-, content', hread, -⟩ := hr
        rw [hfault'] at hread
        cases hread
    | included => exact ih i _ _ s hmem hs

/-- What could be found or read before can be found or read again. -/
theorem Appears.available (hw : w.Appears d p asked w') (h : w.Gives d asked q x) :
    w'.found? q ≠ none ∨ ∃ inner, w'.files.read q = .ok inner := by
  cases h with
  | found h => exact .inl (hw.stays q (by rw [h]; exact Option.some_ne_none _))
  | @made _ content _ _ h _ => exact .inr ⟨content, hw.same q content h.read⟩

/-- A document with a failed directive in it is made anew, from the same text. -/
theorem Appears.composes (hw : w.Appears d p asked w') (hkept : ∀ q x, w.found? q = some x → x.hasGaps = false)
    (hasked : path ∈ asked) (h : w.Gives d asked path x) (h' : w'.Gives d later path y)
    {os : List Origin} {z : Document} (hreach : x.Reaches os z) {f : Failure}
    (hf : f ∈ z.failures) : ∃ content cs cs',
      w.Composes d asked path content cs x ∧
      (∀ i origin u q, (i, .inclusion origin u) ∈ (d.tree content).inclusions.zip cs →
        d.target i.arguments path = .ok q → w.Gives d asked q u) ∧
      w'.Composes d later path content cs' y ∧
      ∀ i origin u q, (i, .inclusion origin u) ∈ (d.tree content).inclusions.zip cs' →
        d.target i.arguments path = .ok q → w'.Gives d later q u := by
  have hgaps := hreach.hasGaps hf
  cases h' with
  | found hfound =>
    have hwhole := h.whole_of_whole (hw.gives path y hasked hfound) (hw.whole path y hfound)
    rw [hgaps] at hwhole
    cases hwhole
  | @made _ content' cs' _ h' hinner' =>
    cases h with
    | found hfound =>
      have hwhole := hkept path x hfound
      rw [hgaps] at hwhole
      cases hwhole
    | @made _ content cs _ h hinner =>
      obtain rfl : content = content' :=
        Except.ok.inj ((hw.same path content h.read).symm.trans h'.read)
      exact ⟨content, cs, cs', h, hinner, h', hinner'⟩

/-- Where a directive has found no file, its file has not been found under any other name. -/
theorem Appears.path_eq (hw : w.Appears d p asked w') (hp : p ∈ asked) (hnew : w.found? p = none)
    {fault : ReadError} (hfault : w.files.read p = .error fault) (h : w'.Gives d later p y) :
    y.path = p := by
  cases h with
  | found hfound =>
    obtain ⟨content, hread⟩ := (hw.gives p y hp hfound).exists_content hnew
    rw [hfault] at hread
    cases hread
  | made h _ => exact h.path_eq

/-- **Where the file was missing, it is found now**: the directives that led to the one which failed
lead to one that inserts the file. -/
theorem Appears.reaches (hw : w.Appears d p asked w') (hkept : ∀ q x, w.found? q = some x → x.hasGaps = false)
    (hasked : path ∈ asked) (h : w.Gives d asked path x) (h' : w'.Gives d later path y)
    {os : List Origin} {z : Document} (hreach : x.Reaches os z) {f : Failure}
    (hf : f ∈ z.failures) (hp : f.error = .notFound p) :
    ∃ z' u, y.Reaches os z' ∧ z'.path = z.path ∧ ⟨f.origin, u⟩ ∈ z'.sites ∧ u.path = p := by
  induction hreach generalizing path y with
  | @here x =>
    obtain ⟨content, cs, cs', h, hinner, h', hinner'⟩ := hw.composes hkept hasked h h' (.here) hf
    obtain ⟨i, hi, horigin⟩ := h.mem_failures_iff.mp hf
    rw [hp] at hi
    obtain ⟨q, hq⟩ := h.exists_target_of_notFound hi
    obtain ⟨hqasked, hnew, fault, hfault, herror⟩ := h.exists_fault hi hq
    obtain ⟨rfl, -⟩ := Include.IncludeError.eq_of_ofReadError herror.symm
    obtain ⟨u, hu, -⟩ := h'.exists_inclusion (List.of_mem_zip hi).1 hq (.inr hw.created)
    refine ⟨y, u, .here, h'.path_eq.trans h.path_eq.symm, horigin ▸ h'.mem_sites hu, ?_⟩
    exact hw.path_eq hqasked hnew hfault (hinner' i _ u q hu hq)
  | @inside x z s os hs hreach ih =>
    obtain ⟨content, cs, cs', h, hinner, h', hinner'⟩ :=
      hw.composes hkept hasked h h' (.inside hs hreach) hf
    obtain ⟨i, hi⟩ := h.mem_sites_iff.mp hs
    obtain ⟨horigin, q, hq, hqasked⟩ := h.target_of_mem hi
    have hgives := hinner i _ _ q hi hq
    obtain ⟨u, hu, -⟩ := h'.exists_inclusion (List.of_mem_zip hi).1 hq (hw.available hgives)
    obtain ⟨z', v, hreach', hpath, hv, hvpath⟩ := ih hqasked hgives (hinner' i _ u q hu hq) hf
    rw [horigin]
    exact ⟨z', v, .inside (h'.mem_sites hu) hreach', hpath, hv, hvpath⟩

/-- No directive finds the file missing any more. -/
theorem Appears.ne_notFound (hw : w.Appears d p asked w') (h : w'.Gives d later path y)
    {z : Document} (hz : z ∈ y.withIncluded) {f : Failure} (hf : f ∈ z.failures) :
    f.error ≠ .notFound p := by
  intro hp
  obtain ⟨-, hmissing⟩ := h.missing hw.whole hz hf hp
  obtain ⟨content, hread⟩ := hw.created
  rw [hmissing] at hread
  cases hread

end World

end Stencil
