import Stencil.Proofs.Program.Bare

/-! # Programs do not depend on numbers

Two documents that are the same without their numbers have the same program, if in each of them the
numbers tell apart the documents that have failures.  A compilation numbers its documents in this
way: what it finds in the cache has no failures, and what it makes itself gets a new number.
-/
namespace Stencil

/-! ## Documents told apart by their numbers -/

/-- Documents that were numbered before `hi`, those with failures not before `lo`, and of which no
later one has both failures and the number of an earlier one. -/
structure Apart (lo hi : Nat) (documents : List Document) : Prop where
  le : lo ≤ hi
  below : ∀ x ∈ documents, x.number < hi
  recent : ∀ x ∈ documents, x.failures ≠ [] → lo ≤ x.number
  once : documents.Pairwise fun x y => x.number = y.number → y.failures = []

namespace Apart

variable {lo mid hi : Nat} {xs ys : List Document}

theorem nil (h : lo ≤ hi) : Apart lo hi [] :=
  ⟨h, by simp, by simp, List.Pairwise.nil⟩

theorem mono {lo' hi' : Nat} (h : Apart lo hi xs) (hlo : lo' ≤ lo) (hhi : hi ≤ hi') :
    Apart lo' hi' xs where
  le := Nat.le_trans hlo (Nat.le_trans h.le hhi)
  below x hx := Nat.lt_of_lt_of_le (h.below x hx) hhi
  recent x hx hfail := Nat.le_trans hlo (h.recent x hx hfail)
  once := h.once

theorem append (h : Apart lo mid xs) (h' : Apart mid hi ys) : Apart lo hi (xs ++ ys) where
  le := Nat.le_trans h.le h'.le
  below := List.forall_mem_append.mpr
    ⟨fun x hx => Nat.lt_of_lt_of_le (h.below x hx) h'.le, h'.below⟩
  recent := List.forall_mem_append.mpr
    ⟨h.recent, fun y hy hfail => Nat.le_trans h.le (h'.recent y hy hfail)⟩
  once := by
    refine List.pairwise_append.mpr ⟨h.once, h'.once, fun x hx y hy heq => ?_⟩
    by_contra hfail
    have hnew := h'.recent y hy hfail
    have hold := h.below x hx
    omega

/-- A document that gets its number after all that it includes is apart from them. -/
theorem cons {d : Document} (h : Apart lo d.number xs) : Apart lo (d.number + 1) (d :: xs) where
  le := Nat.le_succ_of_le h.le
  below := List.forall_mem_cons.mpr
    ⟨Nat.lt_succ_self _, fun x hx => Nat.lt_succ_of_lt (h.below x hx)⟩
  recent := List.forall_mem_cons.mpr ⟨fun _ => h.le, h.recent⟩
  once := by
    refine List.pairwise_cons.mpr ⟨fun x hx heq => ?_, h.once⟩
    have := h.below x hx
    omega

theorem of_failures_eq_nil (hle : lo ≤ hi) (hbelow : ∀ x ∈ xs, x.number < hi)
    (hfail : ∀ x ∈ xs, x.failures = []) : Apart lo hi xs where
  le := hle
  below := hbelow
  recent x hx h := absurd (hfail x hx) h
  once := List.Pairwise.imp_of_mem (fun _ hy _ _ => hfail _ hy)
    (List.pairwise_of_forall fun _ _ => trivial)

end Apart

/-! ## Documents without gaps -/

mutual

theorem Chunk.failures_eq_nil (origin : Option Origin) :
    ∀ c : Chunk, c.hasGaps = false → c.failures origin = []
  | .code _, _ | .verbatim _, _ | .inclusion _ _, _ => rfl
  | .gap _, h => by cases h
  | .fragment own chunks, h => failuresOfChunks_eq_nil (own <|> origin) chunks h

theorem failuresOfChunks_eq_nil (origin : Option Origin) :
    ∀ cs : List Chunk, haveGaps cs = false → failuresOfChunks origin cs = []
  | [], _ => rfl
  | c :: cs, h => by
    rw [haveGaps, Bool.or_eq_false_iff] at h
    rw [failuresOfChunks, c.failures_eq_nil origin h.1, failuresOfChunks_eq_nil origin cs h.2,
      List.append_nil]

end

mutual

theorem Chunk.hasGaps_of_mem {x : Document} :
    ∀ c : Chunk, c.hasGaps = false → x ∈ c.documents → x.hasGaps = false
  | .code _, _, hx | .verbatim _, _, hx | .gap _, _, hx => by cases hx
  | .fragment _ chunks, h, hx => hasGaps_of_mem_chunks chunks h hx
  | .inclusion _ document, h, hx => Document.hasGaps_of_mem document h hx

theorem hasGaps_of_mem_chunks {x : Document} :
    ∀ cs : List Chunk, haveGaps cs = false → x ∈ documentsOfChunks cs → x.hasGaps = false
  | [], _, hx => by cases hx
  | c :: cs, h, hx => by
    rw [haveGaps, Bool.or_eq_false_iff] at h
    rcases List.mem_append.mp hx with hx | hx
    · exact Chunk.hasGaps_of_mem c h.1 hx
    · exact hasGaps_of_mem_chunks cs h.2 hx

/-- A document without gaps contains none with gaps. -/
theorem Document.hasGaps_of_mem {x : Document} :
    ∀ d : Document, d.hasGaps = false → x ∈ d.withIncluded → x.hasGaps = false
  | .mk stamp chunks, h, hx => by
    rcases List.mem_cons.mp hx with rfl | hx
    · exact h
    · exact hasGaps_of_mem_chunks chunks h hx

end

/-- A document without gaps has no failures, and neither have those in it. -/
theorem Document.failures_eq_nil {d x : Document} (h : d.hasGaps = false)
    (hx : x ∈ d.withIncluded) : x.failures = [] := by
  have hgaps := Document.hasGaps_of_mem d h hx
  cases x
  exact failuresOfChunks_eq_nil none _ hgaps

/-! ## Recorded failures -/

namespace Weaver

/-- What a weaver that meets documents records: their numbers, and all their failures, if no number
is met again where it would hide some. -/
structure Records (w w' : Weaver) (documents : List Document) : Prop where
  seen : ∀ n, n ∈ w'.seen ↔ n ∈ w.seen ∨ ∃ x ∈ documents, x.number = n
  failures : documents.Pairwise (fun x y => x.number = y.number → y.failures = []) →
    (∀ x ∈ documents, x.number ∈ w.seen → x.failures = []) →
    w'.failures = (documents.flatMap Document.failures).reverse ++ w.failures

variable {w w' w'' : Weaver}

theorem Records.of_eq (hseen : w'.seen = w.seen) (hfail : w'.failures = w.failures) :
    Records w w' [] := ⟨fun n => by simp [hseen], fun _ _ => by simp [hfail]⟩

theorem Records.trans {xs ys : List Document} (h : Records w w' xs) (h' : Records w' w'' ys) :
    Records w w'' (xs ++ ys) where
  seen n := by
    rw [h'.seen, h.seen, or_assoc]
    simp only [List.mem_append, or_and_right, exists_or]
  failures hpairs hfresh := by
    obtain ⟨hxs, hys, hcross⟩ := List.pairwise_append.mp hpairs
    obtain ⟨hfreshx, hfreshy⟩ := List.forall_mem_append.mp hfresh
    -- a document whose number was met in the first part has no failures to hide
    have hlater : ∀ y ∈ ys, y.number ∈ w'.seen → y.failures = [] := by
      intro y hy hmem
      rcases (h.seen _).mp hmem with hmem | ⟨x, hx, hnumber⟩
      · exact hfreshy y hy hmem
      · exact hcross x hx y hy hnumber
    rw [h'.failures hys hlater, h.failures hxs hfreshx, List.flatMap_append, List.reverse_append,
      List.append_assoc]

/-- Writing a text records no document. -/
theorem Adds.records {text : List Char} (h : Adds w w' text) : Records w w' [] :=
  .of_eq h.seen h.failures

theorem records_meet (w : Weaver) (d : Document) : Records w (w.meet d) [d] := by
  unfold meet
  split
  · rename_i hseen
    refine ⟨fun n => ?_, fun _ hfresh => ?_⟩
    · constructor
      · exact .inl
      · rintro (hn | ⟨x, hx, rfl⟩)
        · exact hn
        · rwa [List.mem_singleton.mp hx]
    · simp [hfresh d List.mem_cons_self hseen]
  · refine ⟨fun n => ?_, fun _ _ => by simp⟩
    simp only [List.mem_cons, exists_eq_left, List.not_mem_nil, or_false]
    rw [or_comm, eq_comm]

end Weaver

open Weaver

mutual

theorem Chunk.records_weave (origin : Option Origin) (w : Weaver) :
    ∀ c : Chunk, Records w (c.weave origin w) c.documents
  | .code _ => (adds_putCode origin w _).records
  | .verbatim _ => (adds_putVerbatim origin w _).records
  | .gap _ => (adds_putCode origin w _).records
  | .fragment own chunks => by
    have hchunks := records_weaveChunks (own <|> origin) (w.mapTo own) chunks
    have hback := ((adds_mapTo w own).records.trans hchunks).trans (adds_mapTo _ origin).records
    rwa [List.append_nil] at hback
  | .inclusion directive document => by
    have hoccur : Records (document.weave w)
        ((document.weave w).occur directive document w.place) [] := .of_eq rfl rfl
    have hback := ((document.records_weave w).trans hoccur).trans (adds_mapTo _ origin).records
    rwa [List.append_nil, List.append_nil] at hback

theorem records_weaveChunks (origin : Option Origin) (w : Weaver) :
    ∀ cs : List Chunk, Records w (weaveChunks origin w cs) (documentsOfChunks cs)
  | [] => .of_eq rfl rfl
  | c :: cs => (c.records_weave origin w).trans (records_weaveChunks origin (c.weave origin w) cs)

/-- Weaving meets a document and all that it includes. -/
theorem Document.records_weave (w : Weaver) :
    ∀ d : Document, Records w (d.weave w) d.withIncluded
  | .mk stamp chunks =>
    (records_meet w (.mk stamp chunks)).trans
      (records_weaveChunks none (w.meet (.mk stamp chunks)) chunks)

end

/-- The program of a document with numbers that tell its parts apart reports all their failures. -/
theorem Document.failures_program {root : Document} {lo hi : Nat}
    (h : Apart lo hi root.withIncluded) :
    root.program.failures = (root.withIncluded.flatMap Document.failures).map
      fun f => ⟨f, (root.program.map.generatedFor f.origin).head?⟩ := by
  have hfailures := (root.records_weave .start).failures h.once fun x _ hx => by cases hx
  rw [Document.program, hfailures, List.reverse_append, List.reverse_reverse]
  rfl

/-- What a weaver records comes from the documents that it meets, whatever their numbers are. -/
def Weaver.Reports (w w' : Weaver) (documents : List Document) : Prop :=
  ∀ f ∈ w'.failures, f ∈ w.failures ∨ ∃ x ∈ documents, f ∈ x.failures

namespace Weaver

variable {w w' w'' : Weaver} {xs ys : List Document}

theorem Reports.of_eq (h : w'.failures = w.failures) : Reports w w' [] :=
  fun _ hf => .inl (h ▸ hf)

theorem Reports.trans (h : Reports w w' xs) (h' : Reports w' w'' ys) : Reports w w'' (xs ++ ys) := by
  intro f hf
  rcases h' f hf with hf | ⟨y, hy, hf⟩
  · rcases h f hf with hf | ⟨x, hx, hf⟩
    · exact .inl hf
    · exact .inr ⟨x, List.mem_append_left _ hx, hf⟩
  · exact .inr ⟨y, List.mem_append_right _ hy, hf⟩

theorem reports_meet (w : Weaver) (d : Document) : Reports w (w.meet d) [d] := by
  intro f hf
  unfold meet at hf
  split at hf
  · exact .inl hf
  · rcases List.mem_append.mp hf with hf | hf
    · exact .inr ⟨d, List.mem_cons_self, List.mem_reverse.mp hf⟩
    · exact .inl hf

end Weaver

mutual

theorem Chunk.reports_weave (origin : Option Origin) (w : Weaver) :
    ∀ c : Chunk, Reports w (c.weave origin w) c.documents
  | .code _ => .of_eq (adds_putCode origin w _).failures
  | .verbatim _ => .of_eq (adds_putVerbatim origin w _).failures
  | .gap _ => .of_eq (adds_putCode origin w _).failures
  | .fragment own chunks => by
    have hchunks := reports_weaveChunks (own <|> origin) (w.mapTo own) chunks
    have hback := ((Reports.of_eq (adds_mapTo w own).failures).trans hchunks).trans
      (.of_eq (adds_mapTo _ origin).failures)
    rwa [List.append_nil] at hback
  | .inclusion directive document => by
    have hoccur : Reports (document.weave w)
        ((document.weave w).occur directive document w.place) [] := .of_eq rfl
    have hback := ((document.reports_weave w).trans hoccur).trans
      (.of_eq (adds_mapTo _ origin).failures)
    rwa [List.append_nil, List.append_nil] at hback

theorem reports_weaveChunks (origin : Option Origin) (w : Weaver) :
    ∀ cs : List Chunk, Reports w (weaveChunks origin w cs) (documentsOfChunks cs)
  | [] => .of_eq rfl
  | c :: cs => (c.reports_weave origin w).trans (reports_weaveChunks origin (c.weave origin w) cs)

theorem Document.reports_weave (w : Weaver) :
    ∀ d : Document, Reports w (d.weave w) d.withIncluded
  | .mk stamp chunks =>
    (reports_meet w (.mk stamp chunks)).trans
      (reports_weaveChunks none (w.meet (.mk stamp chunks)) chunks)

end

/-- Every failure that a program reports is one of a document in it. -/
theorem Document.exists_of_mem_failures {root : Document} {g : PlacedFailure}
    (h : g ∈ root.program.failures) : ∃ x ∈ root.withIncluded, g.failure ∈ x.failures := by
  obtain ⟨f, hf, rfl⟩ := List.mem_map.mp h
  exact (root.reports_weave .start f (List.mem_reverse.mp hf)).resolve_left List.not_mem_nil

/-! ## Mappings -/

namespace Weaver

/-- Two weavers stand at the same place and have the same mappings. -/
def Level (w w' : Weaver) : Prop := w.place = w'.place ∧ w.mappings = w'.mappings

variable {w w' : Weaver}

theorem Level.map (h : Level w w') (o : Origin) (verbatim : Bool) :
    Level (w.map o verbatim) (w'.map o verbatim) := by
  obtain ⟨hplace, hmappings⟩ := h
  refine ⟨by rw [place_map, place_map, hplace], ?_⟩
  unfold Weaver.map
  rw [hplace, hmappings]
  split
  · split <;> rfl
  · rfl

theorem Level.mapTo (h : Level w w') (origin : Option Origin) :
    Level (w.mapTo origin) (w'.mapTo origin) := by
  cases origin with
  | none => exact h
  | some o => exact h.map o false

theorem Level.put (h : Level w w') (c : Char) : Level (w.put c) (w'.put c) :=
  ⟨congrArg (·.advance c) h.1, h.2⟩

theorem Level.putCode (h : Level w w') (origin : Option Origin) (cs : List Char) :
    Level (w.putCode origin cs) (w'.putCode origin cs) := by
  induction cs generalizing w w' with
  | nil => exact h
  | cons c cs ih =>
    rw [Weaver.putCode, Weaver.putCode]
    split
    · exact ih ((h.put c).mapTo origin)
    · exact ih (h.put c)

theorem Level.putCopied (h : Level w w') (o : Origin) (cs : List Char) :
    Level (w.putCopied o cs) (w'.putCopied o cs) := by
  induction cs generalizing w w' o with
  | nil => exact h
  | cons c cs ih =>
    simp only [Weaver.putCopied]
    split
    · exact ih ((h.put c).map _ true) _
    · exact ih (h.put c) _

theorem Level.putVerbatim (h : Level w w') (origin : Option Origin) (cs : List Char) :
    Level (w.putVerbatim origin cs) (w'.putVerbatim origin cs) := by
  cases origin with
  | none => exact h.putCode none cs
  | some o => exact (h.map o true).putCopied o cs

theorem Level.meet (h : Level w w') (d d' : Document) : Level (w.meet d) (w'.meet d') := by
  unfold Weaver.meet
  split <;> split <;> exact h

end Weaver

mutual

theorem Chunk.level_weave_bare {w w' : Weaver} (origin : Option Origin) :
    ∀ c : Chunk, Level w w' → Level (c.weave origin w) (c.bare.weave origin w')
  | .code _, h => h.putCode origin _
  | .verbatim _, h => h.putVerbatim origin _
  | .gap _, h => h.putCode origin _
  | .fragment own chunks, h =>
    (level_weave_bareChunks (own <|> origin) chunks (h.mapTo own)).mapTo origin
  | .inclusion directive document, h => by
    have hdocument := document.level_weave_bare h
    have hoccur : Level ((document.weave w).occur directive document w.place)
        ((document.bare.weave w').occur directive document.bare w'.place) := hdocument
    exact hoccur.mapTo origin

theorem level_weave_bareChunks {w w' : Weaver} (origin : Option Origin) :
    ∀ cs : List Chunk, Level w w' →
      Level (weaveChunks origin w cs) (weaveChunks origin w' (bareChunks cs))
  | [], h => h
  | c :: cs, h => level_weave_bareChunks origin cs (c.level_weave_bare origin h)

/-- Weaving maps a document as if all numbers in it were zero. -/
theorem Document.level_weave_bare {w w' : Weaver} :
    ∀ d : Document, Level w w' → Level (d.weave w) (d.bare.weave w')
  | .mk _ chunks, h => level_weave_bareChunks none chunks (h.meet _ _)

end

theorem Document.map_program_bare (d : Document) : d.bare.program.map = d.program.map := by
  obtain ⟨hplace, hmappings⟩ := d.level_weave_bare (show Level .start .start from ⟨rfl, rfl⟩)
  rw [Document.program, Document.program]
  simp only [hplace, hmappings]

/-! ## The same program -/

/-- What is known of an occurrence apart from the document itself. -/
def Occurrence.coordinates (o : Occurrence) : Origin × String × CodeRange :=
  (o.directive, o.document.path, o.range)

mutual

theorem Chunk.coordinates_bare (place : Mark) :
    ∀ c : Chunk, (c.bare.occurrences place).map Occurrence.coordinates =
      (c.occurrences place).map Occurrence.coordinates
  | .code _ | .verbatim _ | .gap _ => rfl
  | .fragment _ chunks => coordinates_bareChunks place chunks
  | .inclusion directive document => by
    rw [Chunk.bare, Chunk.occurrences, Chunk.occurrences, List.map_append, List.map_append,
      document.coordinates_bare]
    simp [Occurrence.coordinates, Document.occurrenceAt, document.text_bare]

theorem coordinates_bareChunks (place : Mark) :
    ∀ cs : List Chunk, (occurrencesOfChunks place (bareChunks cs)).map Occurrence.coordinates =
      (occurrencesOfChunks place cs).map Occurrence.coordinates
  | [] => rfl
  | c :: cs => by
    rw [bareChunks, occurrencesOfChunks, occurrencesOfChunks, List.map_append, List.map_append,
      c.coordinates_bare, c.text_bare, coordinates_bareChunks _ cs]

theorem Document.coordinates_bare (place : Mark) :
    ∀ d : Document, (d.bare.occurrences place).map Occurrence.coordinates =
      (d.occurrences place).map Occurrence.coordinates
  | .mk _ chunks => coordinates_bareChunks place chunks

end

/-- Two programs with the same code, the same mappings, occurrences at the same coordinates and the
same failures. -/
structure Program.Same (p q : Program) : Prop where
  code : p.code = q.code
  map : p.map = q.map
  occurrences : p.occurrences.map Occurrence.coordinates =
    q.occurrences.map Occurrence.coordinates
  failures : p.failures = q.failures

/-- **Documents that are the same without numbers have the same program**, if their numbers tell the
documents with failures apart. -/
theorem Document.same_program {d d' : Document} {lo hi lo' hi' : Nat} (hbare : d.bare = d'.bare)
    (htidy : d.Tidy) (h : Apart lo hi d.withIncluded) (h' : Apart lo' hi' d'.withIncluded) :
    d.program.Same d'.program := by
  have htidy' : d'.Tidy := by rwa [← d'.tidy_bare, ← hbare, d.tidy_bare]
  have hmap : d.program.map = d'.program.map := by
    rw [← d.map_program_bare, hbare, d'.map_program_bare]
  have hall : ∀ x : Document, x.withIncluded.flatMap Document.failures =
      x.bare.withIncluded.flatMap Document.failures := by
    intro x
    rw [x.withIncluded_bare, List.flatMap_map]
    exact congrArg (List.flatMap · x.withIncluded) (funext fun y => y.failures_bare.symm)
  refine ⟨?_, hmap, ?_, ?_⟩
  · rw [d.code_program htidy, d'.code_program htidy', ← d.text_bare, hbare, d'.text_bare]
  · rw [d.occurrences_program, d'.occurrences_program, ← d.coordinates_bare, hbare,
      d'.coordinates_bare]
  · rw [d.failures_program h, d'.failures_program h', hall d, hall d', hbare, hmap]

end Stencil
