import Mathlib.Data.List.Nodup
import Mathlib.Data.List.Perm.Subperm
import Stencil.Proofs.Program.Attribution

/-! # Traces through directives

A trace climbs from a place in the code to the directive around it by looking for an occurrence of
the source whose code contains the place.  The occurrences that contain a character are those of its
stack; no two of them are of the same source as long as no document contains itself.  So there is
one occurrence to find at each step, and at the beginning of its code the search finds the next one.
-/
namespace Stencil

/-! ## Occurrences -/

mutual

/-- The occurrences of documents in a piece whose code begins at a place, each behind those in
it. -/
def Chunk.occurrences (place : Mark) : Chunk → List Occurrence
  | .fragment _ chunks => occurrencesOfChunks place chunks
  | .inclusion directive document =>
    document.occurrences place ++ [document.occurrenceAt directive place]
  | _ => []

/-- The occurrences of documents in pieces. -/
def occurrencesOfChunks (place : Mark) : List Chunk → List Occurrence
  | [] => []
  | c :: cs => c.occurrences place ++ occurrencesOfChunks (place.after c.text.toList) cs

/-- The occurrences of documents in a document. -/
def Document.occurrences (place : Mark) : Document → List Occurrence
  | .mk _ chunks => occurrencesOfChunks place chunks

end

namespace Weaver

/-- A weaver that becomes another one by writing a text, and records nothing but mappings. -/
structure Adds (w w' : Weaver) (text : List Char) : Prop where
  place : w'.place = w.place.after text
  occurrences : w'.occurrences = w.occurrences
  seen : w'.seen = w.seen
  failures : w'.failures = w.failures

/-- What a weaver that writes a text does with occurrences: it moves on behind the text, and records
some more. -/
structure Moves (w w' : Weaver) (text : List Char) (more : List Occurrence) : Prop where
  place : w'.place = w.place.after text
  occurrences : w'.occurrences = more.reverse ++ w.occurrences

variable {w w' w'' : Weaver}

theorem Adds.refl (w : Weaver) : Adds w w [] := ⟨rfl, rfl, rfl, rfl⟩

theorem Adds.trans {xs ys : List Char} (h : Adds w w' xs) (h' : Adds w' w'' ys) :
    Adds w w'' (xs ++ ys) where
  place := by rw [h'.place, h.place, Mark.after_append]
  occurrences := h'.occurrences.trans h.occurrences
  seen := h'.seen.trans h.seen
  failures := h'.failures.trans h.failures

theorem adds_map (w : Weaver) (o : Origin) (verbatim : Bool) : Adds w (w.map o verbatim) [] := by
  unfold Weaver.map
  split
  · split <;> exact ⟨rfl, rfl, rfl, rfl⟩
  · exact ⟨rfl, rfl, rfl, rfl⟩

theorem adds_mapTo (w : Weaver) (origin : Option Origin) : Adds w (w.mapTo origin) [] := by
  cases origin with
  | none => exact .refl w
  | some o => exact adds_map w o false

theorem adds_put (w : Weaver) (c : Char) : Adds w (w.put c) [c] := ⟨rfl, rfl, rfl, rfl⟩

theorem adds_putCode (origin : Option Origin) (w : Weaver) (cs : List Char) :
    Adds w (w.putCode origin cs) cs := by
  induction cs generalizing w with
  | nil => exact .refl w
  | cons c cs ih =>
    rw [putCode]
    split
    · exact (adds_put w c).trans ((adds_mapTo _ origin).trans (ih _))
    · exact (adds_put w c).trans (ih _)

theorem adds_putCopied (o : Origin) (w : Weaver) (cs : List Char) :
    Adds w (w.putCopied o cs) cs := by
  induction cs generalizing w o with
  | nil => exact .refl w
  | cons c cs ih =>
    simp only [putCopied]
    split
    · exact (adds_put w c).trans ((adds_map _ _ true).trans (ih _ _))
    · exact (adds_put w c).trans (ih _ _)

theorem adds_putVerbatim (origin : Option Origin) (w : Weaver) (cs : List Char) :
    Adds w (w.putVerbatim origin cs) cs := by
  cases origin with
  | none => exact adds_putCode none w cs
  | some o => exact (adds_map w o true).trans (adds_putCopied o _ cs)

theorem Adds.moves {text : List Char} (h : Adds w w' text) : Moves w w' text [] :=
  ⟨h.place, h.occurrences⟩

theorem Moves.refl (w : Weaver) : Moves w w [] [] := ⟨rfl, rfl⟩

theorem Moves.trans {xs ys : List Char} {os os' : List Occurrence} (h : Moves w w' xs os)
    (h' : Moves w' w'' ys os') : Moves w w'' (xs ++ ys) (os ++ os') where
  place := by rw [h'.place, h.place, Mark.after_append]
  occurrences := by
    rw [h'.occurrences, h.occurrences, List.reverse_append, List.append_assoc]

theorem moves_meet (w : Weaver) (d : Document) : Moves w (w.meet d) [] [] := by
  unfold meet
  split
  · exact .refl w
  · exact ⟨rfl, rfl⟩

end Weaver

open Weaver

mutual

theorem Chunk.moves_weave (origin : Option Origin) (w : Weaver) :
    ∀ c : Chunk, Moves w (c.weave origin w) c.text.toList (c.occurrences w.place)
  | .code _ => (adds_putCode origin w _).moves
  | .verbatim _ => (adds_putVerbatim origin w _).moves
  | .gap _ => (adds_putCode origin w _).moves
  | .fragment own chunks => by
    have hchunks := moves_weaveChunks (own <|> origin) (w.mapTo own) chunks
    rw [(adds_mapTo w own).place] at hchunks
    have hback := ((adds_mapTo w own).moves.trans hchunks).trans (adds_mapTo _ origin).moves
    rwa [List.append_nil, List.append_nil] at hback
  | .inclusion directive document => by
    have hdocument := document.moves_weave w
    have hoccur : Moves (document.weave w)
        ((document.weave w).occur directive document w.place) []
        [document.occurrenceAt directive w.place] := by
      refine ⟨rfl, ?_⟩
      rw [occur, hdocument.place]
      rfl
    have hback := (hdocument.trans hoccur).trans (adds_mapTo _ origin).moves
    rwa [List.append_nil, List.append_nil, List.append_nil] at hback

theorem moves_weaveChunks (origin : Option Origin) (w : Weaver) :
    ∀ cs : List Chunk,
      Moves w (weaveChunks origin w cs) (textOfChunks cs).toList (occurrencesOfChunks w.place cs)
  | [] => .refl w
  | c :: cs => by
    have hhead := c.moves_weave origin w
    have htail := moves_weaveChunks origin (c.weave origin w) cs
    rw [hhead.place] at htail
    have hboth := hhead.trans htail
    rwa [← String.toList_append] at hboth

/-- Weaving moves on behind the code of a document and records its occurrences. -/
theorem Document.moves_weave (w : Weaver) :
    ∀ d : Document, Moves w (d.weave w) d.text.toList (d.occurrences w.place)
  | .mk stamp chunks => by
    have hmeet := moves_meet w (.mk stamp chunks)
    have hchunks := moves_weaveChunks none (w.meet (.mk stamp chunks)) chunks
    rw [hmeet.place] at hchunks
    exact hmeet.trans hchunks

end

theorem Document.occurrences_program (root : Document) :
    root.program.occurrences = root.occurrences .origin := by
  have hmoves := (root.moves_weave .start).occurrences
  rw [Document.program, hmoves, List.reverse_append, List.reverse_reverse]
  rfl

theorem Document.code_program (root : Document) (htidy : root.Tidy) :
    root.program.code = root.text := by
  have hcode := (root.writes_weave (w := .start) htidy).code
  rw [root.map_char_cells] at hcode
  rw [Document.program, hcode]
  simp [Weaver.start]

/-! ## The occurrences around a cell -/

/-- The occurrences of a stretch of code agree with the stacks of its cells: an occurrence contains
the cells that have it on their stacks, and begins at one of them. -/
structure Encloses (start stop : Mark) (os : List Occurrence) (cells : List Cell) : Prop where
  within : ∀ o ∈ os, start.upTo o.range.start = true ∧ o.range.stop.upTo stop = true
  placed : ∀ c ∈ cells, start.upTo c.place = true ∧ c.place.before stop = true
  known : ∀ c ∈ cells, ∀ o ∈ c.stack, o ∈ os ∧ o.range.contains c.place = true
  found : ∀ c ∈ cells, ∀ o ∈ os, o.range.contains c.place = true → o ∈ c.stack
  begun : ∀ c ∈ cells, ∀ pre o rest, c.stack = pre ++ o :: rest →
    ∃ c' ∈ cells, c'.place = o.range.start ∧ ∃ pre', c'.stack = pre' ++ o :: rest

theorem CodeRange.contains_iff {r : CodeRange} {p : Mark} :
    r.contains p = true ↔ r.start.upTo p = true ∧ p.before r.stop = true := by
  rw [CodeRange.contains, Bool.and_eq_true]

namespace Encloses

variable {start mid stop : Mark} {os os' : List Occurrence} {xs ys : List Cell}

/-- Code without directives. -/
theorem plain (hplaced : ∀ c ∈ xs, start.upTo c.place = true ∧ c.place.before stop = true)
    (hstack : ∀ c ∈ xs, c.stack = []) : Encloses start stop [] xs where
  within o ho := absurd ho (by simp)
  placed := hplaced
  known c hc o ho := absurd ho (by simp [hstack c hc])
  found c _ o ho := absurd ho (by simp)
  begun c hc pre o rest h := absurd h (by simp [hstack c hc])

theorem append (h : Encloses start mid os xs) (h' : Encloses mid stop os' ys)
    (hstart : start.upTo mid = true) (hstop : mid.upTo stop = true) :
    Encloses start stop (os ++ os') (xs ++ ys) where
  within o ho := by
    rcases List.mem_append.mp ho with ho | ho
    · obtain ⟨hle, hend⟩ := h.within o ho
      exact ⟨hle, Mark.upTo_trans hend hstop⟩
    · obtain ⟨hle, hend⟩ := h'.within o ho
      exact ⟨Mark.upTo_trans hstart hle, hend⟩
  placed c hc := by
    rcases List.mem_append.mp hc with hc | hc
    · obtain ⟨hle, hlt⟩ := h.placed c hc
      exact ⟨hle, Mark.before_of_before_of_upTo hlt hstop⟩
    · obtain ⟨hle, hlt⟩ := h'.placed c hc
      exact ⟨Mark.upTo_trans hstart hle, hlt⟩
  known c hc o ho := by
    rcases List.mem_append.mp hc with hc | hc
    · obtain ⟨hin, hcontains⟩ := h.known c hc o ho
      exact ⟨List.mem_append_left _ hin, hcontains⟩
    · obtain ⟨hin, hcontains⟩ := h'.known c hc o ho
      exact ⟨List.mem_append_right _ hin, hcontains⟩
  found c hc o ho hcontains := by
    obtain ⟨hle, hlt⟩ := CodeRange.contains_iff.mp hcontains
    rcases List.mem_append.mp hc with hc | hc <;> rcases List.mem_append.mp ho with ho | ho
    · exact h.found c hc o ho hcontains
    · -- the occurrence begins only behind the cell
      have hbefore := Mark.before_of_before_of_upTo (h.placed c hc).2 (h'.within o ho).1
      exact absurd hle (Mark.not_upTo_iff.mpr hbefore)
    · -- the occurrence has ended before the cell
      have hupTo := Mark.upTo_trans (h.within o ho).2 (h'.placed c hc).1
      exact absurd hlt (Mark.not_before_iff.mpr hupTo)
    · exact h'.found c hc o ho hcontains
  begun c hc pre o rest hstack := by
    rcases List.mem_append.mp hc with hc | hc
    · obtain ⟨c', hc', hrest⟩ := h.begun c hc pre o rest hstack
      exact ⟨c', List.mem_append_left _ hc', hrest⟩
    · obtain ⟨c', hc', hrest⟩ := h'.begun c hc pre o rest hstack
      exact ⟨c', List.mem_append_right _ hc', hrest⟩

/-- The occurrence of a document contains all of its cells, and begins at the first of them. -/
theorem under {o : Occurrence} (h : Encloses o.range.start o.range.stop os xs)
    (hfirst : ∀ c ∈ xs.head?, c.place = o.range.start) :
    Encloses o.range.start o.range.stop (os ++ [o]) (xs.map (Cell.under o)) where
  within x hx := by
    rcases List.mem_append.mp hx with hx | hx
    · exact h.within x hx
    · obtain rfl := List.mem_singleton.mp hx
      exact ⟨Mark.upTo_refl _, Mark.upTo_refl _⟩
  placed c hc := by
    obtain ⟨d, hd, rfl⟩ := List.mem_map.mp hc
    exact h.placed d hd
  known c hc x hx := by
    obtain ⟨d, hd, rfl⟩ := List.mem_map.mp hc
    rcases List.mem_append.mp hx with hx | hx
    · obtain ⟨hin, hcontains⟩ := h.known d hd x hx
      exact ⟨List.mem_append_left _ hin, hcontains⟩
    · obtain rfl := List.mem_singleton.mp hx
      exact ⟨List.mem_append_right _ hx, CodeRange.contains_iff.mpr (h.placed d hd)⟩
  found c hc x hx hcontains := by
    obtain ⟨d, hd, rfl⟩ := List.mem_map.mp hc
    rcases List.mem_append.mp hx with hx | hx
    · exact List.mem_append_left _ (h.found d hd x hx hcontains)
    · exact List.mem_append_right _ hx
  begun c hc pre x rest hstack := by
    obtain ⟨d, hd, rfl⟩ := List.mem_map.mp hc
    rw [Cell.stack_under] at hstack
    rcases List.eq_nil_or_concat rest with rfl | ⟨inner, last, rfl⟩
    · -- the document itself, which begins at its first cell
      obtain ⟨-, hlast⟩ := List.append_inj' hstack rfl
      obtain rfl := (List.cons.inj hlast).1
      cases hxs : xs with
      | nil => simp [hxs] at hd
      | cons first others =>
        refine ⟨first.under o, by simp, hfirst first (by simp [hxs]), first.stack, rfl⟩
    · rw [List.concat_eq_append, ← List.cons_append, ← List.append_assoc] at hstack
      obtain ⟨hinner, hlast⟩ := List.append_inj' hstack rfl
      obtain rfl := (List.cons.inj hlast).1
      obtain ⟨e, he, hplace, pre', hpre⟩ := h.begun d hd pre x inner hinner
      refine ⟨e.under o, List.mem_map_of_mem he, hplace, pre', ?_⟩
      rw [Cell.stack_under, hpre, List.append_assoc, List.cons_append, List.concat_eq_append]

end Encloses

theorem placed_of_map_place {place : Mark} {text : List Char} {xs : List Cell}
    (h : xs.map Cell.place = place.along text) :
    ∀ c ∈ xs, place.upTo c.place = true ∧ c.place.before (place.after text) = true :=
  fun _ hc => Mark.mem_along (h ▸ List.mem_map_of_mem hc)

mutual

theorem Chunk.encloses (origin : Option Origin) (place : Mark) :
    ∀ c : Chunk, Encloses place (place.after c.text.toList) (c.occurrences place)
      (c.cells origin place)
  | .code text =>
    .plain (placed_of_map_place (Chunk.map_place_cells origin place (.code text)))
      fun _ hc => Cell.stack_eq_nil_of_mem_made _ _ _ hc
  | .verbatim text =>
    .plain (placed_of_map_place (Chunk.map_place_cells origin place (.verbatim text)))
      fun _ hc => Cell.stack_eq_nil_of_mem_copiedFrom _ _ _ hc
  | .gap error =>
    .plain (placed_of_map_place (Chunk.map_place_cells origin place (.gap error)))
      fun _ hc => Cell.stack_eq_nil_of_mem_made _ _ _ hc
  | .fragment own chunks => encloses_chunks (own <|> origin) place chunks
  | .inclusion directive document => by
    -- the first cell of the document, if there is one, stands where its code begins
    refine (document.encloses place).under (o := document.occurrenceAt directive place) ?_
    intro c hc
    have hplaces := document.map_place_cells place
    cases hcells : document.cells place with
    | nil => simp [hcells] at hc
    | cons first others =>
      obtain rfl : first = c := by simpa [hcells] using hc
      rw [hcells] at hplaces
      cases htext : document.text.toList with
      | nil => simp [htext, Mark.along] at hplaces
      | cons d ds =>
        rw [htext] at hplaces
        exact (List.cons.inj hplaces).1

theorem encloses_chunks (origin : Option Origin) (place : Mark) :
    ∀ cs : List Chunk, Encloses place (place.after (textOfChunks cs).toList)
      (occurrencesOfChunks place cs) (cellsOfChunks origin place cs)
  | [] => .plain (fun c hc => by cases hc) (fun c hc => by cases hc)
  | c :: cs => by
    have htail := encloses_chunks origin (place.after c.text.toList) cs
    rw [← Mark.after_append, ← String.toList_append] at htail
    refine (c.encloses origin place).append htail (Mark.upTo_after _ _) ?_
    rw [textOfChunks, String.toList_append, Mark.after_append]
    exact Mark.upTo_after _ _

/-- The occurrences in a document agree with the stacks of its cells. -/
theorem Document.encloses (place : Mark) :
    ∀ d : Document, Encloses place (place.after d.text.toList) (d.occurrences place) (d.cells place)
  | .mk _ chunks => encloses_chunks none place chunks

end

/-! ## The sources around a cell -/

/-- The way from a source through the directives of a stack ends in another source. -/
def Leads (source : String) : List Occurrence → (root : String) → Prop
  | [], root => source = root
  | o :: rest, root => o.document.path = source ∧ Leads o.directive.source rest root

theorem Leads.snoc {source path root : String} {stack : List Occurrence} {o : Occurrence}
    (h : Leads source stack path) (hpath : o.document.path = path)
    (hroot : o.directive.source = root) : Leads source (stack ++ [o]) root := by
  induction stack generalizing source with
  | nil => exact ⟨hpath.trans h.symm, hroot⟩
  | cons x stack ih => exact ⟨h.1, ih h.2⟩

/-- The last of the directives that a stack leads through stands in the root. -/
theorem Leads.getLast_frames {root : String} {stack : List Occurrence} {o : Origin}
    (h : Leads o.source stack root) :
    ((o :: stack.map Occurrence.directive).getLast (List.cons_ne_nil _ _)).source = root := by
  induction stack generalizing o with
  | nil => exact h
  | cons x stack ih =>
    rw [List.map_cons, List.getLast_cons (List.cons_ne_nil _ _)]
    exact ih h.2

theorem Document.withIncluded_eq (d : Document) :
    d.withIncluded = d :: documentsOfChunks d.chunks := by
  cases d
  rfl

theorem Document.mem_withIncluded (d : Document) : d ∈ d.withIncluded := by
  rw [d.withIncluded_eq]
  exact List.mem_cons_self

/-- No document contains another one of its own path. -/
def Document.Unnested (d : Document) : Prop :=
  ∀ x ∈ d.withIncluded, ∀ y ∈ documentsOfChunks x.chunks, y.path ≠ x.path

/-- The paths of the documents that a cell lies in, innermost first. -/
def Cell.paths (c : Cell) : List String := c.stack.map (·.document.path)

/-- A cell of a source: its stack leads there, through documents of different paths. -/
structure Cell.LiesIn (root : String) (documents : List Document) (c : Cell) : Prop where
  leads : Leads c.origin.source c.stack root
  inner : ∀ o ∈ c.stack, o.document ∈ documents
  nodup : c.paths.Nodup

theorem Cell.liesIn_of_stack_eq_nil {root : String} {c : Cell} (documents : List Document)
    (hstack : c.stack = []) (hsource : c.origin.source = root) : c.LiesIn root documents where
  leads := by rw [hstack]; exact hsource
  inner o ho := absurd ho (by simp [hstack])
  nodup := by simp [Cell.paths, hstack]

theorem Cell.source_of_mem_made {o : Origin} {place : Mark} {cs : List Char} {c : Cell}
    (h : c ∈ Cell.made o place cs) : c.origin.source = o.source := by
  induction cs generalizing place with
  | nil => cases h
  | cons d cs ih =>
    rcases List.mem_cons.mp h with rfl | h
    · rfl
    · exact ih h

theorem Cell.source_of_mem_copiedFrom {o : Origin} {place : Mark} {cs : List Char} {c : Cell}
    (h : c ∈ Cell.copiedFrom o place cs) : c.origin.source = o.source := by
  induction cs generalizing o place with
  | nil => cases h
  | cons d cs ih =>
    rcases List.mem_cons.mp h with rfl | h
    · rfl
    · exact (ih h :)

mutual

theorem Chunk.mem_documents_trans {x d : Document} :
    ∀ c : Chunk, d ∈ c.documents → x ∈ d.withIncluded → x ∈ c.documents
  | .fragment _ chunks, hd, hx => mem_documentsOfChunks_trans chunks hd hx
  | .inclusion _ document, hd, hx => Document.mem_withIncluded_trans document hd hx
  | .code _, hd, _ | .verbatim _, hd, _ | .gap _, hd, _ => by cases hd

theorem mem_documentsOfChunks_trans {x d : Document} :
    ∀ cs : List Chunk, d ∈ documentsOfChunks cs → x ∈ d.withIncluded → x ∈ documentsOfChunks cs
  | [], hd, _ => by cases hd
  | c :: cs, hd, hx => by
    rcases List.mem_append.mp hd with hd | hd
    · exact List.mem_append_left _ (Chunk.mem_documents_trans c hd hx)
    · exact List.mem_append_right _ (mem_documentsOfChunks_trans cs hd hx)

theorem Document.mem_withIncluded_trans {x d : Document} :
    ∀ root : Document, d ∈ root.withIncluded → x ∈ d.withIncluded → x ∈ root.withIncluded
  | .mk stamp chunks, hd, hx => by
    rcases List.mem_cons.mp hd with rfl | hd
    · exact hx
    · exact List.mem_cons_of_mem _ (mem_documentsOfChunks_trans chunks hd hx)

end

mutual

theorem Chunk.liesIn {path : String} (origin : Option Origin) (place : Mark) :
    ∀ c : Chunk, c.Tidy path → (∀ d ∈ c.documents, d.Unnested) →
      (origin = none → c.IsFragment) → (∀ o ∈ origin, o.source = path) →
      ∀ x ∈ c.cells origin place, x.LiesIn path c.documents
  | .code _, _, _, hfree, hsource | .gap _, _, _, hfree, hsource => by
    intro x hx
    obtain _ | o := origin
    · cases hfree rfl
    · exact Cell.liesIn_of_stack_eq_nil _ (Cell.stack_eq_nil_of_mem_made _ _ _ hx)
        ((Cell.source_of_mem_made hx).trans (hsource o rfl))
  | .verbatim _, htidy, _, _, _ => by cases htidy
  | .fragment own? chunks, htidy, hunnested, _, _ => by
    obtain ⟨⟨own, rfl, hown⟩, hinside⟩ := htidy
    intro x hx
    rcases hinside with ⟨text, rfl⟩ | hinside
    · rcases List.mem_append.mp hx with hx | hx
      · exact Cell.liesIn_of_stack_eq_nil _ (Cell.stack_eq_nil_of_mem_copiedFrom _ _ _ hx)
          ((Cell.source_of_mem_copiedFrom hx).trans hown)
      · cases hx
    · exact liesIn_chunks (some own) place chunks hinside hunnested (fun h => by cases h)
        (fun o ho => by obtain rfl := Option.some.inj ho; exact hown) x hx
  | .inclusion directive document, htidy, hunnested, _, _ => by
    intro x hx
    obtain ⟨y, hy, rfl⟩ := List.mem_map.mp hx
    have hself : document ∈ document.withIncluded := document.mem_withIncluded
    obtain ⟨hleads, hinner, hnodup⟩ := document.liesIn place htidy.2 (hunnested document hself) y hy
    refine ⟨hleads.snoc rfl htidy.1, fun o ho => ?_, ?_⟩
    · show o.document ∈ document.withIncluded
      rcases List.mem_append.mp ho with ho | ho
      · rw [document.withIncluded_eq]
        exact List.mem_cons_of_mem _ (hinner o ho)
      · obtain rfl := List.mem_singleton.mp ho
        exact hself
    · -- no document in this one has its path
      rw [Cell.paths, Cell.stack_under, List.map_append, List.map_singleton]
      refine List.nodup_append.mpr ⟨hnodup, by simp, ?_⟩
      intro p hp q hq
      obtain rfl := List.mem_singleton.mp hq
      obtain ⟨o, ho, rfl⟩ := List.mem_map.mp hp
      exact hunnested document hself document hself _ (hinner o ho)

theorem liesIn_chunks {path : String} (origin : Option Origin) (place : Mark) :
    ∀ cs : List Chunk, TidyChunks path cs → (∀ d ∈ documentsOfChunks cs, d.Unnested) →
      (origin = none → ∀ c ∈ cs, c.IsFragment) → (∀ o ∈ origin, o.source = path) →
      ∀ x ∈ cellsOfChunks origin place cs, x.LiesIn path (documentsOfChunks cs)
  | [], _, _, _, _ => fun x hx => by cases hx
  | c :: cs, htidy, hunnested, hfree, hsource => by
    intro x hx
    rcases List.mem_append.mp hx with hx | hx
    · obtain ⟨hleads, hinner, hnodup⟩ := c.liesIn origin place htidy.1
        (fun d hd => hunnested d (List.mem_append_left _ hd))
        (fun h => hfree h c List.mem_cons_self) hsource x hx
      exact ⟨hleads, fun o ho => List.mem_append_left _ (hinner o ho), hnodup⟩
    · obtain ⟨hleads, hinner, hnodup⟩ := liesIn_chunks origin _ cs htidy.2
        (fun d hd => hunnested d (List.mem_append_right _ hd))
        (fun h d hd => hfree h d (List.mem_cons_of_mem c hd)) hsource x hx
      exact ⟨hleads, fun o ho => List.mem_append_right _ (hinner o ho), hnodup⟩

/-- The stack of a cell leads to the document, through documents of different paths. -/
theorem Document.liesIn (place : Mark) :
    ∀ d : Document, d.Tidy → d.Unnested →
      ∀ x ∈ d.cells place, x.LiesIn d.path (documentsOfChunks d.chunks)
  | .mk stamp chunks, htidy, hunnested => by
    refine liesIn_chunks none place chunks htidy.1 (fun d hd x hx => ?_) (fun _ => htidy.2)
      (fun o ho => by cases ho)
    exact hunnested x (List.mem_cons_of_mem _ (mem_documentsOfChunks_trans chunks hd hx))

end

/-! ## Climbing -/

theorem foldl_laterStart_eq {o : Occurrence} {os : List Occurrence} (h : ∀ x ∈ os, x = o) :
    os.foldl laterStart o = o := by
  induction os with
  | nil => rfl
  | cons x os ih =>
    have hstep : laterStart o x = o := by
      rw [h x List.mem_cons_self, laterStart]
      split <;> rfl
    rw [List.foldl_cons, hstep]
    exact ih fun y hy => h y (List.mem_cons_of_mem x hy)

namespace Program

variable {p : Program} {source : String} {place : Mark}

theorem containing?_eq_none
    (h : ∀ x ∈ p.occurrences, x.document.path = source → ¬ x.range.contains place = true) :
    p.containing? source place = none := by
  have hfilter : (p.occurrences.filter fun x =>
      x.document.path == source && x.range.contains place) = [] := by
    rw [List.filter_eq_nil_iff]
    intro x hx hboth
    rw [Bool.and_eq_true, beq_iff_eq] at hboth
    exact h x hx hboth.1 hboth.2
  rw [containing?, hfilter]

theorem containing?_eq_some {o : Occurrence} (ho : o ∈ p.occurrences)
    (hpath : o.document.path = source) (hcontains : o.range.contains place = true)
    (h : ∀ x ∈ p.occurrences, x.document.path = source → x.range.contains place = true → x = o) :
    p.containing? source place = some o := by
  have hall : ∀ x ∈ p.occurrences.filter fun x =>
      x.document.path == source && x.range.contains place, x = o := by
    intro x hx
    obtain ⟨hmem, hboth⟩ := List.mem_filter.mp hx
    rw [Bool.and_eq_true, beq_iff_eq] at hboth
    exact h x hmem hboth.1 hboth.2
  have hin : o ∈ p.occurrences.filter fun x =>
      x.document.path == source && x.range.contains place :=
    List.mem_filter.mpr ⟨ho, by simp [hpath, hcontains]⟩
  rw [containing?]
  cases hfilter : p.occurrences.filter fun x =>
      x.document.path == source && x.range.contains place with
  | nil => simp [hfilter] at hin
  | cons first rest =>
    rw [hfilter] at hall
    obtain rfl := hall first List.mem_cons_self
    exact congrArg some (foldl_laterStart_eq fun x hx => hall x (List.mem_cons_of_mem _ hx))

/-- Climbing from a cell goes through the rest of its stack, one occurrence at a step.  The
induction is on the rest; at its end the climb is in the root, which no occurrence is of. -/
theorem climb_eq {start stop : Mark} {cells : List Cell} {root : String}
    {documents : List Document} (henclose : Encloses start stop p.occurrences cells)
    (hcells : ∀ c ∈ cells, c.LiesIn root documents) (hroot : ∀ d ∈ documents, d.path ≠ root)
    {rest : List Occurrence} {source : String} {c : Cell} {pre : List Occurrence} {steps : Nat}
    (hc : c ∈ cells) (hstack : c.stack = pre ++ rest) (hleads : Leads source rest root)
    (hsteps : rest.length ≤ steps) :
    p.climb steps source c.place = rest.map Occurrence.directive := by
  induction rest generalizing source c pre steps with
  | nil =>
    obtain _ | steps := steps
    · rfl
    · have hnone : p.containing? source c.place = none := by
        refine containing?_eq_none fun x hx hpath hcontains => ?_
        have hin := henclose.found c hc x hx hcontains
        exact hroot _ ((hcells c hc).inner x hin) (hpath.trans hleads)
      rw [climb, hnone]
      rfl
  | cons o rest ih =>
    obtain _ | steps := steps
    · exact absurd hsteps (by simp)
    · have ho : o ∈ c.stack := by rw [hstack]; simp
      obtain ⟨hmem, hcontains⟩ := henclose.known c hc o ho
      -- two occurrences around a cell are never of the same source
      have hsome : p.containing? source c.place = some o := by
        refine containing?_eq_some hmem hleads.1 hcontains fun x hx hpath hin => ?_
        exact List.inj_on_of_nodup_map (hcells c hc).nodup (henclose.found c hc x hx hin) ho
          (hpath.trans hleads.1.symm)
      -- the climb goes on from the cell where the occurrence begins, which has the same rest
      obtain ⟨c', hc', hplace, pre', hstack'⟩ := henclose.begun c hc pre o rest hstack
      rw [climb, hsome, List.map_cons]
      refine congrArg (o.directive :: ·) ?_
      have hrest : c'.stack = (pre' ++ [o]) ++ rest := by
        rw [hstack', List.append_assoc, List.singleton_append]
      rw [← hplace]
      exact ih hc' hrest hleads.2 (Nat.le_of_succ_le_succ hsteps)

end Program

/-- **The diagnosis of every character is its own origin followed by the directives around it.** -/
theorem Document.diagnose_program {root : Document} (htidy : root.Tidy)
    (hunnested : root.Unnested) :
    ∀ c ∈ root.cells .origin,
      root.program.diagnose c.place = ⟨c.origin :: c.stack.map Occurrence.directive, false⟩ := by
  intro c hc
  have henclose := root.encloses .origin
  rw [← root.occurrences_program] at henclose
  have hlies := root.liesIn .origin htidy hunnested
  have hroot : ∀ d ∈ documentsOfChunks root.chunks, d.path ≠ root.path :=
    hunnested root root.mem_withIncluded
  -- the bound on the climb is never reached: the stack is a part of the occurrences
  have hlength : c.stack.length ≤ root.program.occurrences.length :=
    (List.Nodup.subperm (List.Nodup.of_map _ (hlies c hc).nodup) fun o ho =>
      (henclose.known c hc o ho).1).length_le
  rw [Program.diagnose, root.origin?_program htidy c hc]
  simp only [Program.trace]
  rw [Program.climb_eq henclose hlies hroot hc (List.nil_append _).symm (hlies c hc).leads hlength]

end Stencil
