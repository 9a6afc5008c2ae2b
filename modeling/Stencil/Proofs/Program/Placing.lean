import Stencil.Proofs.Program.Gaps

/-! # Where failures are placed

A gap is mapped when it is written, and this mapping is never replaced, because only a mapping of
the place behind the code can give way.  Every mapping in front of the end of the code is that of a
character, to the origin of this character.  So the first place that is mapped to the origin of a
gap is that of a character which comes from there, and is not behind the gap.
-/
namespace Stencil

namespace Weaver

/-- What a weaver that writes a text does with mappings: those of the code so far stay, new ones are
made for the characters of the text and for the place behind it, and each gap gets one. -/
structure Maps (w w' : Weaver) (text : List Char) (gaps : List Gap) : Prop where
  place : w'.place = w.place.after text
  kept : ∀ m ∈ w.mappings, m.generated.before w.place = true → m ∈ w'.mappings
  new : ∀ m ∈ w'.mappings,
    m ∈ w.mappings ∨ m.generated ∈ w.place.along text ∨ m.generated = w'.place
  placed : ∀ g ∈ gaps, g.place.before w'.place = true ∧
    (⟨g.place, g.failure.origin, false⟩ : Mapping) ∈ w'.mappings

namespace Maps

variable {w w' w'' : Weaver}

theorem refl (w : Weaver) : Maps w w [] [] :=
  ⟨rfl, fun _ h _ => h, fun _ h => .inl h, fun _ h => by cases h⟩

theorem upTo {text : List Char} {gaps : List Gap} (h : Maps w w' text gaps) :
    w.place.upTo w'.place = true := h.place ▸ w.place.upTo_after text

theorem trans {xs ys : List Char} {gs hs : List Gap} (h : Maps w w' xs gs)
    (h' : Maps w' w'' ys hs) : Maps w w'' (xs ++ ys) (gs ++ hs) where
  place := by rw [h'.place, h.place, Mark.after_append]
  kept m hm hbefore :=
    h'.kept m (h.kept m hm hbefore) (Mark.before_of_before_of_upTo hbefore h.upTo)
  new m hm := by
    rw [Mark.along_append, List.mem_append, ← h.place]
    rcases h'.new m hm with hm | hm | hm
    · rcases h.new m hm with hm | hm | hm
      · exact .inl hm
      · exact .inr (.inl (.inl hm))
      · -- what was behind the first text is the first place of the second one, or its end
        cases ys with
        | nil => exact .inr (.inr (hm.trans h'.place.symm))
        | cons y ys => exact .inr (.inl (.inr (hm ▸ List.mem_cons_self)))
    · exact .inr (.inl (.inr hm))
    · exact .inr (.inr hm)
  placed := by
    refine List.forall_mem_append.mpr ⟨fun g hg => ?_, h'.placed⟩
    obtain ⟨hbefore, hmem⟩ := h.placed g hg
    exact ⟨Mark.before_of_before_of_upTo hbefore h'.upTo, h'.kept _ hmem hbefore⟩

/-- What is written is inserted by one more directive. -/
theorem within {text : List Char} {gaps : List Gap} (h : Maps w w' text gaps)
    (directive : Origin) : Maps w w' text (gaps.map (Gap.within directive)) where
  place := h.place
  kept := h.kept
  new := h.new
  placed := by
    intro g hg
    obtain ⟨inner, hinner, rfl⟩ := List.mem_map.mp hg
    exact h.placed inner hinner

/-- What does not touch code and mappings maps nothing. -/
theorem of_eq (hplace : w'.place = w.place) (hmappings : w'.mappings = w.mappings) :
    Maps w w' [] [] where
  place := hplace
  kept m hm _ := hmappings ▸ hm
  new m hm := .inl (hmappings ▸ hm)
  placed g hg := by cases hg

end Maps

theorem maps_map (w : Weaver) (o : Origin) (verbatim : Bool) : Maps w (w.map o verbatim) [] [] := by
  obtain ⟨rest, hmap, hrest⟩ := mappings_map w o verbatim
  refine ⟨place_map w o verbatim, fun m hm hbefore => ?_, fun m hm => ?_, fun g hg => by cases hg⟩
  · rw [hmap]
    rcases hrest with rfl | ⟨last, hlast, hplace⟩
    · exact List.mem_cons_of_mem _ hm
    · rw [hlast] at hm
      rcases List.mem_cons.mp hm with rfl | hm
      · -- the mapping that gives way is not one of the code so far
        exact absurd (Mark.upTo_refl _) (Mark.not_upTo_iff.mpr (hplace ▸ hbefore))
      · exact List.mem_cons_of_mem _ hm
  · rw [hmap] at hm
    rcases List.mem_cons.mp hm with rfl | hm
    · exact .inr (.inr (place_map w o verbatim).symm)
    · rcases hrest with rfl | ⟨last, hlast, -⟩
      · exact .inl hm
      · exact .inl (hlast ▸ List.mem_cons_of_mem _ hm)

theorem maps_mapTo (w : Weaver) (origin : Option Origin) : Maps w (w.mapTo origin) [] [] := by
  cases origin with
  | none => exact .refl w
  | some o => exact maps_map w o false

theorem maps_put (w : Weaver) (c : Char) : Maps w (w.put c) [c] [] :=
  ⟨rfl, fun _ h _ => h, fun _ h => .inl h, fun _ h => by cases h⟩

theorem maps_putCode (origin : Option Origin) (w : Weaver) (cs : List Char) :
    Maps w (w.putCode origin cs) cs [] := by
  induction cs generalizing w with
  | nil => exact .refl w
  | cons c cs ih =>
    rw [putCode]
    split
    · exact (maps_put w c).trans ((maps_mapTo _ origin).trans (ih _))
    · exact (maps_put w c).trans (ih _)

theorem maps_putCopied (o : Origin) (w : Weaver) (cs : List Char) :
    Maps w (w.putCopied o cs) cs [] := by
  induction cs generalizing w o with
  | nil => exact .refl w
  | cons c cs ih =>
    simp only [putCopied]
    split
    · exact (maps_put w c).trans ((maps_map _ _ true).trans (ih _ _))
    · exact (maps_put w c).trans (ih _ _)

theorem maps_putVerbatim (origin : Option Origin) (w : Weaver) (cs : List Char) :
    Maps w (w.putVerbatim origin cs) cs [] := by
  cases origin with
  | none => exact maps_putCode none w cs
  | some o => exact (maps_map w o true).trans (maps_putCopied o _ cs)

/-- A gap that begins a fragment is mapped to the origin of the fragment. -/
theorem maps_gap (w : Weaver) (o : Origin) (error : Include.IncludeError) :
    Maps w ((w.map o false).putCode (some o) gapCode.toList) gapCode.toList
      [⟨⟨⟨o, error⟩, []⟩, w.place⟩] := by
  have hwritten := (maps_map w o false).trans (maps_putCode (some o) (w.map o false) gapCode.toList)
  obtain ⟨rest, hmap, -⟩ := mappings_map w o false
  refine { hwritten with placed := fun g hg => ?_ }
  obtain rfl := List.mem_singleton.mp hg
  refine ⟨?_, ?_⟩
  · rw [hwritten.place]
    exact w.place.before_advance ' '
  · show (⟨w.place, o, false⟩ : Mapping) ∈ (w.map o false).mappings
    rw [hmap]
    exact List.mem_cons_self

theorem maps_meet (w : Weaver) (d : Document) : Maps w (w.meet d) [] [] := by
  unfold meet
  split
  · exact .refl w
  · exact .of_eq rfl rfl

end Weaver

open Weaver

mutual

theorem Chunk.Clear.maps_weave {reserved : Origin → Prop} (origin : Option Origin) (w : Weaver) :
    ∀ {c : Chunk}, c.Clear reserved origin →
      Maps w (c.weave origin w) c.text.toList (c.gaps origin w.place)
  | .code _, _ => maps_putCode origin w _
  | .verbatim _, _ => maps_putVerbatim origin w _
  | .gap _, h => h.elim
  | .fragment own chunks, h => by
    have hinner : Maps w (weaveChunks (own <|> origin) (w.mapTo own) chunks)
        (textOfChunks chunks).toList (gapsOfChunks (own <|> origin) w.place chunks) := by
      rcases h with ⟨o, error, rfl, rfl⟩ | h
      · have htext : (textOfChunks [.gap error]).toList = gapCode.toList := rfl
        exact htext ▸ maps_gap w o error
      · have hmap := maps_mapTo w own
        have hchunks := h.maps_weave (own <|> origin) (w.mapTo own)
        rw [hmap.place] at hchunks
        exact hmap.trans hchunks
    have hback := hinner.trans (maps_mapTo _ origin)
    rwa [List.append_nil, List.append_nil] at hback
  | .inclusion directive document, h => by
    have hdocument := (Document.Clear.maps_weave w h).within directive
    have hoccur : Maps (document.weave w)
        ((document.weave w).occur directive document w.place) [] [] := .of_eq rfl rfl
    have hback := (hdocument.trans hoccur).trans (maps_mapTo _ origin)
    rwa [List.append_nil, List.append_nil, List.append_nil, List.append_nil] at hback

theorem ClearChunks.maps_weave {reserved : Origin → Prop} (origin : Option Origin) (w : Weaver) :
    ∀ {cs : List Chunk}, ClearChunks reserved origin cs →
      Maps w (weaveChunks origin w cs) (textOfChunks cs).toList (gapsOfChunks origin w.place cs)
  | [], _ => .refl w
  | c :: cs, h => by
    have hhead := h.1.maps_weave origin w
    have htail := ClearChunks.maps_weave origin (c.weave origin w) h.2
    rw [hhead.place] at htail
    have hboth := hhead.trans htail
    rwa [← String.toList_append] at hboth

/-- Weaving maps the gaps of a document that keeps origins free. -/
theorem Document.Clear.maps_weave {reserved : Origin → Prop} (w : Weaver) :
    ∀ {d : Document}, d.Clear reserved →
      Maps w (d.weave w) d.text.toList (d.gaps w.place)
  | .mk stamp chunks, h => by
    have hmeet := maps_meet w (.mk stamp chunks)
    have hchunks := ClearChunks.maps_weave none (w.meet (.mk stamp chunks)) h
    rw [hmeet.place] at hchunks
    exact hmeet.trans hchunks

end

/-! ## Looking up failures -/

namespace Document

variable {root : Document} {reserved : Origin → Prop}

/-- The mapping of a place in the code is that of the character there. -/
theorem exists_cell_of_mem_mappings (htidy : root.Tidy) (hclear : root.Clear reserved)
    {m : Mapping} (hm : m ∈ (root.weave .start).mappings)
    (hbefore : m.generated.before (root.weave .start).place = true) :
    ∃ c ∈ root.cells .origin, c.place = m.generated ∧ c.origin = m.origin := by
  have hwrites := root.writes_weave (w := .start) htidy
  have hplaces := root.map_place_cells .origin
  have hsorted := (hwrites.ordered Weaver.ordered_start).sorted
  -- a mapping in front of the end is that of a character
  obtain ⟨c, hc, hplace⟩ : ∃ c ∈ root.cells .origin, c.place = m.generated := by
    rcases (hclear.maps_weave .start).new m hm with hold | halong | hstop
    · cases hold
    · rw [show Weaver.start.place = Mark.origin from rfl, ← hplaces] at halong
      exact List.mem_map.mp halong
    · exact absurd (Mark.upTo_refl _) (Mark.not_upTo_iff.mpr (hstop ▸ hbefore))
  have htold := (hwrites.told c hc).2
  rw [hplace, Weaver.tells, find?_generated hsorted hm, Option.map_some, Mapping.tells] at htold
  refine ⟨c, hc, hplace, ?_⟩
  rw [← Option.some.inj htold]
  split
  · simp [Mapping.countOn]
  · rfl

/-- The places that are mapped to an origin stand in the order of the code. -/
theorem pairwise_generatedFor (htidy : root.Tidy) (o : Origin) :
    (root.program.map.generatedFor o).Pairwise fun a b => a.before b = true := by
  have hsorted := ((root.writes_weave (w := .start) htidy).ordered Weaver.ordered_start).sorted
  rw [Document.program, SourceMap.generatedFor, List.pairwise_map]
  exact (List.pairwise_reverse.mpr hsorted).filter _

/-- **A failure is placed at a character that comes from its directive**, at its gap or in front of
it. -/
theorem exists_head?_generatedFor (htidy : root.Tidy) (hclear : root.Clear reserved) {g : Gap}
    (hg : g ∈ root.gaps .origin) :
    ∃ c ∈ root.cells .origin, c.origin = g.failure.origin ∧ c.place.upTo g.place = true ∧
      (root.program.map.generatedFor g.failure.origin).head? = some c.place := by
  obtain ⟨hbefore, hmapping⟩ := (hclear.maps_weave .start).placed g hg
  have hmem : g.place ∈ root.program.map.generatedFor g.failure.origin :=
    List.mem_map.mpr ⟨_, List.mem_filter.mpr ⟨List.mem_reverse.mpr hmapping, by simp⟩, rfl⟩
  have hsorted := root.pairwise_generatedFor htidy g.failure.origin
  cases hfirst : root.program.map.generatedFor g.failure.origin with
  | nil => simp [hfirst] at hmem
  | cons first others =>
    rw [hfirst] at hmem hsorted
    have hle : first.upTo g.place = true := by
      rcases List.mem_cons.mp hmem with heq | hother
      · exact heq ▸ Mark.upTo_refl _
      · exact Mark.upTo_of_before ((List.pairwise_cons.mp hsorted).1 _ hother)
    have hin : first ∈ root.program.map.generatedFor g.failure.origin :=
      hfirst ▸ List.mem_cons_self
    obtain ⟨m, hm, rfl⟩ := List.mem_map.mp hin
    obtain ⟨hm, horigin⟩ := List.mem_filter.mp hm
    have horigin : m.origin = g.failure.origin := by simpa using horigin
    have hstop : m.generated.before (root.weave .start).place = true := by
      by_contra hnot
      exact Mark.not_upTo_iff.mpr hbefore (Mark.upTo_trans (Mark.not_before_iff.mp hnot) hle)
    obtain ⟨c, hc, hplace, hfrom⟩ :=
      exists_cell_of_mem_mappings htidy hclear (List.mem_reverse.mp hm) hstop
    exact ⟨c, hc, hfrom.trans horigin, hplace ▸ hle, by rw [hplace]; rfl⟩

/-- **A failure whose directive has its origin for itself is placed at the first gap that the
directive has left.** -/
theorem head?_generatedFor (htidy : root.Tidy) (hclear : root.Clear reserved) {g : Gap}
    (hg : g ∈ root.gaps .origin) (hreserved : reserved g.failure.origin) :
    (root.program.map.generatedFor g.failure.origin).head? =
      ((root.gaps .origin).find? (·.failure.origin = g.failure.origin)).map (·.place) := by
  obtain ⟨first, hfirst⟩ : ∃ first, (root.gaps .origin).find?
      (·.failure.origin = g.failure.origin) = some first :=
    Option.isSome_iff_exists.mp (List.find?_isSome.mpr ⟨g, hg, by simp⟩)
  obtain ⟨hsame, earlier, later, hsplit, hearlier⟩ := List.find?_eq_some_iff_append.mp hfirst
  have hsame : first.failure.origin = g.failure.origin := by simpa using hsame
  have hmem : first ∈ root.gaps .origin := List.mem_of_find?_eq_some hfirst
  obtain ⟨c, hc, horigin, hle, hhead⟩ := exists_head?_generatedFor htidy hclear hmem
  rw [hsame] at horigin hhead
  -- the character at the place that was found is a gap of the same directive
  obtain ⟨found, hfound, hplaced⟩ := hclear.gap_of_reserved c hc (horigin ▸ hreserved)
  obtain ⟨hplace, hemitted⟩ := Prod.mk.inj hplaced
  have hfrom : found.failure.origin = g.failure.origin :=
    (congrArg Emitted.origin hemitted).trans horigin
  have heq : found = first := by
    have hsorted := root.pairwise_gaps .origin
    rw [hsplit] at hfound hsorted
    rcases List.mem_append.mp hfound with hfound | hfound
    · exact absurd (hearlier found hfound) (by simp [hfrom])
    · refine (List.mem_cons.mp hfound).resolve_right fun hlater => ?_
      have hbehind := (List.pairwise_cons.mp (List.pairwise_append.mp hsorted).2.1).1 found hlater
      exact Mark.not_upTo_iff.mpr hbehind (hplace ▸ hle)
  rw [hfirst, hhead, ← hplace, heq]
  rfl

end Document

end Stencil
