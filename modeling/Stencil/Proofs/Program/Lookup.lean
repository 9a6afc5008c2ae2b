import Stencil.Proofs.Program.Numbers
import Stencil.Proofs.Text.Beside

/-! # Lookups of any place

A lookup is made for whatever place is reported, be it that of a character of the code or not.  It
is approximate in front of the first mapping and from the end of the code on, and exact everywhere
between.  The first mapping of a tidy document is that of the first place, so that an exact lookup is
one of a character, or of a place beside a line of the code.  For such a place a column may be
counted on behind the end of the line in the file; the origins of all others are among those that
the document names.
-/
namespace Stencil

/-! ## Lookups in a source map -/

namespace SourceMap

variable {s : SourceMap} {place : Mark}

/-- A lookup in a source map that is not empty finds something: exactly if the place is in front of
the end and behind a mapping, and else the origin of a mapping as it is. -/
theorem exists_origin? (hmappings : s.mappings ≠ []) (place : Mark) :
    ∃ found, s.origin? place = some found ∧
      (found.approximate = false ↔
        (s.mappingAt? place).isSome = true ∧ place.before s.stop = true) ∧
      (found.approximate = true → ∃ m ∈ s.mappings, found.origin = m.origin) := by
  unfold origin?
  cases hat : s.mappingAt? place with
  | none =>
    obtain ⟨m, rest, hlist⟩ := List.exists_cons_of_ne_nil hmappings
    refine ⟨⟨m.origin, true⟩, by simp [hlist], by simp, fun _ => ⟨m, ?_, rfl⟩⟩
    rw [hlist]
    exact List.mem_cons_self
  | some m =>
    have hm : m ∈ s.mappings :=
      (List.takeWhile_prefix _).subset (List.mem_of_getLast? hat)
    by_cases hstop : s.stop.upTo place = true
    · refine ⟨⟨m.origin, true⟩, by simp [hstop], ?_, fun _ => ⟨m, hm, rfl⟩⟩
      have hnot : place.before s.stop = false :=
        Bool.eq_false_iff.mpr fun h => Mark.not_upTo_iff.mpr h hstop
      simp [hnot]
    · have hbefore := Mark.not_upTo_iff.mp hstop
      by_cases hline : (m.verbatim && m.generated.line == place.line) = true
      · exact ⟨⟨m.countOn place, false⟩, by simp [hstop, hline], by simp [hbefore], nofun⟩
      · exact ⟨⟨m.origin, false⟩, by simp [hstop, hline], by simp [hbefore], nofun⟩

end SourceMap

/-! ## The origins that a document names -/

section

variable (P : Origin → Prop)

mutual

/-- All origins that a piece, which comes from `origin` itself, names meet a condition: those of its
code, and those of copied text character by character. -/
def Chunk.Names (origin : Option Origin) : Chunk → Prop
  | .code _ | .gap _ => P (origin.getD default)
  | .verbatim text => ∀ pre post, text.toList = pre ++ post →
    P { origin.getD default with mark := (origin.getD default).mark.after pre }
  | .fragment own chunks => (∀ o ∈ own, P o) ∧ NameChunks (own <|> origin) chunks
  | .inclusion _ document => document.Names

/-- All origins that pieces name meet a condition. -/
def NameChunks (origin : Option Origin) : List Chunk → Prop
  | [] => True
  | c :: cs => c.Names origin ∧ NameChunks origin cs

/-- All origins that a document names meet a condition. -/
def Document.Names : Document → Prop
  | .mk _ chunks => NameChunks none chunks

end

/-- The mappings of a weaver lead from places that a text can have to origins that meet a
condition. -/
structure Weaver.Names (w : Weaver) : Prop where
  place : Mark.origin.upTo w.place = true
  generated : ∀ m ∈ w.mappings, Mark.origin.upTo m.generated = true
  origins : ∀ m ∈ w.mappings, P m.origin

end

variable {P : Origin → Prop}

theorem nameChunks_iff {origin : Option Origin} {cs : List Chunk} :
    NameChunks P origin cs ↔ ∀ c ∈ cs, c.Names P origin := by
  induction cs with
  | nil => simp [NameChunks]
  | cons c cs ih => rw [NameChunks, ih, List.forall_mem_cons]

namespace Weaver.Names

variable {w : Weaver} {o : Origin} {origin : Option Origin}

theorem start : Weaver.start.Names P where
  place := Mark.upTo_refl _
  generated := fun m hm => by cases hm
  origins := fun m hm => by cases hm

theorem map (h : w.Names P) (ho : P o) (verbatim : Bool) : (w.map o verbatim).Names P := by
  obtain ⟨rest, hmap, hrest⟩ := mappings_map w o verbatim
  have hold : ∀ m ∈ rest, m ∈ w.mappings := by
    rcases hrest with rfl | ⟨last, hlast, -⟩
    · exact fun m hm => hm
    · exact fun m hm => hlast ▸ List.mem_cons_of_mem _ hm
  refine ⟨by rw [place_map]; exact h.place, ?_, ?_⟩
  · rw [hmap]
    exact List.forall_mem_cons.mpr ⟨h.place, fun m hm => h.generated m (hold m hm)⟩
  · rw [hmap]
    exact List.forall_mem_cons.mpr ⟨ho, fun m hm => h.origins m (hold m hm)⟩

theorem mapTo (h : w.Names P) (horigin : ∀ o ∈ origin, P o) : (w.mapTo origin).Names P := by
  cases origin with
  | none => exact h
  | some o => exact h.map (horigin o rfl) false

theorem put (h : w.Names P) (c : Char) : (w.put c).Names P :=
  ⟨Mark.upTo_trans h.place (Mark.upTo_of_before (w.place.before_advance c)), h.generated,
    h.origins⟩

theorem putCode (h : w.Names P) (horigin : ∀ o ∈ origin, P o) (cs : List Char) :
    (w.putCode origin cs).Names P := by
  induction cs generalizing w with
  | nil => exact h
  | cons c cs ih =>
    rw [Weaver.putCode]
    split
    · exact ih ((h.put c).mapTo horigin)
    · exact ih (h.put c)

/-- Copied text is mapped line by line to places behind its origin. -/
theorem putCopied (h : w.Names P) {start : Origin} {cs : List Char}
    (horigins : ∀ pre post, cs = pre ++ post → P { o with mark := o.mark.after pre })
    (hsource : start.source = o.source) (hline : start.mark.line = o.mark.line) :
    (w.putCopied start cs).Names P := by
  induction cs generalizing w o start with
  | nil => exact h
  | cons c cs ih =>
    have hbehind : ∀ pre post, cs = pre ++ post →
        P { o with mark := (o.mark.advance c).after pre } := fun pre post hcs =>
      horigins (c :: pre) post (congrArg (c :: ·) hcs)
    rw [Weaver.putCopied]
    by_cases hc : c = '\n'
    · have hnext : ({ start with mark := ⟨start.mark.line + 1, 1⟩ } : Origin) =
          { o with mark := o.mark.advance c } := by
        rw [Mark.advance, if_pos hc, hsource, hline]
      simp only [if_pos hc]
      rw [hnext]
      exact ih (o := { o with mark := o.mark.advance c })
        ((h.put c).map (hbehind [] cs rfl) true) hbehind rfl rfl
    · rw [if_neg hc]
      refine ih (o := { o with mark := o.mark.advance c }) (h.put c) hbehind hsource ?_
      rw [Mark.advance_of_ne _ hc]
      exact hline

theorem of_eq {w' : Weaver} (h : w.Names P) (hplace : w'.place = w.place)
    (hmappings : w'.mappings = w.mappings) : w'.Names P :=
  ⟨hplace ▸ h.place, hmappings ▸ h.generated, hmappings ▸ h.origins⟩

theorem meet (h : w.Names P) (d : Document) : (w.meet d).Names P := by
  unfold Weaver.meet
  split
  · exact h
  · exact h.of_eq rfl rfl

end Weaver.Names

theorem forall_mem_orElse {origin own : Option Origin} (hown : ∀ o ∈ own, P o)
    (horigin : ∀ o ∈ origin, P o) : ∀ o ∈ (own <|> origin), P o := by
  cases own with
  | none => exact horigin
  | some o => exact hown

mutual

/-- Weaving maps to origins that a piece names, and to the one that it comes from. -/
theorem Chunk.Names.weave {origin : Option Origin} {w : Weaver} (hw : w.Names P)
    (horigin : ∀ o ∈ origin, P o) :
    ∀ {c : Chunk}, c.Names P origin → (c.weave origin w).Names P
  | .code _, _ | .gap _, _ => hw.putCode horigin _
  | .verbatim text, h => by
    obtain _ | o := origin
    · exact hw.putCode horigin _
    · exact (hw.map (horigin o rfl) true).putCopied h rfl rfl
  | .fragment own chunks, h =>
    (NameChunks.weave (hw.mapTo h.1) (forall_mem_orElse h.1 horigin) h.2).mapTo horigin
  | .inclusion directive document, h => by
    have hoccur : ((document.weave w).occur directive document w.place).Names P :=
      (Document.Names.weave hw h).of_eq rfl rfl
    exact hoccur.mapTo horigin

theorem NameChunks.weave {origin : Option Origin} {w : Weaver} (hw : w.Names P)
    (horigin : ∀ o ∈ origin, P o) :
    ∀ {cs : List Chunk}, NameChunks P origin cs → (weaveChunks origin w cs).Names P
  | [], _ => hw
  | _ :: _, h => NameChunks.weave (h.1.weave hw horigin) horigin h.2

theorem Document.Names.weave {w : Weaver} (hw : w.Names P) :
    ∀ {d : Document}, d.Names P → (d.weave w).Names P
  | .mk _ _, h => NameChunks.weave (hw.meet _) (by simp) h

end

/-! ## The origins of characters -/

theorem Cell.forall_mem_made {o : Origin} (ho : P o) (place : Mark) (cs : List Char) :
    ∀ c ∈ Cell.made o place cs, P c.origin := by
  induction cs generalizing place with
  | nil => simp [Cell.made]
  | cons c cs ih => exact List.forall_mem_cons.mpr ⟨ho, ih _⟩

theorem Cell.forall_mem_copiedFrom {o : Origin} {cs : List Char}
    (ho : ∀ pre post, cs = pre ++ post → P { o with mark := o.mark.after pre }) (place : Mark) :
    ∀ c ∈ Cell.copiedFrom o place cs, P c.origin := by
  induction cs generalizing o place with
  | nil => simp [Cell.copiedFrom]
  | cons c cs ih =>
    refine List.forall_mem_cons.mpr ⟨ho [] (c :: cs) rfl, ih (fun pre post hcs => ?_) _⟩
    exact ho (c :: pre) post (congrArg (c :: ·) hcs)

mutual

theorem Chunk.Names.cells {origin : Option Origin} (place : Mark) :
    ∀ {c : Chunk}, c.Names P origin → ∀ x ∈ c.cells origin place, P x.origin
  | .code _, h | .gap _, h => Cell.forall_mem_made h place _
  | .verbatim _, h => Cell.forall_mem_copiedFrom h place
  | .fragment _ _, h => NameChunks.cells place h.2
  | .inclusion _ document, h => by
    rw [Chunk.cells, List.forall_mem_map]
    exact Document.Names.cells place h

theorem NameChunks.cells {origin : Option Origin} (place : Mark) :
    ∀ {cs : List Chunk}, NameChunks P origin cs → ∀ x ∈ cellsOfChunks origin place cs, P x.origin
  | [], _ => fun _ hx => nomatch hx
  | _ :: _, h =>
    List.forall_mem_append.mpr ⟨h.1.cells place, NameChunks.cells (place.after _) h.2⟩

/-- The origins of all characters are named by the document. -/
theorem Document.Names.cells (place : Mark) :
    ∀ {d : Document}, d.Names P → ∀ x ∈ d.cells place, P x.origin
  | .mk _ _, h => NameChunks.cells place h

end

/-! ## Lookups in a program -/

/-- Any place can be looked up in a program: the lookup is exact if the place is that of a character
or stands beside a line, and approximate otherwise; and unless it stands beside a line, the origin
that is found meets a condition. -/
def Program.Locates (p : Program) (P : Origin → Prop) : Prop :=
  ∀ place, ∃ found, p.map.origin? place = some found ∧
    (found.approximate = false ↔ place ∈ Mark.origin.along p.code.toList ∨
      Mark.Beside .origin p.code.toList place) ∧
    (¬ Mark.Beside .origin p.code.toList place → P found.origin)

namespace Document

variable {d : Document}

/-- What a tidy document has written from the start of a program. -/
theorem writes_weave_start (htidy : d.Tidy) :
    Weaver.Writes .start (d.weave .start) (d.cells .origin) :=
  d.writes_weave htidy

/-- Some mapping is that of the first place of the code. -/
theorem exists_mapping_upTo_origin (htidy : d.Tidy) (hmappings : (d.weave .start).mappings ≠ []) :
    ∃ m ∈ (d.weave .start).mappings, m.generated.upTo Mark.origin = true := by
  have hwrites := d.writes_weave_start htidy
  have hplaces := d.map_place_cells .origin
  cases hcells : d.cells .origin with
  | cons c rest =>
    -- it tells the origin of the first character
    have hc : c.place = Mark.origin := by
      have hhead := congrArg List.head? hplaces
      rw [hcells] at hhead
      cases htext : d.text.toList with
      | nil =>
        rw [htext] at hhead
        cases hhead
      | cons x xs =>
        rw [htext] at hhead
        exact Option.some.inj hhead
    have hmem : c ∈ d.cells .origin := hcells ▸ List.mem_cons_self
    obtain ⟨m, hm, -⟩ := Option.map_eq_some_iff.mp (hwrites.told c hmem).2
    have hle := List.find?_some hm
    exact ⟨m, List.mem_of_find?_eq_some hm, hc ▸ hle⟩
  | nil =>
    -- all mappings are of the end of the code
    obtain ⟨m, rest, hlist⟩ := List.exists_cons_of_ne_nil hmappings
    have hm : m ∈ (d.weave .start).mappings := hlist ▸ List.mem_cons_self
    have hend : (d.weave .start).place = Mark.origin := by
      rw [hwrites.place, hcells]
      rfl
    exact ⟨m, hm, hend ▸ (hwrites.ordered Weaver.ordered_start).bounded m hm⟩

/-- Behind some mapping is every place that is not in front of the code. -/
theorem isSome_mappingAt?_iff (htidy : d.Tidy) (hnames : d.Names P)
    (hmappings : (d.weave .start).mappings ≠ []) (place : Mark) :
    (d.program.map.mappingAt? place).isSome = true ↔ Mark.origin.upTo place = true := by
  have hordered := (d.writes_weave_start htidy).ordered Weaver.ordered_start
  have hwoven : (d.weave .start).Names P := Document.Names.weave .start hnames
  rw [Document.program, SourceMap.mappingAt?_reverse hordered.sorted, List.find?_isSome]
  constructor
  · rintro ⟨m, hm, hle⟩
    exact Mark.upTo_trans (hwoven.generated m hm) hle
  · intro hplace
    obtain ⟨m, hm, hfirst⟩ := exists_mapping_upTo_origin htidy hmappings
    exact ⟨m, hm, Mark.upTo_trans hfirst hplace⟩

/-- **Lookups are exact for the characters of the code and beside its lines**, in the programs of
tidy documents. -/
theorem locates (htidy : d.Tidy) (hnames : d.Names P) (hmappings : d.program.map.mappings ≠ []) :
    d.program.Locates P := by
  intro place
  have hwoven : (d.weave .start).Names P := Document.Names.weave .start hnames
  have hmade : (d.weave .start).mappings ≠ [] := fun h => hmappings (congrArg List.reverse h)
  have hcode : d.program.code.toList = d.text.toList := congrArg String.toList (d.code_program htidy)
  have hstop : d.program.map.stop = Mark.origin.after d.text.toList := by
    rw [← d.map_char_cells .origin]
    exact (d.writes_weave_start htidy).place
  obtain ⟨found, hfound, happroximate, horigin⟩ := SourceMap.exists_origin? hmappings place
  rw [isSome_mappingAt?_iff htidy hnames hmade, hstop,
    Mark.between_iff (Nat.le_refl 1)] at happroximate
  rw [hcode]
  refine ⟨found, hfound, happroximate, fun hbeside => ?_⟩
  cases hexact : found.approximate with
  | true =>
    obtain ⟨m, hm, heq⟩ := horigin hexact
    rw [heq]
    exact hwoven.origins m (List.mem_reverse.mp hm)
  | false =>
    have halong := (happroximate.mp hexact).resolve_right hbeside
    rw [← d.map_place_cells] at halong
    obtain ⟨c, hc, rfl⟩ := List.mem_map.mp halong
    rw [d.origin?_program htidy c hc] at hfound
    obtain rfl := Option.some.inj hfound
    exact hnames.cells .origin c hc

/-- What a document names does not depend on its numbers, nor does where it leads. -/
theorem locates_of_bare (htidy : d.Tidy) (hnames : d.bare.Names P)
    (hmappings : d.program.map.mappings ≠ []) : d.program.Locates P := by
  have hbare : d.bare.Tidy := d.tidy_bare.mpr htidy
  have hcode : d.bare.program.code = d.program.code := by
    rw [d.bare.code_program hbare, d.text_bare, d.code_program htidy]
  rw [← d.map_program_bare] at hmappings
  have hlocates := locates hbare hnames hmappings
  unfold Program.Locates at hlocates ⊢
  rwa [d.map_program_bare, hcode] at hlocates

end Document

end Stencil
