import Stencil.Proofs.Program.Cell

/-! # Origins of code

The source map of a program gives every character its own origin.  A weaver is read as a function
from places to origins: what its mappings say of a place.  Mapping and writing only ever change what
is told of the place behind the code and of those after it, so what is told of a character when it
is written stays; and while code that comes from one origin as a whole is written, every place ahead
is told to come from that origin.
-/
namespace Stencil

/-! ## What is told of a place -/

/-- The origin that a mapping gives to a place that it holds for. -/
def Mapping.tells (m : Mapping) (place : Mark) : Origin :=
  if m.verbatim && m.generated.line == place.line then m.countOn place else m.origin

namespace Weaver

/-- The origin that the mappings of a weaver give to a place. -/
def tells (w : Weaver) (place : Mark) : Option Origin :=
  (w.mappings.find? fun m => m.generated.upTo place).map (·.tells place)

/-- Everything ahead is told to come from an origin as a whole. -/
def Speaks (w : Weaver) (o : Origin) : Prop :=
  ∀ p, w.place.upTo p = true → w.tells p = some o

/-- The rest of the line is told to be copied from an origin on. -/
def Copies (w : Weaver) (o : Origin) : Prop :=
  ∀ p, w.place.upTo p = true → p.line = w.place.line →
    w.tells p = some { o with mark.column := o.mark.column + (p.column - w.place.column) }

/-- The mappings of a weaver stand in the order of the code, the last one first, and none of them
behind its end. -/
structure Ordered (w : Weaver) : Prop where
  sorted : w.mappings.Pairwise fun a b => b.generated.before a.generated = true
  bounded : ∀ m ∈ w.mappings, m.generated.upTo w.place = true

/-- What a weaver has written when it has become another one: the code of some cells, each of which
is told to come from its origin.  Of the code before nothing else is told than was. -/
structure Writes (w w' : Weaver) (cells : List Cell) : Prop where
  code : w'.code = (cells.map Cell.char).reverse ++ w.code
  place : w'.place = w.place.after (cells.map Cell.char)
  kept : ∀ p, p.before w.place = true → w'.tells p = w.tells p
  told : ∀ c ∈ cells, c.place.before w'.place = true ∧ w'.tells c.place = some c.origin
  ordered : w.Ordered → w'.Ordered

variable {w w' w'' : Weaver} {o : Origin}

theorem Writes.refl (w : Weaver) : Writes w w [] :=
  ⟨rfl, rfl, fun _ _ => rfl, fun c hc => absurd hc (by simp), id⟩

theorem Writes.trans {xs ys : List Cell} (h : Writes w w' xs) (h' : Writes w' w'' ys) :
    Writes w w'' (xs ++ ys) where
  code := by rw [h'.code, h.code, List.map_append, List.reverse_append, List.append_assoc]
  place := by rw [h'.place, h.place, List.map_append, Mark.after_append]
  kept p hp := by
    have hle : w.place.upTo w'.place = true := h.place ▸ w.place.upTo_after _
    rw [h'.kept p (Mark.before_of_before_of_upTo hp hle), h.kept p hp]
  told c hc := by
    rcases List.mem_append.mp hc with hc | hc
    · obtain ⟨hbefore, htold⟩ := h.told c hc
      have hle : w'.place.upTo w''.place = true := h'.place ▸ w'.place.upTo_after _
      exact ⟨Mark.before_of_before_of_upTo hbefore hle, by rw [h'.kept _ hbefore, htold]⟩
    · exact h'.told c hc
  ordered hw := h'.ordered (h.ordered hw)

/-! ## Mapping -/

theorem mappings_map (w : Weaver) (o : Origin) (verbatim : Bool) :
    ∃ rest, (w.map o verbatim).mappings = ⟨w.place, o, verbatim⟩ :: rest ∧
      (rest = w.mappings ∨ ∃ last, w.mappings = last :: rest ∧ last.generated = w.place) := by
  unfold Weaver.map
  rcases w.mappings with _ | ⟨last, rest⟩
  · exact ⟨[], rfl, .inl rfl⟩
  · by_cases hlast : last.generated = w.place
    · exact ⟨rest, by simp [hlast], .inr ⟨last, rfl, hlast⟩⟩
    · exact ⟨last :: rest, by simp [hlast], .inl rfl⟩

@[simp] theorem place_map (w : Weaver) (o : Origin) (verbatim : Bool) :
    (w.map o verbatim).place = w.place := by
  unfold Weaver.map
  split
  · split <;> rfl
  · rfl

@[simp] theorem code_map (w : Weaver) (o : Origin) (verbatim : Bool) :
    (w.map o verbatim).code = w.code := by
  unfold Weaver.map
  split
  · split <;> rfl
  · rfl

/-- The mappings that are left when a new one is added stand before it. -/
theorem before_of_mem_map (hw : w.Ordered) {o : Origin} {verbatim : Bool} {rest : List Mapping}
    (hmap : (w.map o verbatim).mappings = ⟨w.place, o, verbatim⟩ :: rest) :
    rest.Pairwise (fun a b => b.generated.before a.generated = true) ∧
      ∀ m ∈ rest, m.generated.before w.place = true := by
  obtain ⟨hsorted, hbounded⟩ := hw
  unfold Weaver.map at hmap
  rcases hold : w.mappings with _ | ⟨last, older⟩
  · rw [hold] at hmap
    obtain rfl : [] = rest := (List.cons.inj hmap).2
    simp
  · rw [hold] at hmap hsorted hbounded
    obtain ⟨hrel, holder⟩ := List.pairwise_cons.mp hsorted
    by_cases hlast : last.generated = w.place
    · obtain rfl : older = rest := by simpa [hlast] using hmap
      exact ⟨holder, fun m hm => hlast ▸ hrel m hm⟩
    · obtain rfl : last :: older = rest := by simpa [hlast] using hmap
      have hbefore : last.generated.before w.place = true :=
        (Mark.eq_or_before_of_upTo (hbounded last List.mem_cons_self)).resolve_left hlast
      refine ⟨hsorted, fun m hm => ?_⟩
      rcases List.mem_cons.mp hm with rfl | hm
      · exact hbefore
      · exact Mark.before_of_before_of_upTo (hrel m hm) (Mark.upTo_of_before hbefore)

theorem ordered_map (hw : w.Ordered) (o : Origin) (verbatim : Bool) :
    (w.map o verbatim).Ordered := by
  obtain ⟨rest, hmap, -⟩ := mappings_map w o verbatim
  obtain ⟨hsorted, hbefore⟩ := before_of_mem_map hw hmap
  refine ⟨?_, fun m hm => ?_⟩
  · rw [hmap]
    exact List.pairwise_cons.mpr ⟨hbefore, hsorted⟩
  · rw [hmap] at hm
    rw [place_map]
    rcases List.mem_cons.mp hm with rfl | hm
    · exact Mark.upTo_refl _
    · exact Mark.upTo_of_before (hbefore m hm)

/-- Mapping says nothing else of the code so far. -/
theorem writes_map (w : Weaver) (o : Origin) (verbatim : Bool) :
    Writes w (w.map o verbatim) [] where
  code := code_map w o verbatim
  place := place_map w o verbatim
  kept p hp := by
    -- both the new mapping and the one that gives way hold only for places that are ahead
    have hnot : ∀ m : Mapping, m.generated = w.place → m.generated.upTo p = false := by
      intro m hm
      rw [hm]
      exact Bool.eq_false_iff.mpr (Mark.not_upTo_iff.mpr hp)
    obtain ⟨rest, hmap, hrest⟩ := mappings_map w o verbatim
    rw [tells, tells, hmap, List.find?_cons_of_neg (by rw [hnot _ rfl]; simp)]
    rcases hrest with rfl | ⟨last, hlast, hplace⟩
    · rfl
    · rw [hlast, List.find?_cons_of_neg (by rw [hnot last hplace]; simp)]
  told c hc := absurd hc (by simp)
  ordered hw := ordered_map hw o verbatim

theorem tells_map (w : Weaver) (o : Origin) (verbatim : Bool) {p : Mark}
    (hp : w.place.upTo p = true) :
    (w.map o verbatim).tells p = some ((⟨w.place, o, verbatim⟩ : Mapping).tells p) := by
  obtain ⟨rest, hmap, -⟩ := mappings_map w o verbatim
  rw [tells, hmap, List.find?_cons_of_pos (by simpa using hp)]
  rfl

theorem speaks_map (w : Weaver) (o : Origin) : (w.map o false).Speaks o := by
  intro p hp
  rw [place_map] at hp
  rw [tells_map w o false hp]
  rfl

theorem copies_map (w : Weaver) (o : Origin) : (w.map o true).Copies o := by
  intro p hp hline
  rw [place_map] at hp hline ⊢
  rw [tells_map w o true hp, Mapping.tells, if_pos (by simp [hline])]
  rfl

/-! ## Writing -/

/-- A character is told to come from wherever the place ahead is. -/
theorem writes_put (c : Char) {o : Origin} {copied : Bool} (ho : w.tells w.place = some o) :
    Writes w (w.put c) [⟨c, o, copied, w.place, []⟩] where
  code := rfl
  place := rfl
  kept _ _ := rfl
  told := by
    intro d hd
    obtain rfl := List.mem_singleton.mp hd
    exact ⟨w.place.before_advance c, ho⟩
  ordered hw := ⟨hw.sorted, fun m hm =>
    Mark.upTo_trans (hw.bounded m hm) (Mark.upTo_of_before (w.place.before_advance c))⟩

theorem speaks_put (h : w.Speaks o) (c : Char) : (w.put c).Speaks o :=
  fun p hp => h p (Mark.upTo_trans (Mark.upTo_of_before (w.place.before_advance c)) hp)

theorem copies_put (h : w.Copies o) {c : Char} (hc : c ≠ '\n') :
    (w.put c).Copies { o with mark := o.mark.advance c } := by
  intro p hp hline
  have hplace : (w.put c).place = ⟨w.place.line, w.place.column + 1⟩ := by
    rw [put, Mark.advance, if_neg hc]
  rw [hplace] at hp hline ⊢
  rw [Mark.upTo_iff] at hp
  have htells := h p (by rw [Mark.upTo_iff]; simp only at hp; omega) hline
  show w.tells p = _
  rw [htells, Mark.advance, if_neg hc]
  have : o.mark.column + (p.column - w.place.column) =
      o.mark.column + 1 + (p.column - (w.place.column + 1)) := by
    simp only at hp hline
    omega
  rw [this]

/-- Code that is written while everything ahead is told to come from one origin comes from it. -/
theorem writes_putCode (h : w.Speaks o) (cs : List Char) :
    Writes w (w.putCode (some o) cs) (Cell.made o w.place cs) ∧
      (w.putCode (some o) cs).Speaks o := by
  induction cs generalizing w with
  | nil => exact ⟨.refl w, h⟩
  | cons c cs ih =>
    have hput : Writes w (w.put c) [⟨c, o, false, w.place, []⟩] :=
      writes_put c (h _ (Mark.upTo_refl _))
    rw [putCode, Cell.made]
    by_cases hc : c = '\n'
    · rw [if_pos hc]
      -- the next line is mapped anew, to the same origin
      obtain ⟨hwrites, hspeaks⟩ := ih (speaks_map (w.put c) o)
      rw [place_map] at hwrites
      exact ⟨hput.trans ((writes_map _ o false).trans hwrites), hspeaks⟩
    · rw [if_neg hc]
      obtain ⟨hwrites, hspeaks⟩ := ih (speaks_put h c)
      exact ⟨hput.trans hwrites, hspeaks⟩

/-- Copied text comes from its own place, line after line. -/
theorem writes_putCopied {start : Origin} (h : w.Copies o) (hsource : start.source = o.source)
    (hline : start.mark.line = o.mark.line) (cs : List Char) :
    Writes w (w.putCopied start cs) (Cell.copiedFrom o w.place cs) := by
  induction cs generalizing w o start with
  | nil => exact .refl w
  | cons c cs ih =>
    have ho : w.tells w.place = some o := by
      rw [h _ (Mark.upTo_refl _) rfl, Nat.sub_self, Nat.add_zero]
    have hput : Writes w (w.put c) [⟨c, o, true, w.place, []⟩] := writes_put c ho
    rw [putCopied, Cell.copiedFrom]
    by_cases hc : c = '\n'
    -- a new line begins at column one of the file, wherever the span has begun
    · have hnext : ({ start with mark := ⟨start.mark.line + 1, 1⟩ } : Origin) =
          { o with mark := o.mark.advance c } := by
        rw [Mark.advance, if_pos hc, hsource, hline]
      simp only [if_pos hc]
      rw [hnext]
      have hwrites := ih (copies_map (w.put c) { o with mark := o.mark.advance c }) rfl rfl
      rw [place_map] at hwrites
      exact hput.trans ((writes_map _ _ true).trans hwrites)
    · rw [if_neg hc]
      refine hput.trans (ih (copies_put h hc) hsource ?_)
      rw [Mark.advance, if_neg hc]
      exact hline

theorem writes_putVerbatim (w : Weaver) (o : Origin) (cs : List Char) :
    Writes w (w.putVerbatim (some o) cs) (Cell.copiedFrom o w.place cs) := by
  have hwrites := writes_putCopied (copies_map w o) rfl rfl cs
  rw [place_map] at hwrites
  exact (writes_map w o true).trans hwrites

theorem writes_meet (w : Weaver) (d : Document) : Writes w (w.meet d) [] := by
  unfold meet
  split
  · exact .refl w
  · exact ⟨rfl, rfl, fun _ _ => rfl, fun c hc => absurd hc (by simp), fun hw => ⟨hw.1, hw.2⟩⟩

theorem writes_occur (w : Weaver) (directive : Origin) (d : Document) (start : Mark) :
    Writes w (w.occur directive d start) [] :=
  ⟨rfl, rfl, fun _ _ => rfl, fun c hc => absurd hc (by simp), fun hw => ⟨hw.1, hw.2⟩⟩

theorem Writes.under {cells : List Cell} (h : Writes w w' cells) (occurrence : Occurrence) :
    Writes w w' (cells.map (Cell.under occurrence)) where
  code := by rw [h.code, List.map_map]; rfl
  place := by rw [h.place, List.map_map]; rfl
  kept := h.kept
  told := by
    intro c hc
    obtain ⟨d, hd, rfl⟩ := List.mem_map.mp hc
    exact h.told d hd
  ordered := h.ordered

end Weaver

/-! ## Tidy documents -/

/-- Whether a piece is a fragment. -/
def Chunk.IsFragment : Chunk → Prop
  | .fragment _ _ => True
  | _ => False

mutual

/-- A piece of the document at a path in which copied text stands only in fragments of its own, and
all code in fragments that come from the file. -/
def Chunk.Tidy (path : String) : Chunk → Prop
  | .code _ | .gap _ => True
  | .verbatim _ => False
  | .fragment own chunks =>
    (∃ o, own = some o ∧ o.source = path) ∧
      ((∃ text, chunks = [.verbatim text]) ∨ TidyChunks path chunks)
  | .inclusion directive document => directive.source = path ∧ document.Tidy

/-- Pieces that are tidy. -/
def TidyChunks (path : String) : List Chunk → Prop
  | [] => True
  | c :: cs => c.Tidy path ∧ TidyChunks path cs

/-- A document that consists of tidy fragments. -/
def Document.Tidy : Document → Prop
  | .mk stamp chunks => TidyChunks stamp.path chunks ∧ ∀ c ∈ chunks, c.IsFragment

end

open Weaver

mutual

/-- A tidy piece comes from where its cells say, and gives the word back to the origin around it. -/
theorem Chunk.writes_weave {w : Weaver} {path : String} (origin : Option Origin) :
    ∀ c : Chunk, c.Tidy path → (origin = none → c.IsFragment) → (∀ o ∈ origin, w.Speaks o) →
      Writes w (c.weave origin w) (c.cells origin w.place) ∧
        ∀ o ∈ origin, (c.weave origin w).Speaks o
  | .code _, _, hfree, hspeaks | .gap _, _, hfree, hspeaks => by
    obtain _ | o := origin
    · cases hfree rfl
    · refine ⟨(writes_putCode (hspeaks o rfl) _).1, fun o' ho' => ?_⟩
      obtain rfl := Option.some.inj ho'
      exact (writes_putCode (hspeaks o rfl) _).2
  | .verbatim _, htidy, _, _ => by cases htidy
  | .fragment own? chunks, htidy, _, _ => by
    obtain ⟨⟨own, rfl, -⟩, hinside⟩ := htidy
    -- what is in the fragment, up to where the origin around it takes over again
    have hinner : Writes w (weaveChunks (some own) (w.map own false) chunks)
        (cellsOfChunks (some own) w.place chunks) := by
      have hmap := writes_map w own false
      have hplace := place_map w own false
      rcases hinside with ⟨text, rfl⟩ | hinside
      · have hcopy := writes_putVerbatim (w.map own false) own text.toList
        rw [hplace] at hcopy
        have hcells : cellsOfChunks (some own) w.place [.verbatim text] =
            Cell.copiedFrom own w.place text.toList := List.append_nil _
        exact hcells ▸ hmap.trans hcopy
      · have hchunks := (writes_weaveChunks (w := w.map own false) (some own) chunks hinside
          (fun h => by cases h)
          (fun o ho => by obtain rfl := Option.some.inj ho; exact speaks_map w own)).1
        rw [hplace] at hchunks
        exact hmap.trans hchunks
    obtain _ | o := origin
    · exact ⟨hinner, fun o ho => by cases ho⟩
    · refine ⟨?_, fun o' ho' => ?_⟩
      · have hback := hinner.trans (writes_map _ o false)
        rwa [List.append_nil] at hback
      · obtain rfl := Option.some.inj ho'
        exact speaks_map _ o
  | .inclusion directive document, htidy, hfree, _ => by
    obtain _ | o := origin
    · cases hfree rfl
    · have hdocument := document.writes_weave (w := w) htidy.2
      refine ⟨?_, fun o' ho' => ?_⟩
      · have hback := ((hdocument.under (document.occurrenceAt directive w.place)).trans
          (writes_occur _ directive document w.place)).trans (writes_map _ o false)
        rwa [List.append_nil, List.append_nil] at hback
      · obtain rfl := Option.some.inj ho'
        exact speaks_map _ o

theorem writes_weaveChunks {w : Weaver} {path : String} (origin : Option Origin) :
    ∀ cs : List Chunk, TidyChunks path cs → (origin = none → ∀ c ∈ cs, c.IsFragment) →
      (∀ o ∈ origin, w.Speaks o) →
      Writes w (weaveChunks origin w cs) (cellsOfChunks origin w.place cs) ∧
        ∀ o ∈ origin, (weaveChunks origin w cs).Speaks o
  | [], _, _, hspeaks => ⟨.refl w, hspeaks⟩
  | c :: cs, htidy, hfree, hspeaks => by
    obtain ⟨hhead, hmiddle⟩ := c.writes_weave origin htidy.1
      (fun h => hfree h c List.mem_cons_self) hspeaks
    obtain ⟨htail, hafter⟩ := writes_weaveChunks (w := c.weave origin w) origin cs htidy.2
      (fun h d hd => hfree h d (List.mem_cons_of_mem c hd)) hmiddle
    rw [hhead.place, c.map_char_cells] at htail
    exact ⟨hhead.trans htail, hafter⟩

/-- A tidy document comes from where its cells say. -/
theorem Document.writes_weave {w : Weaver} :
    ∀ d : Document, d.Tidy → Writes w (d.weave w) (d.cells w.place)
  | .mk stamp chunks, htidy => by
    have hmeet := writes_meet w (.mk stamp chunks)
    have hplace : (w.meet (.mk stamp chunks)).place = w.place := hmeet.place
    have hchunks := (writes_weaveChunks (w := w.meet (.mk stamp chunks)) none chunks htidy.1
      (fun _ => htidy.2) (fun o ho => by cases ho)).1
    rw [hplace] at hchunks
    exact hmeet.trans hchunks

end

/-! ## Looking up -/

/-- The last mapping at or before a place is the first one from the end. -/
theorem SourceMap.mappingAt?_reverse {ms : List Mapping} {stop place : Mark}
    (hsorted : ms.Pairwise fun a b => b.generated.before a.generated = true) :
    (SourceMap.mk ms.reverse stop).mappingAt? place =
      ms.find? fun m => m.generated.upTo place := by
  rw [mappingAt?]
  induction ms with
  | nil => rfl
  | cons m ms ih =>
    obtain ⟨hrel, hrest⟩ := List.pairwise_cons.mp hsorted
    by_cases hm : m.generated.upTo place = true
    · have hall : ∀ x ∈ ms.reverse, x.generated.upTo place = true := fun x hx =>
        Mark.upTo_trans (Mark.upTo_of_before (hrel x (List.mem_reverse.mp hx))) hm
      rw [List.find?_cons_of_pos (by exact hm), List.reverse_cons,
        List.takeWhile_append_of_pos hall]
      simp [hm]
    · have hnew : [m].takeWhile (fun m => m.generated.upTo place) = [] := by simp [hm]
      rw [List.find?_cons_of_neg (by exact hm), ← ih hrest, List.reverse_cons,
        List.takeWhile_append, hnew, List.append_nil]
      split
      · rename_i hall
        rw [(List.takeWhile_prefix _).eq_of_length hall]
      · rfl

/-- What is told of the place of a mapping is told by this mapping, since all later ones stand
behind it. -/
theorem find?_generated {ms : List Mapping}
    (hsorted : ms.Pairwise fun a b => b.generated.before a.generated = true) {m : Mapping}
    (hm : m ∈ ms) : ms.find? (fun x => x.generated.upTo m.generated) = some m := by
  obtain ⟨later, earlier, rfl⟩ := List.append_of_mem hm
  refine List.find?_eq_some_iff_append.mpr ⟨Mark.upTo_refl _, later, earlier, rfl, fun x hx => ?_⟩
  have hlater := (List.pairwise_append.mp hsorted).2.2 x hx m List.mem_cons_self
  simpa using Mark.not_upTo_iff.mpr hlater

theorem Weaver.ordered_start : Weaver.start.Ordered :=
  ⟨List.Pairwise.nil, fun m hm => by cases hm⟩

/-- **The source map of a tidy document gives every character its own origin**, and never an
approximate one. -/
theorem Document.origin?_program {root : Document} (htidy : root.Tidy) :
    ∀ c ∈ root.cells .origin, root.program.map.origin? c.place = some ⟨c.origin, false⟩ := by
  intro c hc
  have hwrites := root.writes_weave (w := .start) htidy
  obtain ⟨hbefore, htold⟩ := hwrites.told c hc
  have hsorted := (hwrites.ordered Weaver.ordered_start).sorted
  obtain ⟨m, hm, htells⟩ := Option.map_eq_some_iff.mp htold
  have hstop : (root.weave .start).place.upTo c.place = false :=
    Bool.eq_false_iff.mpr (Mark.not_upTo_iff.mpr hbefore)
  rw [Document.program, SourceMap.origin?, SourceMap.mappingAt?_reverse hsorted, hm]
  simp only [hstop, Bool.false_eq_true, if_false]
  rw [← htells, Mapping.tells]
  split <;> rfl

end Stencil
