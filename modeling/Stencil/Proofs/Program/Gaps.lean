import Stencil.Proofs.Program.Numbers

/-! # Gaps

The gaps that failed directives have left in a program, each with its own place in the code and the
directives around it.  The failures that a program records are those of its gaps; the place that it
gives to a failure is looked up in the source map by the origin alone, so it is the first place that
is mapped to this origin.  In a document that keeps the origins of some directives free, this is the
first gap that the directive has left.
-/
namespace Stencil

/-- A directive of a program that could not be resolved. -/
structure Unresolved where
  failure : Failure
  /-- The directives that it was inserted by, innermost first. -/
  around : List Origin
  deriving DecidableEq, Repr, Inhabited

/-- A directive that one more directive inserts. -/
def Unresolved.within (directive : Origin) (u : Unresolved) : Unresolved :=
  { u with around := u.around ++ [directive] }

/-- What a directive that could not be resolved has left in the code. -/
structure Gap extends Unresolved where
  place : Mark
  deriving DecidableEq, Repr, Inhabited

namespace Gap

/-- A gap that one more directive inserts. -/
def within (directive : Origin) (g : Gap) : Gap := { g with around := g.around ++ [directive] }

/-- The character of a gap. -/
def emitted (g : Gap) : Emitted := ⟨' ', g.failure.origin, false, g.around⟩

/-- The failure of a gap at a place. -/
def placedAt (g : Gap) (place : Option Mark) : PlacedFailure := ⟨g.failure, place⟩

theorem emitted_within (directive : Origin) (g : Gap) :
    (g.within directive).emitted = g.emitted.within directive := rfl

end Gap

/-! ## The gaps of a document -/

mutual

/-- The gaps in a piece that comes from `origin` and whose code begins at a place. -/
def Chunk.gaps (origin : Option Origin) (place : Mark) : Chunk → List Gap
  | .gap error => [⟨⟨⟨origin.getD default, error⟩, []⟩, place⟩]
  | .fragment own chunks => gapsOfChunks (own <|> origin) place chunks
  | .inclusion directive document => (document.gaps place).map (Gap.within directive)
  | _ => []

/-- The gaps in pieces. -/
def gapsOfChunks (origin : Option Origin) (place : Mark) : List Chunk → List Gap
  | [] => []
  | c :: cs => c.gaps origin place ++ gapsOfChunks origin (place.after c.text.toList) cs

/-- The gaps in a document and in all that it includes, in the order of the code. -/
def Document.gaps (place : Mark) : Document → List Gap
  | .mk _ chunks => gapsOfChunks none place chunks

end

mutual

theorem Chunk.gaps_bare (origin : Option Origin) (place : Mark) :
    ∀ c : Chunk, c.bare.gaps origin place = c.gaps origin place
  | .code _ | .verbatim _ | .gap _ => rfl
  | .fragment own chunks => by
    rw [Chunk.bare, Chunk.gaps, gaps_bareChunks _ _ chunks, Chunk.gaps]
  | .inclusion _ document => by rw [Chunk.bare, Chunk.gaps, document.gaps_bare, Chunk.gaps]

theorem gaps_bareChunks (origin : Option Origin) (place : Mark) :
    ∀ cs : List Chunk, gapsOfChunks origin place (bareChunks cs) = gapsOfChunks origin place cs
  | [] => rfl
  | c :: cs => by
    rw [bareChunks, gapsOfChunks, c.gaps_bare, c.text_bare, gaps_bareChunks _ _ cs, gapsOfChunks]

theorem Document.gaps_bare (place : Mark) : ∀ d : Document, d.bare.gaps place = d.gaps place
  | .mk _ chunks => by rw [Document.bare, Document.gaps, gaps_bareChunks _ _ chunks, Document.gaps]

end

/-- The place of a cell with its character. -/
def Cell.placed (c : Cell) : Mark × Emitted := (c.place, c.emitted)

/-- The place of a gap with its character. -/
def Gap.placed (g : Gap) : Mark × Emitted := (g.place, g.emitted)

mutual

theorem Chunk.sublist_gaps (origin : Option Origin) (place : Mark) : ∀ c : Chunk,
    ((c.gaps origin place).map Gap.placed).Sublist ((c.cells origin place).map Cell.placed)
  | .code _ | .verbatim _ => List.nil_sublist _
  | .gap _ => List.Sublist.refl _
  | .fragment own chunks => by
    rw [Chunk.gaps, Chunk.cells]
    exact sublist_gapsOfChunks (own <|> origin) place chunks
  | .inclusion directive document => by
    have hdocument := (document.sublist_gaps place).map
      (Prod.map id (Emitted.within directive))
    rw [List.map_map, List.map_map] at hdocument
    have hcell : Prod.map id (Emitted.within directive) ∘ Cell.placed =
        Cell.placed ∘ Cell.under (document.occurrenceAt directive place) :=
      funext fun c => Prod.ext rfl (c.emitted_under (document.occurrenceAt directive place)).symm
    rw [Chunk.gaps, Chunk.cells, List.map_map, List.map_map, ← hcell]
    exact hdocument

theorem sublist_gapsOfChunks (origin : Option Origin) (place : Mark) : ∀ cs : List Chunk,
    ((gapsOfChunks origin place cs).map Gap.placed).Sublist
      ((cellsOfChunks origin place cs).map Cell.placed)
  | [] => List.nil_sublist _
  | c :: cs => by
    rw [gapsOfChunks, cellsOfChunks, List.map_append, List.map_append]
    exact (c.sublist_gaps origin place).append (sublist_gapsOfChunks origin _ cs)

/-- Every gap of a document is a cell of its own, and the gaps stand in the order of the cells. -/
theorem Document.sublist_gaps (place : Mark) : ∀ d : Document,
    ((d.gaps place).map Gap.placed).Sublist ((d.cells place).map Cell.placed)
  | .mk _ chunks => sublist_gapsOfChunks none place chunks

end

/-- The marks of a text stand in order. -/
theorem Mark.pairwise_along (m : Mark) (cs : List Char) :
    (m.along cs).Pairwise fun a b => a.before b = true := by
  induction cs generalizing m with
  | nil => exact .nil
  | cons c cs ih =>
    refine List.pairwise_cons.mpr ⟨fun p hp => ?_, ih _⟩
    exact before_of_before_of_upTo (m.before_advance c) (mem_along hp).1

namespace Document

variable (d : Document) (place : Mark)

/-- The gaps of a document stand in the order of the code, no two of them at the same place. -/
theorem pairwise_gaps : (d.gaps place).Pairwise fun g h => g.place.before h.place = true := by
  have hcells : ((d.cells place).map Cell.placed).Pairwise fun a b => a.1.before b.1 = true := by
    have hplaces := Mark.pairwise_along place d.text.toList
    rw [← d.map_place_cells place] at hplaces
    rw [List.pairwise_map] at hplaces ⊢
    exact hplaces
  have hgaps := hcells.sublist (d.sublist_gaps place)
  rwa [List.pairwise_map] at hgaps

variable {d place}

/-- A gap is one of the cells. -/
theorem exists_cell_of_mem_gaps {g : Gap} (hg : g ∈ d.gaps place) :
    ∃ c ∈ d.cells place, c.place = g.place ∧ c.emitted = g.emitted := by
  obtain ⟨c, hc, hplaced⟩ := List.mem_map.mp
    ((d.sublist_gaps place).subset (List.mem_map_of_mem hg))
  exact ⟨c, hc, (Prod.mk.inj hplaced).1, (Prod.mk.inj hplaced).2⟩

end Document

/-! ## The failures of a document -/

mutual

theorem Chunk.perm_gaps (origin : Option Origin) (place : Mark) : ∀ c : Chunk,
    ((c.gaps origin place).map fun g => g.failure).Perm
      (c.failures origin ++ c.documents.flatMap Document.failures)
  | .code _ | .verbatim _ => .nil
  | .gap _ => .refl _
  | .fragment own chunks => perm_gapsOfChunks (own <|> origin) place chunks
  | .inclusion directive document => by
    rw [Chunk.gaps, List.map_map]
    exact document.perm_gaps place

theorem perm_gapsOfChunks (origin : Option Origin) (place : Mark) : ∀ cs : List Chunk,
    ((gapsOfChunks origin place cs).map fun g => g.failure).Perm
      (failuresOfChunks origin cs ++ (documentsOfChunks cs).flatMap Document.failures)
  | [] => .nil
  | c :: cs => by
    have hboth := (c.perm_gaps origin place).append
      (perm_gapsOfChunks origin (place.after c.text.toList) cs)
    rw [gapsOfChunks, List.map_append, failuresOfChunks, documentsOfChunks, List.flatMap_append]
    refine hboth.trans ?_
    rw [List.append_assoc, List.append_assoc]
    exact (List.perm_append_comm_assoc _ _ _).append_left _

/-- The failures of a document and of all that it includes are those of its gaps. -/
theorem Document.perm_gaps (place : Mark) : ∀ d : Document,
    ((d.gaps place).map fun g => g.failure).Perm (d.withIncluded.flatMap Document.failures)
  | .mk _ chunks => perm_gapsOfChunks none place chunks

end

/-- **The failures of a program are those of its gaps.** Each of them is placed where the source map
leads its origin first. -/
theorem Document.perm_failures {root : Document} {lo hi : Nat}
    (h : Apart lo hi root.withIncluded) :
    root.program.failures.Perm ((root.gaps .origin).map fun g =>
      g.placedAt (root.program.map.generatedFor g.failure.origin).head?) := by
  have hgaps := (root.perm_gaps .origin).map fun f =>
    (⟨f, (root.program.map.generatedFor f.origin).head?⟩ : PlacedFailure)
  rw [List.map_map] at hgaps
  rw [root.failures_program h]
  exact hgaps.symm

/-! ## Documents that keep origins free -/

mutual

/-- A piece in which every gap stands alone in a fragment of its own, and no other code comes from a
reserved origin. -/
def Chunk.Clear (reserved : Origin → Prop) (origin : Option Origin) : Chunk → Prop
  | .code _ => ¬ reserved (origin.getD default)
  | .verbatim text => ∀ m ∈ (origin.getD default).mark.along text.toList,
    ¬ reserved ⟨(origin.getD default).source, m⟩
  | .gap _ => False
  | .fragment own chunks =>
    (∃ o error, own = some o ∧ chunks = [.gap error]) ∨ ClearChunks reserved (own <|> origin) chunks
  | .inclusion _ document => document.Clear reserved

/-- Pieces that keep the reserved origins free. -/
def ClearChunks (reserved : Origin → Prop) (origin : Option Origin) : List Chunk → Prop
  | [] => True
  | c :: cs => c.Clear reserved origin ∧ ClearChunks reserved origin cs

/-- A document that keeps the reserved origins free. -/
def Document.Clear (reserved : Origin → Prop) : Document → Prop
  | .mk _ chunks => ClearChunks reserved none chunks

end

theorem clearChunks_iff {reserved : Origin → Prop} {origin : Option Origin} {cs : List Chunk} :
    ClearChunks reserved origin cs ↔ ∀ c ∈ cs, c.Clear reserved origin := by
  induction cs with
  | nil => simp [ClearChunks]
  | cons c cs ih => rw [ClearChunks, ih, List.forall_mem_cons]

namespace Cell

theorem origin_of_mem_made {origin : Origin} {place : Mark} {cs : List Char} {c : Cell}
    (h : c ∈ made origin place cs) : c.origin = origin := by
  induction cs generalizing place with
  | nil => cases h
  | cons d cs ih =>
    rcases List.mem_cons.mp h with rfl | h
    · rfl
    · exact ih h

theorem origin_of_mem_copiedFrom {origin : Origin} {place : Mark} {cs : List Char} {c : Cell}
    (h : c ∈ copiedFrom origin place cs) :
    ∃ m ∈ origin.mark.along cs, c.origin = ⟨origin.source, m⟩ := by
  induction cs generalizing origin place with
  | nil => cases h
  | cons d cs ih =>
    rcases List.mem_cons.mp h with rfl | h
    · exact ⟨_, List.mem_cons_self, rfl⟩
    · obtain ⟨m, hm, horigin⟩ := ih h
      exact ⟨m, List.mem_cons_of_mem _ hm, horigin⟩

end Cell

mutual

theorem Chunk.Clear.gap_of_reserved {reserved : Origin → Prop} {origin : Option Origin}
    {place : Mark} : ∀ {c : Chunk}, c.Clear reserved origin → ∀ x ∈ c.cells origin place,
      reserved x.origin → ∃ g ∈ c.gaps origin place, g.placed = x.placed
  | .code _, h, x, hx, hreserved => by
    rw [Cell.origin_of_mem_made hx] at hreserved
    exact absurd hreserved h
  | .verbatim _, h, x, hx, hreserved => by
    obtain ⟨m, hm, horigin⟩ := Cell.origin_of_mem_copiedFrom hx
    rw [horigin] at hreserved
    exact absurd hreserved (h m hm)
  | .gap _, h, _, _, _ => h.elim
  | .fragment own chunks, h, x, hx, hreserved => by
    rcases h with ⟨o, error, rfl, rfl⟩ | h
    · -- the gap is all that there is
      obtain rfl := List.mem_singleton.mp hx
      exact ⟨_, List.mem_cons_self, rfl⟩
    · exact ClearChunks.gap_of_reserved h x hx hreserved
  | .inclusion directive document, h, x, hx, hreserved => by
    obtain ⟨y, hy, rfl⟩ := List.mem_map.mp hx
    obtain ⟨g, hg, hplaced⟩ := Document.Clear.gap_of_reserved h y hy hreserved
    refine ⟨g.within directive, List.mem_map_of_mem hg, ?_⟩
    obtain ⟨hplace, hemitted⟩ := Prod.mk.inj hplaced
    refine Prod.ext hplace ?_
    show (g.within directive).emitted = (y.under _).emitted
    rw [g.emitted_within, hemitted, y.emitted_under]
    rfl

theorem ClearChunks.gap_of_reserved {reserved : Origin → Prop} {origin : Option Origin}
    {place : Mark} : ∀ {cs : List Chunk}, ClearChunks reserved origin cs →
      ∀ x ∈ cellsOfChunks origin place cs, reserved x.origin →
        ∃ g ∈ gapsOfChunks origin place cs, g.placed = x.placed
  | [], _, x, hx, _ => by cases hx
  | c :: cs, h, x, hx, hreserved => by
    rcases List.mem_append.mp hx with hx | hx
    · obtain ⟨g, hg, hplaced⟩ := h.1.gap_of_reserved x hx hreserved
      exact ⟨g, List.mem_append_left _ hg, hplaced⟩
    · obtain ⟨g, hg, hplaced⟩ := ClearChunks.gap_of_reserved h.2 x hx hreserved
      exact ⟨g, List.mem_append_right _ hg, hplaced⟩

/-- In a document that keeps origins free, the code that comes from one of them is a gap. -/
theorem Document.Clear.gap_of_reserved {reserved : Origin → Prop} {place : Mark} :
    ∀ {d : Document}, d.Clear reserved → ∀ x ∈ d.cells place, reserved x.origin →
      ∃ g ∈ d.gaps place, g.placed = x.placed
  | .mk _ _, h, x, hx, hreserved => ClearChunks.gap_of_reserved h x hx hreserved

end

end Stencil
