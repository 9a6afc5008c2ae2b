import Stencil.Proofs.Program.Code
import Stencil.Proofs.Program.Placing

/-! # Source maps are inverse to themselves

A weaver keeps its mappings in the strict order of their places, whatever pieces it writes: a place
that is mapped again is the one behind the code, and the mapping that it had gives way.  So each of
them stands where a character of the code begins or where the code ends, its line and column are
those of the line index of the code, and the search by halving finds the mappings up to a place.
What is mapped to an origin is then told to come from it, and what is told to come from an origin at
its own place is mapped to it.
-/
namespace Stencil

/-! ## Searching by halving -/

/-- The number of items that pass a test, when it is known that the first `lo` do and that none from
`hi` on does. -/
def partitionPoint {α : Type} (test : α → Bool) (xs : List α) (lo hi : Nat) : Nat :=
  if lo < hi then
    let mid := (lo + hi) / 2
    if xs[mid]?.any test then partitionPoint test xs (mid + 1) hi
    else partitionPoint test xs lo mid
  else lo
termination_by hi - lo

section
variable {α : Type} {test : α → Bool} {xs : List α}

/-- If an item passes only if all items in front of it do, those that pass stand first. -/
theorem test_getElem_iff (hsorted : xs.Pairwise fun a b => test b = true → test a = true) (i : Nat)
    (hi : i < xs.length) : test xs[i] = true ↔ i < (xs.takeWhile test).length := by
  induction xs generalizing i with
  | nil => exact absurd hi (Nat.not_lt_zero i)
  | cons x xs ih =>
    obtain ⟨hfirst, hrest⟩ := List.pairwise_cons.mp hsorted
    by_cases hx : test x = true
    · rw [List.takeWhile_cons_of_pos hx, List.length_cons]
      cases i with
      | zero => simpa using hx
      | succ i => simpa using ih hrest i (by simpa using hi)
    · rw [List.takeWhile_cons_of_neg hx, List.length_nil]
      cases i with
      | zero => simpa using hx
      | succ i =>
        have hi : i < xs.length := by simpa using hi
        have hnot (h : test xs[i] = true) : False := hx (hfirst _ (List.getElem_mem hi) h)
        simpa using hnot

/-- Halving finds where the items that pass end. -/
theorem partitionPoint_eq {count lo hi : Nat} (hlo : lo ≤ count) (hhi : count ≤ hi)
    (hlength : hi ≤ xs.length)
    (hcount : ∀ i (h : i < xs.length), test xs[i] = true ↔ i < count) :
    partitionPoint test xs lo hi = count := by
  fun_induction partitionPoint test xs lo hi with
  | case1 lo hi hlt mid hpasses ih =>
    have hmid : mid < xs.length := by omega
    rw [List.getElem?_eq_getElem hmid, Option.any_some, hcount mid hmid] at hpasses
    exact ih (by omega) hhi hlength
  | case2 lo hi hlt mid hfails ih =>
    have hmid : mid < xs.length := by omega
    rw [List.getElem?_eq_getElem hmid, Option.any_some, hcount mid hmid] at hfails
    exact ih hlo (by omega) (by omega)
  | case3 lo hi hle => omega

end

/-- The mapping that halving finds for a place: the last one of those up to it. -/
def SourceMap.halvingAt? (s : SourceMap) (place : Mark) : Option Mapping :=
  match partitionPoint (fun m => m.generated.upTo place) s.mappings 0 s.mappings.length with
  | 0 => none
  | count + 1 => s.mappings[count]?

/-- In the order of the code, halving finds the last mapping up to a place. -/
theorem SourceMap.halvingAt?_eq {s : SourceMap}
    (hsorted : s.mappings.Pairwise fun a b => a.generated.before b.generated = true)
    (place : Mark) : s.halvingAt? place = s.mappingAt? place := by
  let test (m : Mapping) : Bool := m.generated.upTo place
  have hfirst : s.mappings.Pairwise fun a b => test b = true → test a = true :=
    hsorted.imp fun hbefore hle => Mark.upTo_trans (Mark.upTo_of_before hbefore) hle
  have hlength : (s.mappings.takeWhile test).length ≤ s.mappings.length :=
    (List.takeWhile_prefix test).length_le
  have hcount : partitionPoint test s.mappings 0 s.mappings.length =
      (s.mappings.takeWhile test).length :=
    partitionPoint_eq (Nat.zero_le _) hlength (Nat.le_refl _) (test_getElem_iff hfirst)
  rw [halvingAt?, hcount, mappingAt?, List.getLast?_eq_getElem?]
  show (match (s.mappings.takeWhile test).length with
    | 0 => none
    | count + 1 => s.mappings[count]?) =
      (s.mappings.takeWhile test)[(s.mappings.takeWhile test).length - 1]?
  cases hlast : (s.mappings.takeWhile test).length with
  | zero =>
    rw [List.length_eq_zero_iff.mp hlast]
    rfl
  | succ count =>
    have hin : count < (s.mappings.takeWhile test).length := by omega
    show s.mappings[count]? = (s.mappings.takeWhile test)[count]?
    rw [List.getElem?_eq_getElem hin, List.getElem?_eq_getElem (by omega),
      (List.takeWhile_prefix test).getElem hin]

/-! ## Drawing the table -/

namespace Weaver

variable {w w' w'' : Weaver}

/-- A weaver that writes a text makes its mappings for the places of the text, and keeps all of them
in order. -/
structure Draws (w w' : Weaver) (text : List Char) : Prop extends Maps w w' text [] where
  ordered : w.Ordered → w'.Ordered

theorem Draws.refl (w : Weaver) : Draws w w [] := ⟨.refl w, id⟩

theorem Draws.trans {xs ys : List Char} (h : Draws w w' xs) (h' : Draws w' w'' ys) :
    Draws w w'' (xs ++ ys) :=
  ⟨h.toMaps.trans h'.toMaps, h'.ordered ∘ h.ordered⟩

theorem Draws.of_eq (hplace : w'.place = w.place) (hmappings : w'.mappings = w.mappings) :
    Draws w w' [] where
  toMaps := .of_eq hplace hmappings
  ordered h := ⟨hmappings ▸ h.sorted, hmappings ▸ hplace ▸ h.bounded⟩

theorem draws_map (w : Weaver) (o : Origin) (verbatim : Bool) : Draws w (w.map o verbatim) [] :=
  ⟨maps_map w o verbatim, fun h => ordered_map h o verbatim⟩

theorem draws_mapTo (w : Weaver) : ∀ origin : Option Origin, Draws w (w.mapTo origin) []
  | none => .refl w
  | some o => draws_map w o false

theorem draws_put (w : Weaver) (c : Char) : Draws w (w.put c) [c] where
  toMaps := maps_put w c
  ordered h := ⟨h.sorted, fun m hm =>
    Mark.upTo_trans (h.bounded m hm) (Mark.upTo_of_before (w.place.before_advance c))⟩

theorem draws_putCode (origin : Option Origin) (w : Weaver) (cs : List Char) :
    Draws w (w.putCode origin cs) cs := by
  induction cs generalizing w with
  | nil => exact .refl w
  | cons c cs ih =>
    rw [putCode]
    split
    · exact (draws_put w c).trans ((draws_mapTo _ origin).trans (ih _))
    · exact (draws_put w c).trans (ih _)

theorem draws_putCopied (o : Origin) (w : Weaver) (cs : List Char) :
    Draws w (w.putCopied o cs) cs := by
  induction cs generalizing w o with
  | nil => exact .refl w
  | cons c cs ih =>
    simp only [putCopied]
    split
    · exact (draws_put w c).trans ((draws_map _ _ true).trans (ih _ _))
    · exact (draws_put w c).trans (ih _ _)

theorem draws_putVerbatim (origin : Option Origin) (w : Weaver) (cs : List Char) :
    Draws w (w.putVerbatim origin cs) cs := by
  cases origin with
  | none => exact draws_putCode none w cs
  | some o => exact (draws_map w o true).trans (draws_putCopied o _ cs)

theorem draws_meet (w : Weaver) (d : Document) : Draws w (w.meet d) [] := by
  unfold meet
  split
  · exact .refl w
  · exact .of_eq rfl rfl

end Weaver

open Weaver

mutual

theorem Chunk.draws_weave (origin : Option Origin) (w : Weaver) :
    ∀ c : Chunk, Draws w (c.weave origin w) c.text.toList
  | .code _ => draws_putCode origin w _
  | .verbatim _ => draws_putVerbatim origin w _
  | .gap _ => draws_putCode origin w _
  | .fragment own chunks => by
    have hinner := (draws_mapTo w own).trans
      (draws_weaveChunks (own <|> origin) (w.mapTo own) chunks)
    have hback := hinner.trans (draws_mapTo _ origin)
    rwa [List.nil_append, List.append_nil] at hback
  | .inclusion directive document => by
    have hoccur : Draws (document.weave w)
        ((document.weave w).occur directive document w.place) [] := .of_eq rfl rfl
    have hback := ((document.draws_weave w).trans hoccur).trans (draws_mapTo _ origin)
    rwa [List.append_nil, List.append_nil] at hback

theorem draws_weaveChunks (origin : Option Origin) (w : Weaver) :
    ∀ cs : List Chunk, Draws w (weaveChunks origin w cs) (textOfChunks cs).toList
  | [] => .refl w
  | c :: cs => by
    have hboth := (c.draws_weave origin w).trans (draws_weaveChunks origin (c.weave origin w) cs)
    rwa [← String.toList_append] at hboth

/-- Weaving any document draws a table of mappings in order. -/
theorem Document.draws_weave (w : Weaver) : ∀ d : Document, Draws w (d.weave w) d.text.toList
  | .mk stamp chunks =>
    (draws_meet w (.mk stamp chunks)).trans (draws_weaveChunks none (w.meet (.mk stamp chunks)) chunks)

end

/-! ## Source maps of programs -/

/-- A source map charts a code: its table is in order, its places are those of the code, and what is
looked up in the one direction is looked up in the other. -/
structure SourceMap.Charts (s : SourceMap) (code : String) : Prop where
  ascending : s.mappings.Pairwise fun a b => a.generated.before b.generated = true
  /-- Every mapping stands where a character begins or the code ends. -/
  boundaries : ∀ m ∈ s.mappings, ∃ n, IsBoundary code.toList n ∧
    m.generated = ((LineIndex.ofString code).position n).mark
  stop : s.stop = ((LineIndex.ofString code).position code.utf8ByteSize).mark
  halving : ∀ place, s.halvingAt? place = s.mappingAt? place
  /-- What is mapped to an origin is told to come from it. -/
  found : ∀ o, ∀ g ∈ s.generatedFor o, s.origin? g = some ⟨o, s.stop.upTo g⟩
  /-- What is mapped is mapped to its origin. -/
  mapped : ∀ m ∈ s.mappings, m.generated ∈ s.generatedFor m.origin

/-- The place behind a prefix of a code is told by the line index of the code. -/
theorem Mark.origin_after {code : String} (pre post : List Char) (h : code.toList = pre ++ post) :
    Mark.origin.after pre = ((LineIndex.ofString code).position (utf8Length pre)).mark := by
  rw [← String.ofList_toList (s := code), h, LineIndex.position_utf8Length, Position.mark_after]
  rfl

/-- The mark of a character is the one behind all characters in front of it. -/
theorem Mark.exists_of_mem_along {m p : Mark} {cs : List Char} (h : p ∈ m.along cs) :
    ∃ pre post, cs = pre ++ post ∧ p = m.after pre := by
  obtain ⟨i, hi, rfl⟩ := List.getElem_of_mem h
  exact ⟨cs.take i, cs.drop i, (List.take_append_drop i cs).symm, m.getElem_along cs i hi⟩

/-- A mapping that is found for its own place tells its origin as it stands. -/
theorem SourceMap.origin?_generated {s : SourceMap} {m : Mapping}
    (h : s.mappingAt? m.generated = some m) :
    s.origin? m.generated = some ⟨m.origin, s.stop.upTo m.generated⟩ := by
  have hcount : m.countOn m.generated = m.origin := by
    rw [Mapping.countOn, Nat.sub_self, Nat.add_zero]
  rw [origin?, h]
  simp only [hcount]
  cases s.stop.upTo m.generated <;> simp

end Stencil
