import Stencil.Proofs.Program.Code

/-! # Ranges from notes

A document is included in several places, and its fragments are written once for each of them.  A
weaver can therefore also note where each fragment has come to stand, and take the range of an
include from the notes: from the beginning of the document's first fragment to the end of its last,
each as it was noted last.  A fragment is known by the document that it stands in, and a document
is the same one wherever it is included.  The last note of a fragment is still the right one, since
what is written after it until the range is taken belongs to other fragments: the documents in a
document have other numbers.
-/
namespace Stencil

/-- A fragment: the number of the document that it stands in, and the steps that lead to it from
there, the last of them first. -/
structure FragmentId where
  document : Nat
  steps : List Nat
  deriving DecidableEq

/-- The fragment at a position in another one. -/
def FragmentId.child (id : FragmentId) (i : Nat) : FragmentId := ⟨id.document, i :: id.steps⟩

/-- The fragments among pieces of `parent` that stand there from a position on. -/
def fragmentsFrom (parent : FragmentId) : (i : Nat) → List Chunk → List FragmentId
  | _, [] => []
  | i, .fragment _ _ :: cs => parent.child i :: fragmentsFrom parent (i + 1) cs
  | i, _ :: cs => fragmentsFrom parent (i + 1) cs

/-- The fragments that a document consists of. -/
def Document.fragments (d : Document) : List FragmentId := fragmentsFrom ⟨d.number, []⟩ 0 d.chunks

/-- A weaver that notes where fragments have come to stand, the last note first. -/
structure Noter where
  weaver : Weaver
  notes : List (FragmentId × CodeRange)

namespace Noter

/-- A weaver that has noted nothing. -/
def start : Noter := ⟨.start, []⟩

/-- Does something without a note. -/
def write (w : Noter) (f : Weaver → Weaver) : Noter := { w with weaver := f w.weaver }

/-- Notes that a fragment takes the code from a place up to here. -/
def note (w : Noter) (id : FragmentId) (start : Mark) : Noter :=
  { w with notes := (id, ⟨start, w.weaver.place⟩) :: w.notes }

/-- What was noted last of a fragment. -/
def latest? (w : Noter) (id : FragmentId) : Option CodeRange := w.notes.lookup id

/-- The stretch of code that a document takes which was written from a place up to here: from the
beginning of its first fragment to the end of its last. One without fragments takes none. -/
def rangeOf (w : Noter) (d : Document) (place : Mark) : CodeRange :=
  match d.fragments.head?.bind w.latest?, d.fragments.getLast?.bind w.latest? with
  | some first, some last => ⟨first.start, last.stop⟩
  | _, _ => ⟨place, place⟩

/-- Records a directive whose document was written from a place up to here. -/
def occur (w : Noter) (directive : Origin) (document : Document) (place : Mark) : Noter :=
  w.write fun v =>
    { v with occurrences := ⟨directive, document, w.rangeOf document place⟩ :: v.occurrences }

end Noter

mutual

/-- Writes the piece `id` that comes from `origin`, with notes. -/
def Chunk.weaveNoting (origin : Option Origin) (id : FragmentId) (w : Noter) : Chunk → Noter
  | .code text => w.write (·.putCode origin text.toList)
  | .verbatim text => w.write (·.putVerbatim origin text.toList)
  | .gap _ => w.write (·.putCode origin gapCode.toList)
  | .fragment own chunks =>
    ((weaveChunksNoting (own <|> origin) id 0 (w.write (·.mapTo own)) chunks).note id
      w.weaver.place).write (·.mapTo origin)
  | .inclusion directive document =>
    ((document.weaveNoting w).occur directive document w.weaver.place).write (·.mapTo origin)

/-- Writes the pieces of `parent` from a position on, with notes. -/
def weaveChunksNoting (origin : Option Origin) (parent : FragmentId) (i : Nat) (w : Noter) :
    List Chunk → Noter
  | [] => w
  | c :: cs =>
    weaveChunksNoting origin parent (i + 1) (c.weaveNoting origin (parent.child i) w) cs

/-- Writes a document, with notes. -/
def Document.weaveNoting (w : Noter) : Document → Noter
  | .mk stamp chunks =>
    (weaveChunksNoting none ⟨stamp.number, []⟩ 0 (w.write (·.meet (.mk stamp chunks)))
      chunks).note ⟨stamp.number, []⟩ w.weaver.place

end

/-! ## What is noted -/

namespace Noter

/-- One weaver goes on from another, and notes only fragments of some kind. -/
def Notes (P : FragmentId → Prop) (w w' : Noter) : Prop :=
  ∃ more, w'.notes = more ++ w.notes ∧ ∀ x ∈ more, P x.1

variable {P Q : FragmentId → Prop} {w w' w'' : Noter}

theorem notes_write (w : Noter) (f : Weaver → Weaver) : Notes P w (w.write f) :=
  ⟨[], rfl, fun _ hx => by cases hx⟩

theorem notes_note {id : FragmentId} (h : P id) (w : Noter) (place : Mark) :
    Notes P w (w.note id place) :=
  ⟨[_], rfl, fun x hx => by obtain rfl := List.mem_singleton.mp hx; exact h⟩

theorem Notes.trans (h : Notes P w w') (h' : Notes P w' w'') : Notes P w w'' := by
  obtain ⟨more, hnotes, hmore⟩ := h
  obtain ⟨more', hnotes', hmore'⟩ := h'
  refine ⟨more' ++ more, ?_, List.forall_mem_append.mpr ⟨hmore', hmore⟩⟩
  rw [hnotes', hnotes, List.append_assoc]

theorem Notes.imp (h : Notes P w w') (hPQ : ∀ id, P id → Q id) : Notes Q w w' := by
  obtain ⟨more, hnotes, hmore⟩ := h
  exact ⟨more, hnotes, fun x hx => hPQ _ (hmore x hx)⟩

/-- What was noted last of other fragments stays so. -/
theorem Notes.latest?_eq (h : Notes P w w') {id : FragmentId} (hid : ¬ P id) :
    w'.latest? id = w.latest? id := by
  obtain ⟨more, hnotes, hmore⟩ := h
  rw [latest?, latest?, hnotes, List.lookup_append, List.lookup_eq_none_iff.mpr, Option.none_or]
  intro x hx
  rw [bne_iff_ne]
  rintro rfl
  exact hid (hmore x hx)

@[simp] theorem weaver_write (w : Noter) (f : Weaver → Weaver) :
    (w.write f).weaver = f w.weaver := rfl

@[simp] theorem weaver_note (w : Noter) (id : FragmentId) (place : Mark) :
    (w.note id place).weaver = w.weaver := rfl

@[simp] theorem latest?_write (w : Noter) (f : Weaver → Weaver) (id : FragmentId) :
    (w.write f).latest? id = w.latest? id := rfl

theorem latest?_note (w : Noter) (id : FragmentId) (place : Mark) :
    (w.note id place).latest? id = some ⟨place, w.weaver.place⟩ := by
  rw [latest?, note, List.lookup_cons_self]

end Noter

open Noter Weaver

/-- A fragment in another one, or the other one itself. -/
def FragmentId.IsIn (id outer : FragmentId) : Prop :=
  id.document = outer.document ∧ outer.steps <:+ id.steps

theorem FragmentId.IsIn.of_child {id parent : FragmentId} {i : Nat} (h : id.IsIn (parent.child i)) :
    id.IsIn parent := ⟨h.1, (List.suffix_cons i parent.steps).trans h.2⟩

/-- A fragment of one of some documents. -/
def FragmentId.IsOf (id : FragmentId) (ds : List Document) : Prop :=
  ∃ d ∈ ds, id.document = d.number

theorem FragmentId.IsOf.mono {id : FragmentId} {ds ds' : List Document} (h : id.IsOf ds)
    (hsub : ds ⊆ ds') : id.IsOf ds' := by
  obtain ⟨d, hd, hid⟩ := h
  exact ⟨d, hsub hd, hid⟩

mutual

theorem Chunk.notes_weaveNoting (origin : Option Origin) (id : FragmentId) (w : Noter) :
    ∀ c : Chunk, Notes (fun x => x.IsIn id ∨ x.IsOf c.documents) w (c.weaveNoting origin id w)
  | .code _ | .verbatim _ | .gap _ => by
    rw [Chunk.weaveNoting]
    exact notes_write w _
  | .fragment own chunks => by
    have hself : id.IsIn id := ⟨rfl, List.suffix_refl _⟩
    have hchunks := notes_weaveChunksNoting (own <|> origin) id 0 (w.write (·.mapTo own)) chunks
    rw [Chunk.weaveNoting]
    refine (((notes_write w _).trans (hchunks.imp ?_)).trans (notes_note (.inl hself) _ _)).trans
      (notes_write _ _)
    rintro x (⟨j, -, hx⟩ | hx)
    · exact .inl hx.of_child
    · exact .inr hx
  | .inclusion directive document => by
    rw [Chunk.weaveNoting, Noter.occur]
    exact ((document.notes_weaveNoting w).imp fun _ hx => .inr hx).trans
      ((notes_write _ _).trans (notes_write _ _))

theorem notes_weaveChunksNoting (origin : Option Origin) (parent : FragmentId) (i : Nat)
    (w : Noter) :
    ∀ cs : List Chunk, Notes
      (fun x => (∃ j, i ≤ j ∧ x.IsIn (parent.child j)) ∨ x.IsOf (documentsOfChunks cs)) w
      (weaveChunksNoting origin parent i w cs)
  | [] => ⟨[], rfl, fun _ hx => by cases hx⟩
  | c :: cs => by
    have hhead := c.notes_weaveNoting origin (parent.child i) w
    have htail := notes_weaveChunksNoting origin parent (i + 1)
      (c.weaveNoting origin (parent.child i) w) cs
    refine (hhead.imp ?_).trans (htail.imp ?_)
    · rintro x (hx | hx)
      · exact .inl ⟨i, Nat.le_refl i, hx⟩
      · exact .inr (hx.mono (List.subset_append_left _ _))
    · rintro x (⟨j, hj, hx⟩ | hx)
      · exact .inl ⟨j, Nat.le_of_succ_le hj, hx⟩
      · exact .inr (hx.mono (List.subset_append_right _ _))

/-- Writing a document makes notes of its own fragments, and of those of the documents in it. -/
theorem Document.notes_weaveNoting (w : Noter) :
    ∀ d : Document, Notes (·.IsOf d.withIncluded) w (d.weaveNoting w)
  | .mk stamp chunks => by
    have hself (steps : List Nat) : FragmentId.IsOf ⟨stamp.number, steps⟩
        (Document.mk stamp chunks).withIncluded := ⟨_, List.mem_cons_self, rfl⟩
    have hchunks := notes_weaveChunksNoting none ⟨stamp.number, []⟩ 0
      (w.write (·.meet (.mk stamp chunks))) chunks
    refine ((notes_write w _).trans (hchunks.imp ?_)).trans (notes_note (hself []) _ _)
    rintro x (⟨j, -, hx⟩ | hx)
    · exact ⟨_, List.mem_cons_self, hx.1⟩
    · exact hx.mono (List.subset_cons_self _ _)

end

/-! ## The notes are right -/

/-- The documents in a document, which consist of fragments, contain none of their own number. -/
def Document.Distinct (d : Document) : Prop :=
  ∀ x ∈ d.withIncluded, (∀ c ∈ x.chunks, c.IsFragment) ∧
    ∀ y ∈ documentsOfChunks x.chunks, y.number ≠ x.number

theorem Document.Distinct.of_mem {d x : Document} (h : d.Distinct) (hx : x ∈ d.withIncluded) :
    x.Distinct := fun y hy => h y (Document.mem_withIncluded_trans d hx hy)

theorem fragmentsFrom_eq {parent : FragmentId} {i : Nat} {cs : List Chunk}
    (h : ∀ c ∈ cs, c.IsFragment) :
    fragmentsFrom parent i cs = (List.range' i cs.length).map parent.child := by
  induction cs generalizing i with
  | nil => rfl
  | cons c cs ih =>
    have hhead := h c List.mem_cons_self
    cases c with
    | fragment own chunks =>
      rw [fragmentsFrom, ih fun x hx => h x (List.mem_cons_of_mem _ hx), List.length_cons,
        List.range'_succ, List.map_cons]
    | _ => cases hhead

theorem Chunk.IsFragment.exists_eq {c : Chunk} (h : c.IsFragment) :
    ∃ own chunks, c = .fragment own chunks := by
  cases c with
  | fragment own chunks => exact ⟨own, chunks, rfl⟩
  | _ => cases h

theorem FragmentId.not_isIn_child {parent : FragmentId} {i j : Nat} (h : i < j) :
    ¬ (parent.child i).IsIn (parent.child j) := by
  rintro ⟨-, hsuffix⟩
  have heq := List.IsSuffix.eq_of_length hsuffix rfl
  exact Nat.ne_of_gt h (List.cons.inj heq).1

theorem weaveChunksNoting_append (origin : Option Origin) (parent : FragmentId) (i : Nat)
    (w : Noter) (xs ys : List Chunk) :
    weaveChunksNoting origin parent i w (xs ++ ys) =
      weaveChunksNoting origin parent (i + xs.length) (weaveChunksNoting origin parent i w xs) ys := by
  induction xs generalizing i w with
  | nil => rfl
  | cons x xs ih =>
    rw [List.cons_append, weaveChunksNoting, weaveChunksNoting, ih, List.length_cons]
    congr 1
    omega

/-- What was noted last of a fragment is where it has come to stand, also when the pieces behind it
are written: they are no parts of it, and the documents in them are others. -/
theorem latest?_weaveChunksNoting (origin : Option Origin) (parent : FragmentId) (i : Nat)
    (w : Noter) (pre post : List Chunk) (own : Option Origin) (chunks : List Chunk)
    (hother : ∀ d ∈ documentsOfChunks post, d.number ≠ parent.document) :
    let before := weaveChunksNoting origin parent i w pre
    let after := weaveChunksNoting origin parent i w (pre ++ [.fragment own chunks])
    (weaveChunksNoting origin parent i w (pre ++ .fragment own chunks :: post)).latest?
        (parent.child (i + pre.length)) = some ⟨before.weaver.place, after.weaver.place⟩ := by
  intro before after
  have hafter : after.latest? (parent.child (i + pre.length)) =
      some ⟨before.weaver.place, after.weaver.place⟩ := by
    show (weaveChunksNoting origin parent i w (pre ++ [.fragment own chunks])).latest? _ = some
      ⟨_, (weaveChunksNoting origin parent i w (pre ++ [.fragment own chunks])).weaver.place⟩
    simp only [weaveChunksNoting_append, weaveChunksNoting, Chunk.weaveNoting]
    simp only [latest?_write, latest?_note, weaver_write, weaver_note, (adds_mapTo _ _).place]
    rfl
  have hsplit : pre ++ .fragment own chunks :: post = (pre ++ [.fragment own chunks]) ++ post := by
    simp
  rw [hsplit, weaveChunksNoting_append, ← hafter]
  refine (notes_weaveChunksNoting origin parent _ after post).latest?_eq ?_
  rintro (⟨j, hj, hin⟩ | ⟨d, hd, hnumber⟩)
  · rw [List.length_append, List.length_singleton] at hj
    exact FragmentId.not_isIn_child (by omega) hin
  · exact hother d hd hnumber.symm


/-- The first of some fragments is noted last where they have begun, and the last of them up to
where they have ended. -/
theorem exists_latest?_weaveChunksNoting (origin : Option Origin) (parent : FragmentId) (i : Nat)
    (w : Noter) {cs : List Chunk} (hne : cs ≠ []) (hfrag : ∀ c ∈ cs, c.IsFragment)
    (hother : ∀ d ∈ documentsOfChunks cs, d.number ≠ parent.document) :
    let after := weaveChunksNoting origin parent i w cs
    ∃ first last, after.latest? (parent.child i) = some first ∧
      after.latest? (parent.child (i + (cs.length - 1))) = some last ∧
      first.start = w.weaver.place ∧ last.stop = after.weaver.place := by
  intro after
  have hfirst : ∃ first, after.latest? (parent.child i) = some first ∧
      first.start = w.weaver.place := by
    obtain ⟨c, rest, rfl⟩ := List.exists_cons_of_ne_nil hne
    obtain ⟨own, inner, rfl⟩ := (hfrag c List.mem_cons_self).exists_eq
    exact ⟨_, latest?_weaveChunksNoting origin parent i w [] rest own inner
      fun d hd => hother d (List.mem_append_right _ hd), rfl⟩
  have hlast : ∃ last, after.latest? (parent.child (i + (cs.length - 1))) = some last ∧
      last.stop = after.weaver.place := by
    obtain ⟨front, c, hcs⟩ := (List.eq_nil_or_concat cs).resolve_left hne
    obtain rfl : cs = front ++ [c] := by rw [hcs, List.concat_eq_append]
    obtain ⟨own, inner, rfl⟩ := (hfrag c (by simp)).exists_eq
    have hnoted := latest?_weaveChunksNoting origin parent i w front [] own inner
      fun d hd => by cases hd
    rw [List.length_append, List.length_singleton, Nat.add_sub_cancel]
    exact ⟨_, hnoted, rfl⟩
  obtain ⟨first, hfirst, hstart⟩ := hfirst
  obtain ⟨last, hlast, hstop⟩ := hlast
  exact ⟨first, last, hfirst, hlast, hstart, hstop⟩

/-- **The range from the notes is the stretch of code that the document has just been written to.**
-/
theorem Noter.rangeOf_weaveNoting {d : Document} (h : d.Distinct) (w : Noter) :
    (d.weaveNoting w).rangeOf d w.weaver.place =
      ⟨w.weaver.place, (d.weaveNoting w).weaver.place⟩ := by
  obtain ⟨hfrag, hother⟩ := h d d.mem_withIncluded
  obtain ⟨stamp, chunks⟩ := d
  have hplace : (w.weaver.meet (.mk stamp chunks)).place = w.weaver.place :=
    (moves_meet w.weaver (.mk stamp chunks)).place
  rw [rangeOf, Document.fragments, fragmentsFrom_eq hfrag]
  by_cases hne : chunks = []
  · subst hne
    show (⟨w.weaver.place, w.weaver.place⟩ : CodeRange) = _
    rw [Document.weaveNoting, weaveChunksNoting, weaver_note, weaver_write, hplace]
  · obtain ⟨first, last, hfirst, hlast, hstart, hstop⟩ :=
      exists_latest?_weaveChunksNoting none ⟨stamp.number, []⟩ 0
        (w.write (·.meet (.mk stamp chunks))) hne hfrag hother
    -- the note of the document itself is none of those that are looked for
    have hlatest (i : Nat) : (Document.weaveNoting w (.mk stamp chunks)).latest?
        (FragmentId.child ⟨stamp.number, []⟩ i) = _ :=
      (notes_note (P := (· = ⟨stamp.number, []⟩)) rfl _ _).latest?_eq (by simp [FragmentId.child])
    have hlength : 0 < chunks.length := List.length_pos_iff.mpr hne
    have hhead : ((List.range' 0 chunks.length).map (FragmentId.child ⟨stamp.number, []⟩)).head? =
        some (FragmentId.child ⟨stamp.number, []⟩ 0) := by
      rw [List.head?_map, List.head?_range', if_neg (Nat.ne_of_gt hlength)]
      rfl
    have hback : ((List.range' 0 chunks.length).map (FragmentId.child ⟨stamp.number, []⟩)).getLast? =
        some (FragmentId.child ⟨stamp.number, []⟩ (0 + (chunks.length - 1))) := by
      rw [List.getLast?_map, List.getLast?_range', if_neg (Nat.ne_of_gt hlength)]
      simp
    simp only [Document.chunks, Document.number, Document.stamp, hhead, hback, Option.bind_some,
      hlatest, hfirst, hlast]
    rw [hstart, hstop, weaver_write, hplace]
    rfl

mutual

theorem Chunk.weaver_weaveNoting (origin : Option Origin) (id : FragmentId) (w : Noter) :
    ∀ c : Chunk, (∀ d ∈ c.documents, d.Distinct) →
      (c.weaveNoting origin id w).weaver = c.weave origin w.weaver
  | .code _, _ | .verbatim _, _ | .gap _, _ => rfl
  | .fragment own chunks, h => by
    rw [Chunk.weaveNoting, weaver_write, weaver_note,
      weaver_weaveChunksNoting (own <|> origin) id 0 _ chunks h]
    rfl
  | .inclusion directive document, h => by
    have hdistinct := h document document.mem_withIncluded
    have hdocument := document.weaver_weaveNoting w hdistinct
    rw [Chunk.weaveNoting, weaver_write, Noter.occur, weaver_write,
      Noter.rangeOf_weaveNoting hdistinct, hdocument]
    rfl

theorem weaver_weaveChunksNoting (origin : Option Origin) (parent : FragmentId) (i : Nat)
    (w : Noter) :
    ∀ cs : List Chunk, (∀ d ∈ documentsOfChunks cs, d.Distinct) →
      (weaveChunksNoting origin parent i w cs).weaver = weaveChunks origin w.weaver cs
  | [], _ => rfl
  | c :: cs, h => by
    rw [weaveChunksNoting, weaver_weaveChunksNoting origin parent (i + 1) _ cs
        fun d hd => h d (List.mem_append_right _ hd),
      c.weaver_weaveNoting origin (parent.child i) w fun d hd => h d (List.mem_append_left _ hd)]
    rfl

/-- **A weaver that takes ranges from its notes writes the same** as one that counts them. -/
theorem Document.weaver_weaveNoting (w : Noter) :
    ∀ d : Document, d.Distinct → (d.weaveNoting w).weaver = d.weave w.weaver
  | .mk stamp chunks, h => by
    rw [Document.weaveNoting, weaver_note, weaver_weaveChunksNoting none ⟨stamp.number, []⟩ 0 _
      chunks fun d hd => h.of_mem (List.mem_cons_of_mem _ hd)]
    rfl

end

end Stencil
