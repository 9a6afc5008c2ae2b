import Stencil.Proofs.Compile.Freshness
import Stencil.Proofs.Engine.Cycle

/-! # Files that change

Between two requests files may be written and removed.  An engine that looks at the files again
before it uses a document ends every compilation as a new engine would over the files as they are:
what its cache keeps is either fresh, and then the right document, or not used.
-/
namespace Stencil

/-! ## Texts that can be read -/

/-- The text of an entry. -/
def Entry.text? : Entry → Option String
  | .text content => some content
  | .binary | .directory => none

namespace Files

/-- The texts of all entries. -/
def texts (f : Files) : List String := f.entries.filterMap fun e => e.2.text?

variable {f : Files} {texts : List String}

theorem within_texts (f : Files) : f.Within f.texts := by
  intro path content hread
  unfold read at hread
  split at hread
  · cases hread
  · unfold readNames at hread
    split at hread
    · rename_i hentry
      obtain rfl := Except.ok.inj hread
      unfold entry? at hentry
      split at hentry
      · cases hentry
      · obtain ⟨before, after, hentries, -⟩ := List.lookup_eq_some_iff.mp hentry
        exact List.mem_filterMap.mpr ⟨_, hentries ▸ List.mem_append_right _ List.mem_cons_self, rfl⟩
    · cases hread
    · cases hread
    · split at hread <;> cases hread

theorem Within.mono {texts' : List String} (h : f.Within texts) (hsub : texts ⊆ texts') :
    f.Within texts' :=
  fun path content hread => hsub (h path content hread)

theorem texts_set (f : Files) (names : List (List Char)) (entry : Entry) :
    (f.set names entry).texts ⊆ entry.text?.toList ++ f.texts := by
  intro t ht
  obtain ⟨e, he, ht⟩ := List.mem_filterMap.mp ht
  rcases List.mem_cons.mp he with rfl | he
  · exact List.mem_append_left _ (Option.mem_toList.mpr ht)
  · exact List.mem_append_right _ (List.mem_filterMap.mpr ⟨e, (List.mem_filter.mp he).1, ht⟩)

theorem texts_makeDirectory (f : Files) (names : List (List Char)) :
    (f.makeDirectory names).texts ⊆ f.texts := by
  unfold makeDirectory
  split
  · exact List.Subset.refl _
  · exact f.texts_set names .directory

/-- Writing an entry adds no text but its own. -/
theorem texts_write (f : Files) (path : String) (entry : Entry) :
    (f.write path entry).texts ⊆ entry.text?.toList ++ f.texts := by
  have hways : ∀ (ways : List (List (List Char))) (f : Files),
      (ways.foldl makeDirectory f).texts ⊆ f.texts := by
    intro ways
    induction ways with
    | nil => exact fun f => List.Subset.refl _
    | cons way ways ih => exact fun f => List.Subset.trans (ih _) (f.texts_makeDirectory way)
  have hmade := hways (ancestors (Path.names path)) f
  have hkept : f.texts ⊆ entry.text?.toList ++ f.texts := List.subset_append_right _ _
  unfold write
  simp only
  split
  · exact hkept
  · split
    · exact List.Subset.trans hmade hkept
    · exact List.Subset.trans hmade hkept
    · refine List.Subset.trans (texts_set _ _ _) (List.append_subset.mpr ⟨?_, ?_⟩)
      · exact List.subset_append_left _ _
      · exact List.Subset.trans hmade hkept

/-- Removing a file adds no text. -/
theorem texts_remove (f : Files) (path : String) : (f.remove path).texts ⊆ f.texts := by
  unfold remove
  simp only
  split
  · exact List.Subset.refl _
  · exact List.Subset.refl _
  · intro t ht
    obtain ⟨e, he, ht⟩ := List.mem_filterMap.mp ht
    exact List.mem_filterMap.mpr ⟨e, (List.mem_filter.mp he).1, ht⟩

end Files

/-! ## Events -/

/-- What can happen while an engine is in use. -/
inductive Event
  | write (path : String) (entry : Entry)
  | remove (path : String)
  | request (request : Request)

namespace Event

/-- What an event makes of the files. -/
def change (files : Files) : Event → Files
  | write path entry => files.write path entry
  | remove path => files.remove path
  | request _ => files

/-- The text that an event writes. -/
def text? : Event → Option String
  | write _ entry => entry.text?
  | remove _ | request _ => none

theorem texts_change (files : Files) (event : Event) :
    (event.change files).texts ⊆ event.text?.toList ++ files.texts := by
  cases event with
  | write path entry => exact files.texts_write path entry
  | remove path => exact files.texts_remove path
  | request request => exact List.Subset.refl _

end Event

namespace Engine

/-- The world after an event. -/
def meet (e : Engine) (w : World) : Event → World
  | .request request => e.serve w request
  | event => { w with files := event.change w.files }

/-- The world after some events, the first of them first, around an engine that begins with an empty
cache. -/
def course (e : Engine) (files : Files) (mode : CacheMode) (events : List Event) : World :=
  events.foldl e.meet (.fresh files mode)

/-- A world in which documents are kept that were made from files with known texts, and looked at
again before they are used. -/
structure Looks (d : Dialect) (texts : List String) (w : World) : Prop where
  mode : w.cache.mode = .revalidate
  within : w.files.texts ⊆ texts
  once : w.Keeps fun path document =>
    ∃ old : Files, old.Within texts ∧ Kept d old w.nextDocument path document
  free : ∀ path other, w.cache.slot? path ≠ some (.compiling other)

variable {e : Engine} {d : Dialect} {texts : List String} {w : World}

/-- A world in which documents are looked at again is idle for its files. -/
theorem Looks.idle (h : Looks d texts w) (hdiffer : HashesDiffer texts) : Idle d w.files w where
  reads := rfl
  kept path document hslot hvalid := by
    obtain ⟨old, hold, hkept⟩ := h.once path document hslot
    rw [Cache.isValid, h.mode] at hvalid
    exact hkept.of_isFresh hdiffer hold (w.files.within_texts.mono h.within) hvalid
  free := h.free

/-- What a request adds to the cache could be kept for the files as they are. -/
theorem Idle.once_serve (h : Idle e.dialect w.files w) (hwithin : w.files.Within texts)
    (honce : w.Keeps fun path document =>
      ∃ old : Files, old.Within texts ∧ Kept e.dialect old w.nextDocument path document)
    (request : Request) :
    (e.serve w request).Keeps fun path document => ∃ old : Files, old.Within texts ∧
      Kept e.dialect old (e.serve w request).nextDocument path document := by
  rcases e.serve_cases w request with
    ⟨asks, loops, job, chain, post, hjob, hserve⟩ | ⟨cache, hserve, -, hslot⟩
  · rw [hserve]
    have hrun := Job.run_keeps (T := .mk e.dialect w.files asks loops)
      (P := fun now path document => ∃ old : Files, old.Within texts ∧
        Kept e.dialect old now path document)
      (fun now path document hkept => ⟨w.files, hwithin, hkept⟩)
      (fun now later path document hle ⟨old, hold, hkept⟩ => ⟨old, hold, hkept.mono hle⟩)
      hjob h.serves honce (List.nil_subset chain) (Nat.zero_le _)
    exact hrun
  · rw [hserve]
    exact fun path document hready => honce path document (hslot path _ hready)

theorem mode_serve (e : Engine) (w : World) (request : Request) :
    (e.serve w request).cache.mode = w.cache.mode := by
  rcases e.serve_cases w request with ⟨asks, loops, job, chain, post, -, hserve⟩ |
    ⟨cache, hserve, hmode, -⟩
  · rw [hserve]
    exact Job.mode_run _ _
  · rw [hserve]
    exact hmode

/-- Documents are still looked at again after an event that writes no other text. -/
theorem Looks.meet (h : Looks e.dialect texts w) (hdiffer : HashesDiffer texts) (event : Event)
    (htext : event.text?.toList ⊆ texts) : Looks e.dialect texts (e.meet w event) := by
  have hchange : ∀ event : Event, event.text?.toList ⊆ texts →
      Looks e.dialect texts { w with files := event.change w.files } := by
    intro event htext
    have hwithin := List.Subset.trans (event.texts_change w.files)
      (List.append_subset.mpr ⟨htext, h.within⟩)
    exact ⟨h.mode, hwithin, h.once, h.free⟩
  cases event with
  | write path entry => exact hchange _ htext
  | remove path => exact hchange _ htext
  | request request =>
    have hidle := h.idle hdiffer
    have hafter := hidle.serve request
    refine ⟨(e.mode_serve w request).trans h.mode, ?_, ?_, hafter.free⟩
    · rw [Engine.meet, hafter.reads]
      exact h.within
    · exact hidle.once_serve (w.files.within_texts.mono h.within) h.once request

/-- Through any events the files are what the events make of them. -/
theorem files_meet (h : Idle e.dialect w.files w) (event : Event) :
    (e.meet w event).files = event.change w.files := by
  cases event with
  | write path entry => rfl
  | remove path => rfl
  | request request => exact (h.serve request).reads

/-- **Whatever happens, an engine that looks at documents again is idle for the files as they are**,
if the hashes of all texts that are ever written tell them apart. -/
theorem looks_course (e : Engine) (files : Files) (events : List Event)
    (hdiffer : HashesDiffer (files.texts ++ events.filterMap Event.text?)) :
    Looks e.dialect (files.texts ++ events.filterMap Event.text?)
        (e.course files .revalidate events) ∧
      (e.course files .revalidate events).files = events.foldl Event.change files := by
  generalize htexts : files.texts ++ events.filterMap Event.text? = texts at hdiffer ⊢
  have hwritten : events.filterMap Event.text? ⊆ texts :=
    htexts ▸ List.subset_append_right _ _
  have hfold : ∀ w, Looks e.dialect texts w → ∀ events : List Event,
      events.filterMap Event.text? ⊆ texts → Looks e.dialect texts (events.foldl e.meet w) ∧
        (events.foldl e.meet w).files = events.foldl Event.change w.files := by
    intro w hw events hevents
    induction events generalizing w with
    | nil => exact ⟨hw, rfl⟩
    | cons event events ih =>
      have hhead : event.text?.toList ⊆ texts := by
        intro t ht
        refine hevents (List.mem_filterMap.mpr ⟨event, List.mem_cons_self, ?_⟩)
        exact Option.mem_toList.mp ht
      have htail : events.filterMap Event.text? ⊆ texts := by
        intro t ht
        obtain ⟨event', hmem, ht⟩ := List.mem_filterMap.mp ht
        exact hevents (List.mem_filterMap.mpr ⟨event', List.mem_cons_of_mem _ hmem, ht⟩)
      obtain ⟨hlooks, hfiles⟩ := ih (e.meet w event) (hw.meet hdiffer event hhead) htail
      rw [files_meet (hw.idle hdiffer)] at hfiles
      exact ⟨hlooks, hfiles⟩
  refine hfold (.fresh files .revalidate) ⟨rfl, ?_, ?_, ?_⟩ events hwritten
  · exact htexts ▸ List.subset_append_left _ _
  · exact fun path document hslot => by cases hslot
  · exact fun path other hslot => by cases hslot

/-- **Looking at the files again is as good as having no cache.**  However files are written and
removed between requests, each compilation ends alike on the engine in use and on a new one, which
finds the files as they are: with programs that are the same, or with the same error. -/
theorem alike_compile_course (e : Engine) (files : Files) (events : List Event) (path : String)
    (mode : CacheMode)
    (hdiffer : HashesDiffer (files.texts ++ events.filterMap Event.text?)) :
    Alike (e.compile path (e.course files .revalidate events)).1
      (e.compile path (.fresh (events.foldl Event.change files) mode)).1 := by
  obtain ⟨hlooks, hfiles⟩ := e.looks_course files events hdiffer
  rw [← hfiles]
  exact (hlooks.idle hdiffer).alike_compile (idle_fresh e.dialect _ mode) path

/-- A file appears behind a directive, closes a cycle and disappears again. -/
def edits : List Event :=
  [.request (.compile "/a.exp"), .write "/b.exp" (.text "plain"), .request (.compile "/a.exp"),
    .write "/b.exp" (.text "<?exp include('a') ?>"), .request (.compile "/b.exp"),
    .remove "/b.exp"]

/-- The texts that are written meanwhile differ in their hashes. -/
theorem alike_compile_edits :
    HashesDiffer ((Files.empty.write "/a.exp" (.text "<?exp include('b') ?>")).texts ++
      edits.filterMap Event.text?) ∧
    Alike
      ((Engine.ofOptions .default).compile "/a.exp" ((Engine.ofOptions .default).course
        (Files.empty.write "/a.exp" (.text "<?exp include('b') ?>")) .revalidate edits)).1
      ((Engine.ofOptions .default).compile "/a.exp" (.fresh (edits.foldl Event.change
        (Files.empty.write "/a.exp" (.text "<?exp include('b') ?>"))) .revalidate)).1 := by
  have hdiffer : HashesDiffer
      ((Files.empty.write "/a.exp" (.text "<?exp include('b') ?>")).texts ++
        edits.filterMap Event.text?) := by
    decide +kernel
  exact ⟨hdiffer, alike_compile_course (Engine.ofOptions .default)
    (Files.empty.write "/a.exp" (.text "<?exp include('b') ?>")) edits "/a.exp" .revalidate hdiffer⟩

end Engine

end Stencil
