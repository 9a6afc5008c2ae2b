import Mathlib.Data.Set.BooleanAlgebra
import Mathlib.Order.CompletePartialOrder
import Stencil.Proofs.Compile.Contract
import Stencil.Proofs.Compile.World
import Stencil.Proofs.Concurrent.Pool

/-! # Documents that are found or made

A compilation finds the document of a path in the cache, or makes it from the text of the file, out
of documents that it has found or made in the same way.  Which of both it does is decided by the
world that it begins with: a document that can be used then is kept until the compilation ends, and
what it stores itself it has made.

So the world at the beginning tells how a document has come about.  Nothing is said of hashes: the
documents that are found need not be those of the files as they are.
-/
namespace Stencil
open Relation (ReflTransGen TransGen)
open Template (originAt)

namespace World

/-- The document that a compilation finds for a path if it asks at once. -/
def found? (w : World) (path : String) : Option Document := w.cache.get? w.files path

variable {w : World} {owner : Nat} {path : String}

theorem found?_eq_some_iff {x : Document} : w.found? path = some x ↔
    w.cache.slot? path = some (.ready x) ∧ w.cache.isValid w.files x = true := by
  unfold found? Cache.get?
  match hslot : w.cache.slot? path with
  | none => simp
  | some (.compiling other) => simp
  | some (.ready y) =>
    by_cases hvalid : w.cache.isValid w.files y = true
    · simp only [hvalid, if_true, Option.some.injEq, Slot.ready.injEq]
      constructor
      · rintro rfl
        exact ⟨rfl, hvalid⟩
      · exact fun h => h.1
    · simp only [hvalid, Option.some.injEq, Slot.ready.injEq]
      refine iff_of_false (by simp) ?_
      rintro ⟨rfl, h⟩
      exact hvalid h

/-- What a compilation meets that asks for a document. -/
theorem enter_cases (w : World) (owner : Nat) (path : String) :
    (∃ x, w.found? path = some x ∧ w.enter owner path = (w, .found x)) ∨
    (w.found? path = none ∧
      w.enter owner path = ({ w with cache := w.cache.fill path (.compiling owner) }, .claimed)) ∨
    ∃ other cache entrance, w.cache.slot? path = some (.compiling other) ∧
      w.enter owner path = ({ w with cache }, entrance) ∧ cache.slots = w.cache.slots ∧
      (entrance = .waits ∨ entrance = .refused) := by
  unfold enter found? Cache.get? Cache.enter
  match hslot : w.cache.slot? path with
  | none => exact .inr (.inl ⟨rfl, rfl⟩)
  | some (.ready x) =>
    by_cases hvalid : w.cache.isValid w.files x = true
    · exact .inl ⟨x, by simp [hvalid], by simp [hvalid]⟩
    · -- the document cannot be used, and its slot is claimed in a second attempt
      exact .inr (.inl ⟨by simp [hvalid], by simp [hvalid, hslot]⟩)
  | some (.compiling other) =>
    refine .inr (.inr ⟨other, ?_⟩)
    by_cases hloop : w.cache.closesLoop owner other = true
    · exact ⟨w.cache, .refused, rfl, by simp [hloop], rfl, .inr rfl⟩
    · exact ⟨{ w.cache with waiting := (owner, path) :: w.cache.waiting }, .waits, rfl,
        by simp [hloop], rfl, .inl rfl⟩

/-! ## How documents come about -/

variable (d : Dialect) (w)

/-- A file has to be compiled, and one of its directives names another one. -/
def Asks (p q : String) : Prop := w.found? p = none ∧ d.Includes w.files.read p q

/-- The terms that go by the files that have to be compiled. -/
def terms : Terms := ⟨d, w.files, w.Asks d, fun p => ¬ Acc (fun q p => w.Asks d p q) p⟩

/-- What a directive of a file becomes. What has been asked for until then is in `asked`. -/
inductive Becomes (asked : Set String) (path : String) (i : Template.Inclusion) : Chunk → Prop
  /-- It makes no request. -/
  | refused {reason : Include.IncludeError} (htarget : d.target i.arguments path = .error reason) :
    Becomes asked path i (.gap reason)
  /-- It names a file that cannot be read. -/
  | unreadable {q : String} {fault : ReadError} (htarget : d.target i.arguments path = .ok q)
    (hasked : q ∈ asked) (hnew : w.found? q = none) (hread : w.files.read q = .error fault) :
    Becomes asked path i (.gap (.ofReadError q fault))
  | included {q : String} {x : Document} (htarget : d.target i.arguments path = .ok q)
    (hasked : q ∈ asked) : Becomes asked path i (.inclusion (originAt path i.location.start) x)

/-- A document is made from the text of the file at a path, and its directives become `cs`. -/
structure Composes (asked : Set String) (path content : String) (cs : List Chunk) (x : Document) :
    Prop where
  new : w.found? path = none
  read : w.files.read path = .ok content
  path_eq : x.path = path
  hash_eq : x.stamp.hash = contentHash content
  fill : x.chunks = (d.tree content).fill path cs
  become : List.Forall₂ (w.Becomes d asked path) (d.tree content).inclusions cs

/-- A compilation that begins in a world gets a document for a path. -/
inductive Gives (asked : Set String) : (path : String) → Document → Prop
  | found {path : String} {x : Document} (h : w.found? path = some x) : Gives asked path x
  | made {path content : String} {cs : List Chunk} {x : Document}
    (h : w.Composes d asked path content cs x)
    (hinner : ∀ i origin y q, (i, .inclusion origin y) ∈ (d.tree content).inclusions.zip cs →
      d.target i.arguments path = .ok q → Gives asked q y) : Gives asked path x

variable {d} {w} {asked later : Set String} {content : String} {cs : List Chunk} {x : Document}
  {i : Template.Inclusion}

theorem Becomes.mono {c : Chunk} (h : w.Becomes d asked path i c) (hle : asked ⊆ later) :
    w.Becomes d later path i c := by
  cases h with
  | refused htarget => exact .refused htarget
  | unreadable htarget hasked hnew hread => exact .unreadable htarget (hle hasked) hnew hread
  | included htarget hasked => exact .included htarget (hle hasked)

theorem Composes.mono (h : w.Composes d asked path content cs x) (hle : asked ⊆ later) :
    w.Composes d later path content cs x :=
  ⟨h.new, h.read, h.path_eq, h.hash_eq, h.fill, h.become.imp fun _ _ hc => hc.mono hle⟩

theorem Gives.mono (h : w.Gives d asked path x) (hle : asked ⊆ later) : w.Gives d later path x := by
  induction h with
  | found h => exact .found h
  | made h _ ih => exact .made (h.mono hle) ih

/-- What is first in a list is paired off with something. -/
theorem exists_mem_zip_of_mem {α β : Type} {R : α → β → Prop} {xs : List α} {ys : List β}
    (h : List.Forall₂ R xs ys) {a : α} (ha : a ∈ xs) : ∃ b, (a, b) ∈ xs.zip ys ∧ R a b := by
  induction h with
  | nil => cases ha
  | @cons _ b _ _ hhead _ ih =>
    rcases List.mem_cons.mp ha with rfl | ha
    · exact ⟨b, List.mem_cons_self, hhead⟩
    · obtain ⟨b, hmem, hb⟩ := ih ha
      exact ⟨b, List.mem_cons_of_mem _ hmem, hb⟩

namespace Composes

variable (h : w.Composes d asked path content cs x)
include h

theorem length_eq : cs.length = (d.tree content).inclusions.length := h.become.length_eq.symm

theorem becomes_of_mem {c : Chunk} (hmem : (i, c) ∈ (d.tree content).inclusions.zip cs) :
    w.Becomes d asked path i c := List.forall₂_zip h.become hmem

/-- What a directive inserts is asked for under the path that it names. -/
theorem target_of_mem {origin : Origin} {y : Document}
    (hmem : (i, .inclusion origin y) ∈ (d.tree content).inclusions.zip cs) :
    origin = originAt path i.location.start ∧
      ∃ q, d.target i.arguments path = .ok q ∧ q ∈ asked := by
  generalize hchunk : Chunk.inclusion origin y = c at hmem
  cases h.becomes_of_mem hmem with
  | refused | unreadable => cases hchunk
  | included htarget hasked =>
    cases hchunk
    exact ⟨rfl, _, htarget, hasked⟩

/-- Every directive becomes something. -/
theorem exists_chunk (hi : i ∈ (d.tree content).inclusions) :
    ∃ c, (i, c) ∈ (d.tree content).inclusions.zip cs ∧ w.Becomes d asked path i c :=
  exists_mem_zip_of_mem h.become hi

/-- The sites of the document are those of what its directives become. -/
theorem mem_sites_iff {s : Site} : s ∈ x.sites ↔
    ∃ i, (i, .inclusion s.directive s.document) ∈ (d.tree content).inclusions.zip cs := by
  have hsites := (Document.directives_fill x.stamp path h.length_eq).1
  rw [← h.fill] at hsites
  rw [Document.sites, show sitesOfChunks x.chunks = (Document.mk x.stamp x.chunks).sites from rfl,
    hsites, Template.gathered, List.mem_flatMap]
  constructor
  · rintro ⟨⟨i, c⟩, hmem, hs⟩
    cases h.becomes_of_mem hmem with
    | refused | unreadable => cases hs
    | included =>
      obtain rfl := List.mem_singleton.mp hs
      exact ⟨i, hmem⟩
  · rintro ⟨i, hmem⟩
    exact ⟨_, hmem, List.mem_singleton.mpr rfl⟩

/-- The failures of the document are the gaps that its directives become. -/
theorem mem_failures_iff {f : Failure} : f ∈ x.failures ↔
    ∃ i, (i, .gap f.error) ∈ (d.tree content).inclusions.zip cs ∧
      f.origin = originAt path i.location.start := by
  have hfailures := (Document.directives_fill x.stamp path h.length_eq).2
  rw [← h.fill] at hfailures
  rw [Document.failures,
    show failuresOfChunks none x.chunks = (Document.mk x.stamp x.chunks).failures from rfl,
    hfailures, Template.gathered, List.mem_flatMap]
  constructor
  · rintro ⟨⟨i, c⟩, hmem, hf⟩
    cases h.becomes_of_mem hmem with
    | refused | unreadable =>
      obtain rfl := List.mem_singleton.mp hf
      exact ⟨i, hmem, rfl⟩
    | included => cases hf
  · rintro ⟨i, hmem, horigin⟩
    refine ⟨_, hmem, List.mem_singleton.mpr ?_⟩
    obtain ⟨origin, error⟩ := f
    exact congrArg (Failure.mk · error) horigin

theorem mem_sites {origin : Origin} {y : Document}
    (hmem : (i, .inclusion origin y) ∈ (d.tree content).inclusions.zip cs) :
    (⟨origin, y⟩ : Site) ∈ x.sites := h.mem_sites_iff.mpr ⟨i, hmem⟩

theorem mem_failures {error : Include.IncludeError}
    (hmem : (i, .gap error) ∈ (d.tree content).inclusions.zip cs) :
    (⟨originAt path i.location.start, error⟩ : Failure) ∈ x.failures :=
  h.mem_failures_iff.mpr ⟨i, hmem, rfl⟩

end Composes

/-- A document that a compilation gets can be used where it begins. -/
theorem Gives.isValid (h : w.Gives d asked path x) : w.cache.isValid w.files x = true := by
  induction h with
  | found h => exact (found?_eq_some_iff.mp h).2
  | @made path content cs x h _ ih =>
    unfold Cache.isValid at ih ⊢
    cases hmode : w.cache.mode with
    | session => rfl
    | revalidate =>
      simp only [hmode] at ih ⊢
      refine (x.isFresh_iff w.files).mpr fun z hz => ?_
      rcases Document.mem_withIncluded_iff.mp hz with rfl | ⟨s, hs, hz⟩
      · have hcurrent : w.files.read z.stamp.path = .ok content :=
          (congrArg w.files.read h.path_eq).trans h.read
        simp [Stamp.isCurrent, hcurrent, h.hash_eq]
      · obtain ⟨i, hi⟩ := h.mem_sites_iff.mp hs
        obtain ⟨-, q, htarget, -⟩ := h.target_of_mem hi
        exact (s.document.isFresh_iff w.files).mp (ih i _ _ q hi htarget) z hz

/-! ## What compilations are held to -/

variable (d) (w)

/-- A correct answer to the last file of `chain`, which has asked for a path. -/
def Answers (chain : List String) (path : String) : Outcome → Set String → Prop
  | .ok x, asked => w.Gives d asked path x
  | .error (.cycle _), _ => (w.terms d).loops path
  | .error (.inclusion reason), _ => chain ≠ [] ∧ w.found? path = none ∧
    ∃ fault, w.files.read path = .error fault ∧ reason = .ofReadError path fault
  | .error (.template _ _), _ => chain = [] ∧ w.found? path = none ∧
    ∃ fault, w.files.read path = .error fault

/-- Jobs that begin in a world find or make documents. The times are the paths asked for so far. -/
def supply : Contract (Set String) where
  reads path r := w.files.read path = r
  asks := (w.terms d).MayAsk
  free path := w.found? path = none
  made := w.Answers d
  given chain path outcome asked := path ∈ asked ∧ w.Answers d chain path outcome asked

variable {d} {w} {chain : List String} {outcome : Outcome}

theorem Answers.mono (h : w.Answers d chain path outcome asked) (hle : asked ⊆ later) :
    w.Answers d chain path outcome later := by
  match outcome, h with
  | .ok x, h => exact Gives.mono h hle
  | .error (.cycle _), h => exact h
  | .error (.inclusion _), h => exact h
  | .error (.template _ _), h => exact h

/-- What a directive has become, and where the document comes from that it inserts. -/
structure Fills (w : World) (d : Dialect) (path : String) (i : Template.Inclusion) (c : Chunk)
    (asked : Set String) : Prop where
  becomes : w.Becomes d asked path i c
  gives : ∀ origin y q, c = .inclusion origin y → d.target i.arguments path = .ok q →
    w.Gives d asked q y

theorem fills_mono (i : Template.Inclusion) (c : Chunk) : Monotone (w.Fills d path i c) :=
  fun _ _ hle h => ⟨h.becomes.mono hle, fun origin y q hc hq => (h.gives origin y q hc hq).mono hle⟩

end World

namespace Job

variable {d : Dialect} {w : World}

/-- A directive becomes what it may, or leads into a cycle. -/
theorem meets_insert_supply {chain : List String} {path content : String}
    {compile : (path content : String) → Job Outcome} {i : Template.Inclusion} {now : Set String}
    (hlinked : (w.terms d).Linked (chain ++ [path])) (hnew : w.found? path = none)
    (hread : w.files.read path = .ok content) (hi : i ∈ (d.tree content).inclusions)
    (hcompile : ∀ q inner later, (w.terms d).MayAsk (chain ++ [path]) q → w.found? q = none →
      w.files.read q = .ok inner → (compile q inner).Meets (w.supply d) (chain ++ [path] ++ [q])
        later (w.Answers d (chain ++ [path]) q)) :
    (Stencil.insert d (chain ++ [path]) path compile i).run.Meets (w.supply d) (chain ++ [path]) now
      (Ends (fun e _ => ∃ cycle, e = .cycle cycle ∧ (w.terms d).loops path)
        (w.Fills d path i)) := by
  have hasks : ∀ q, d.target i.arguments path = .ok q → w.Asks d path q := by
    intro q hq
    exact ⟨hnew, content, hread, List.mem_filterMap.mpr ⟨i, hi, by rw [hq]; rfl⟩⟩
  have hmay : ∀ q, d.target i.arguments path = .ok q → q ∉ chain ++ [path] →
      (w.terms d).MayAsk (chain ++ [path]) q := by
    intro q hq hmem
    refine ⟨hmem, Dialect.normalize_of_target hq, fun last hlast => ?_⟩
    obtain rfl : path = last := by simpa using hlast
    exact hasks q hq
  refine meets_insert ?_ ?_ hmay ?_ ?_ ?_
  · intro reason hreason later _
    exact ⟨.refused hreason, fun origin y q _ hq => by rw [hreason] at hq; cases hq⟩
  · intro q cycle hq hmem later _
    refine ⟨cycle, rfl, fun hacc => ?_⟩
    exact Dialect.not_transGen_of_acc hacc (hlinked.around hmem (hasks q hq))
  · intro q fault _ _ hfree hfault later
    exact ⟨by simp, hfree, fault, hfault, rfl⟩
  · intro q inner later hq hmem hfree hinner
    exact hcompile q inner later (hmay q hq hmem) hfree hinner
  · intro q outcome later hq _ _ hgiven time htime
    obtain ⟨hmem, hanswer⟩ := hgiven
    match outcome, hanswer with
    | .ok x, hanswer =>
      refine ⟨.included hq (htime hmem), fun origin y q' hy hq' => ?_⟩
      obtain ⟨rfl, rfl⟩ := Chunk.inclusion.inj hy
      obtain rfl : q = q' := Except.ok.inj (hq.symm.trans hq')
      exact World.Gives.mono hanswer htime
    | .error (.cycle cycle), hloops =>
      exact ⟨cycle, rfl, fun hacc => hloops (hacc.inv (hasks q hq))⟩
    | .error (.inclusion _), ⟨_, hfree, fault, hfault, hreason⟩ =>
      subst hreason
      exact ⟨.unreadable hq (htime hmem) hfree hfault, fun origin y q' hy => by cases hy⟩
    | .error (.template _ _), ⟨hnil, _⟩ => simp at hnil

/-- **A text that is compiled keeps to what its world gives.** -/
theorem meets_compileText_supply {depth : Nat} {chain : List String} {path content : String}
    {now : Set String} (hdepth : w.files.size + 1 ≤ chain.length + depth)
    (hlinked : (w.terms d).Linked (chain ++ [path])) (hnew : w.found? path = none)
    (hread : w.files.read path = .ok content) :
    (compileText d depth chain path content).Meets (w.supply d) (chain ++ [path]) now
      (w.Answers d chain path) := by
  induction depth generalizing chain path content now with
  | zero =>
    -- the chain would hold more files than there are
    have hlength := hlinked.length_le
    rw [List.length_append, List.length_singleton] at hlength
    exact absurd hlength (by simp only [World.terms]; omega)
  | succ depth ih =>
    rw [Terms.compileText_succ]
    refine Meets.bind ((meets_chunks (fun _ _ _ _ h => h) World.fills_mono fun i hi later _ =>
      meets_insert_supply hlinked hnew hread hi fun q inner time hmay hfree hinner => ?_).imp ?_)
    · refine (ih ?_ (hlinked.snoc hmay hinner) hfree hinner)
      rw [List.length_append, List.length_singleton]
      omega
    · intro r later _ hr
      cases r with
      | error e =>
        obtain ⟨cycle, rfl, hloops⟩ := hr
        exact .done fun _ _ => hloops
      | ok chunks =>
        obtain ⟨cs, hfill, hcs⟩ := hr
        refine .number fun number => .done fun time htime => ?_
        have hcs' := hcs.imp fun i c hc => World.fills_mono i c htime hc
        have hcomposes : w.Composes d time path content cs
            (.mk ⟨number, path, contentHash content, (d.tree content).malformed⟩ chunks) :=
          ⟨hnew, hread, rfl, rfl, hfill, hcs'.imp fun _ _ hc => hc.becomes⟩
        refine .made hcomposes fun i origin y q hmem hq => ?_
        exact (List.forall₂_zip hcs' hmem).gives origin y q rfl hq

/-- So does the compilation of a file. -/
theorem meets_compileFile_supply {depth : Nat} (hdepth : w.files.size + 1 ≤ depth) {path : String}
    (hnormal : Path.normalize path = path) (now : Set String) :
    (compileFile d depth path).Meets (w.supply d) [] now fun outcome asked =>
      path ∈ asked ∧ w.Answers d [] path outcome asked := by
  refine .obtain ⟨by simp, hnormal, by simp⟩ (fun later _ hfree => .read fun r hr => ?_)
    fun outcome later _ hgiven => .done fun time htime => ⟨htime hgiven.1, hgiven.2.mono htime⟩
  cases r with
  | ok content =>
    exact meets_compileText_supply (hdepth.trans_eq (Nat.zero_add depth).symm)
      (Terms.linked_singleton _ path) hfree hr
  | error fault => exact .done fun _ _ => ⟨rfl, hfree, fault, hr⟩

end Job

/-! ## Carrying out jobs -/

/-- A world in the middle of a compilation that began in the world `start`, has asked for the paths
in `asked`, and is at work on those in `claimed`. -/
structure World.Supplies (start : World) (d : Dialect) (owner : Nat) (claimed : List String)
    (asked : Set String) (w : World) : Prop where
  files : w.files = start.files
  mode : w.cache.mode = start.cache.mode
  /-- What could be used at the beginning is still there. -/
  stays : ∀ path x, start.found? path = some x → w.cache.slot? path = some (.ready x)
  gives : w.Keeps fun path x => start.cache.isValid start.files x = true →
    start.Gives d asked path x
  /-- What cannot be used is given up when it is asked for. -/
  valid : w.Keeps fun path x => path ∈ asked → start.cache.isValid start.files x = true
  own : ∀ path other, w.cache.slot? path = some (.compiling other) → other = owner ∧ path ∈ claimed

namespace World.Supplies

variable {start w : World} {d : Dialect} {owner : Nat} {claimed : List String}
  {asked : Set String} {path : String}

theorem isValid_eq (h : start.Supplies d owner claimed asked w) (x : Document) :
    w.cache.isValid w.files x = start.cache.isValid start.files x := by
  rw [h.files]
  exact Cache.isValid_eq h.mode start.files x

/-- What is found on the way was found at the beginning or has been made since. -/
theorem found?_eq_none (h : start.Supplies d owner claimed asked w) (hnone : w.found? path = none) :
    start.found? path = none := by
  cases hfound : start.found? path with
  | none => rfl
  | some x =>
    have hvalid := (World.found?_eq_some_iff.mp hfound).2
    rw [← h.isValid_eq] at hvalid
    rw [World.found?_eq_some_iff.mpr ⟨h.stays path x hfound, hvalid⟩] at hnone
    cases hnone

/-- With one more path that has been asked for and found, a compilation is still supplied. -/
theorem find (h : start.Supplies d owner claimed asked w) {x : Document}
    (hfound : w.found? path = some x) :
    start.Supplies d owner claimed (asked ∪ {path}) w ∧
      start.Gives d (asked ∪ {path}) path x := by
  obtain ⟨hslot, hvalid⟩ := World.found?_eq_some_iff.mp hfound
  rw [h.isValid_eq] at hvalid
  refine ⟨{ h with gives := ?_, valid := ?_ }, ?_⟩
  · exact fun q y hready hy => (h.gives q y hready hy).mono Set.subset_union_left
  · intro q y hready hq
    rcases hq with hq | rfl
    · exact h.valid q y hready hq
    · obtain rfl : x = y := by simpa using hslot.symm.trans hready
      exact hvalid
  · exact (h.gives path x hslot hvalid).mono Set.subset_union_left

/-- With one more slot that it has claimed, a compilation is still supplied. -/
theorem claim (h : start.Supplies d owner claimed asked w) (hnone : w.found? path = none) :
    start.Supplies d owner (claimed ++ [path]) (asked ∪ {path})
      { w with cache := w.cache.fill path (.compiling owner) } := by
  have hnew := h.found?_eq_none hnone
  refine ⟨h.files, h.mode, fun q x hx => ?_, ?_, ?_, fun q other hslot => ?_⟩
  · have hne : q ≠ path := by
      rintro rfl
      rw [hnew] at hx
      cases hx
    rw [Cache.slot?_fill, if_neg hne]
    exact h.stays q x hx
  · exact (h.gives.imp fun q x hx hvalid =>
      (hx hvalid).mono Set.subset_union_left).claim owner path
  · intro q x hready hq
    rw [Cache.slot?_fill] at hready
    split at hready
    · cases hready
    · rename_i hne
      exact h.valid q x hready (hq.resolve_right hne)
  · rw [Cache.slot?_fill] at hslot
    split at hslot
    · rename_i hq
      obtain rfl : owner = other := by simpa using hslot
      exact ⟨rfl, by simp [hq]⟩
    · obtain ⟨hother, hmem⟩ := h.own q other hslot
      exact ⟨hother, List.mem_append_left _ hmem⟩

/-- When the work on a file is settled with a correct answer, its slot is not claimed any more. -/
theorem settle {chain : List String} {outcome : Outcome}
    (h : start.Supplies d owner (claimed ++ [path]) asked w)
    (hanswer : start.Answers d chain path outcome asked) :
    start.Supplies d owner claimed asked (w.settle owner path outcome) := by
  refine ⟨h.files, (w.mode_settle owner path outcome).trans h.mode, fun q x hx => ?_, ?_, ?_,
    fun q other hslot => ?_⟩
  · exact World.ready_settle (h.stays q x hx)
  · refine h.gives.settle owner fun x hx _ _ => ?_
    subst hx
    exact hanswer
  · refine h.valid.settle owner fun x hx _ _ => ?_
    subst hx
    exact World.Gives.isValid hanswer
  · have hmine : ∀ other, w.cache.slot? path = some (.compiling other) → other = owner :=
      fun other hother => (h.own path other hother).1
    obtain ⟨hold, hne⟩ := World.compiling_of_settle hmine hslot
    obtain ⟨hother, hmem⟩ := h.own q other hold
    refine ⟨hother, (List.mem_append.mp hmem).resolve_right fun hlast => ?_⟩
    exact hne (List.mem_singleton.mp hlast)

end World.Supplies

/-- **Carried out alone, a job is supplied by the world that it begins with.** -/
theorem Job.run_meets {start : World} {d : Dialect} {owner : Nat} {α : Type} {m : Job α}
    {chain : List String} {now : Set String} {post : α → Set String → Prop}
    (h : m.Meets (start.supply d) chain now post) {w : World} {claimed : List String}
    (hw : start.Supplies d owner claimed now w) (hclaimed : claimed ⊆ chain) :
    ∃ later, now ⊆ later ∧ start.Supplies d owner claimed later (m.run owner w).2 ∧
      post (m.run owner w).1 later := by
  induction h generalizing w claimed with
  | @done α a chain now post hpost => exact ⟨now, le_rfl, hw, hpost now le_rfl⟩
  | @read α path next chain now post _ ih =>
    rw [Job.run]
    exact ih _ (by rw [hw.files]; rfl) hw hclaimed
  | @number α next chain now post _ ih =>
    rw [Job.run]
    exact ih w.nextDocument
      ⟨hw.files, hw.mode, hw.stays, hw.gives, hw.valid, hw.own⟩ hclaimed
  | @obtain α path asked compile next chain now post hasks _ _ ihcompile ihnext =>
    rw [Job.run, World.obtain]
    have hle : now ⊆ now ∪ {path} := Set.subset_union_left
    rcases w.enter_cases owner path with ⟨x, hfound, henter⟩ | ⟨hnone, henter⟩ |
      ⟨other, cache, entrance, hslot, -⟩
    · rw [henter]
      obtain ⟨hfind, hgives⟩ := hw.find hfound
      obtain ⟨later, hlater, hafter, hpost⟩ :=
        ihnext (.ok x) _ hle ⟨.inr rfl, hgives⟩ hfind hclaimed
      exact ⟨later, hle.trans hlater, hafter, hpost⟩
    · rw [henter]
      have hmore : claimed ++ [path] ⊆ chain ++ [path] :=
        List.append_subset.mpr ⟨fun p hp => List.mem_append_left _ (hclaimed hp),
          List.subset_append_right _ _⟩
      obtain ⟨mid, hmid, hcompiled, hanswer⟩ :=
        ihcompile _ hle (hw.found?_eq_none hnone) (hw.claim hnone) hmore
      obtain ⟨later, hlater, hafter, hpost⟩ := ihnext _ mid (hle.trans hmid)
        ⟨hmid (.inr rfl), hanswer⟩ (hcompiled.settle hanswer) hclaimed
      exact ⟨later, (hle.trans hmid).trans hlater, hafter, hpost⟩
    · -- no file of the chain is asked for
      exact absurd (hclaimed (hw.own path other hslot).2) hasks.new

end Stencil
