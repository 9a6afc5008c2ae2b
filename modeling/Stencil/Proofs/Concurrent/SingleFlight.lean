import Stencil.Proofs.Compile.Contract
import Stencil.Proofs.Concurrent.Tenure
import Stencil.Proofs.Engine.Virtual

/-! # One compilation and one document for each path

As long as nobody gives up slots from outside, a slot that is at work stays so until its owner is
done, and in a cache that does not look at files again a document that is stored stays for good.  So
no path is compiled twice at the same time, and whoever gets a document without gaps for a path gets
the one in its slot.  The documents inside of it were got in the same way.

Files may change all the while, so that nothing is said of what a document was made from.  The times
of the contract are what the cache keeps, which only grows.
-/
namespace Stencil

/-- Which documents are kept, and for which paths. -/
abbrev Stock := String → Document → Prop

/-- The documents in the slots of a cache. -/
def Cache.stock (c : Cache) : Stock := fun path document => c.slot? path = some (.ready document)

/-- A document and all that it includes are kept, each for its own path. -/
def Document.Rests (now : Stock) (document : Document) : Prop :=
  ∀ x ∈ document.withIncluded, now x.path x

/-- Jobs answer for a path with a document of that path.  If it has no gaps, all that it includes is
kept; and once it is handed out, it is kept as well. -/
def oneDocument : Contract Stock where
  reads _ _ := True
  asks _ _ := True
  free _ := True
  made _ path outcome now := ∀ x, outcome = .ok x → x.path = path ∧
    (x.hasGaps = false → ∀ s ∈ x.sites, s.document.Rests now)
  given _ path outcome now := ∀ x, outcome = .ok x → x.path = path ∧
    (x.hasGaps = false → x.Rests now)

section
variable {now later : Stock} {path : String} {chain : List String}

theorem Document.Rests.mono {document : Document} (h : document.Rests now) (hle : now ≤ later) :
    document.Rests later :=
  fun x hx => hle x.path x (h x hx)

/-- A document rests if it is kept and what it includes rests. -/
theorem Document.rests_of_sites {document : Document} (hkept : now document.path document)
    (hsites : ∀ s ∈ document.sites, s.document.Rests now) : document.Rests now := by
  intro x hx
  rcases Document.mem_withIncluded_iff.mp hx with rfl | ⟨s, hs, hx⟩
  · exact hkept
  · exact hsites s hs x hx

theorem oneDocument.given_mono {outcome : Outcome} :
    Monotone (oneDocument.given chain path outcome) :=
  fun _ _ hle h x hx => ⟨(h x hx).1, fun hwhole => ((h x hx).2 hwhole).mono hle⟩

/-- There is nothing to show of an error. -/
theorem oneDocument.made_error (reason : CompileError) :
    oneDocument.made chain path (.error reason) now :=
  fun _ hx => by cases hx

theorem oneDocument.given_error (reason : CompileError) :
    oneDocument.given chain path (.error reason) now :=
  fun _ hx => by cases hx

end

/-! ## Compilations keep the contract -/

namespace Job

/-- What a directive has become rests, unless it has a gap. -/
def Settles (c : Chunk) (now : Stock) : Prop :=
  c.hasGaps = false → ∀ s ∈ c.sites, s.document.Rests now

theorem settles_mono (c : Chunk) : Monotone (Settles c) :=
  fun _ _ hle h hwhole s hs => (h hwhole s hs).mono hle

/-- What a document without gaps includes rests, if what its directives have become does. -/
theorem rests_of_fill {now : Stock} {stamp : Stamp} {tree : Template.Tree} {source : String}
    {cs : List Chunk} (h : List.Forall₂ (fun _ c => Settles c now) tree.inclusions cs)
    (hwhole : (Document.mk stamp (tree.fill source cs)).hasGaps = false) :
    ∀ s ∈ (Document.mk stamp (tree.fill source cs)).sites, s.document.Rests now := by
  obtain ⟨hsites, hfailures⟩ := Document.directives_fill stamp source h.length_eq.symm
  have hnone := mt (Document.hasGaps_iff (.mk stamp (tree.fill source cs))).mpr
    (ne_true_of_eq_false hwhole)
  rw [not_or, not_not, hfailures, hsites] at hnone
  obtain ⟨hfail, hinner⟩ := hnone
  rw [hsites]
  intro s hs
  obtain ⟨⟨i, c⟩, hmem, hs⟩ := List.mem_flatMap.mp hs
  refine List.forall₂_zip h hmem ?_ s hs
  -- a gap of the piece would be one of the whole
  by_contra hgaps
  rcases (c.hasGaps_iff (some (Template.originAt source i.location.start))).mp
    (by simpa using hgaps) with hown | ⟨s', hs', hgaps'⟩
  · exact hown (List.flatMap_eq_nil_iff.mp hfail (i, c) hmem)
  · exact hinner ⟨s', List.mem_flatMap.mpr ⟨(i, c), hmem, hs'⟩, hgaps'⟩

/-- **A compiled text keeps the contract**, whatever is found when files are read. -/
theorem meets_compileText (d : Dialect) (depth : Nat) (chain : List String)
    (path content : String) (now : Stock) :
    (compileText d depth chain path content).Meets oneDocument (chain ++ [path]) now
      (oneDocument.made chain path) := by
  induction depth generalizing chain path content now with
  | zero => exact .done fun _ _ => oneDocument.made_error _
  | succ depth ih =>
    have hinsert : ∀ i ∈ (d.tree content).inclusions, ∀ later, now ≤ later →
        (Stencil.insert d (chain ++ [path]) path
          (compileText d depth (chain ++ [path])) i).run.Meets oneDocument (chain ++ [path]) later
          (Ends (fun _ _ => True) Settles) := by
      intro i _ later _
      refine meets_insert (fun reason _ time _ hwhole => by cases hwhole)
        (fun _ _ _ _ _ _ => trivial) (fun _ _ _ => trivial)
        (fun _ _ _ _ _ _ _ => oneDocument.made_error _)
        (fun q inner time _ _ _ _ => ih (chain ++ [path]) q inner time) ?_
      intro q outcome time _ _ _ hgiven final hfinal
      match outcome, hgiven with
      | .ok x, hgiven =>
        intro hwhole s hs
        obtain rfl := List.mem_singleton.mp hs
        exact ((hgiven x rfl).2 hwhole).mono hfinal
      | .error (.inclusion reason), _ => exact fun hwhole => by cases hwhole
      | .error (.cycle _), _ => trivial
      | .error (.template _ _), _ => trivial
    rw [Terms.compileText_succ]
    refine Meets.bind ((meets_chunks (fun _ _ _ _ => id) (fun _ => settles_mono) hinsert).imp ?_)
    intro r later _ hr
    cases r with
    | error reason => exact .done fun _ _ => oneDocument.made_error _
    | ok chunks =>
      obtain ⟨cs, hfill, hcs⟩ := hr
      refine .number fun number => .done fun time htime x hx => ?_
      obtain rfl := Except.ok.inj hx
      refine ⟨rfl, fun hwhole s hs => ?_⟩
      rw [hfill] at hwhole hs
      exact (rests_of_fill hcs hwhole s hs).mono htime

/-- So does a compiled file. -/
theorem meets_compileFile (d : Dialect) (depth : Nat) (path : String) (now : Stock) :
    (compileFile d depth path).Meets oneDocument [] now (oneDocument.given [] path) := by
  refine .obtain trivial (fun later _ _ => .read fun r _ => ?_) fun outcome later _ hgiven =>
    .done fun time htime => oneDocument.given_mono htime hgiven
  cases r with
  | ok content => exact meets_compileText d depth [] path content later
  | error reason => exact .done fun _ _ => oneDocument.made_error _

end Job

/-! ## Compilations under way -/

namespace Thread

/-- The paths whose jobs a compilation is carrying out, the innermost first. -/
def running (t : Thread) : List String := t.claims.map Claim.path

/-- The path that a compilation has asked for, and the document that it has just been answered
with. -/
def returned? (t : Thread) : Option (String × Document) :=
  match t.phase with
  | .judge call document [] => some (call.path, document)
  | .release claim (.ok document) => some (claim.path, document)
  | _ => none

/-- A compilation goes on as it should with every answer to a question for a path. -/
def Resumes (now : Stock) (chain : List String) (path : String) (next : Outcome → Job Outcome)
    (post : Outcome → Stock → Prop) : Prop :=
  ∀ outcome later, now ≤ later → oneDocument.given chain path outcome later →
    (next outcome).Meets oneDocument chain later post

/-- Claims that were made one inside the other for the files of a chain, and what the innermost job
has to end with. -/
inductive Piled (now : Stock) :
    List Claim → (chain : List String) → (post : Outcome → Stock → Prop) → Prop
  | nil {chain : List String} : Piled now [] chain fun _ _ => True
  | cons {claims : List Claim} {chain : List String} {post : Outcome → Stock → Prop}
    {path : String} {next : Outcome → Job Outcome} (h : Piled now claims chain post)
    (hnext : Resumes now chain path next post) :
    Piled now (⟨path, next⟩ :: claims) (chain ++ [path]) (oneDocument.made chain path)

/-- A compilation that keeps the contract. -/
inductive Keeps (now : Stock) : Thread → Prop
  | work {job : Job Outcome} {claims : List Claim} {chain : List String}
    {post : Outcome → Stock → Prop} (hpile : Piled now claims chain post)
    (h : job.Meets oneDocument chain now post) : Keeps now ⟨.work job, claims⟩
  | judge {call : Call} {document : Document} {claims : List Claim} {chain : List String}
    {post : Outcome → Stock → Prop} (hpile : Piled now claims chain post)
    (h : call.job.Meets oneDocument chain now post) (hkept : now call.path document) :
    Keeps now ⟨.judge call document [], claims⟩
  | sleep {call : Call} {woken : Bool} {claims : List Claim} {chain : List String}
    {post : Outcome → Stock → Prop} (hpile : Piled now claims chain post)
    (h : call.job.Meets oneDocument chain now post) : Keeps now ⟨.sleep call woken, claims⟩
  | release {path : String} {next : Outcome → Job Outcome} {outcome : Outcome}
    {claims : List Claim} {chain : List String} {post : Outcome → Stock → Prop}
    (hpile : Piled now claims chain post) (hnext : Resumes now chain path next post)
    (hgiven : oneDocument.given chain path outcome now) :
    Keeps now ⟨.release ⟨path, next⟩ outcome, claims⟩
  | announce {job : Job Outcome} {claims : List Claim} {chain : List String}
    {post : Outcome → Stock → Prop} (hpile : Piled now claims chain post)
    (h : job.Meets oneDocument chain now post) : Keeps now ⟨.announce job, claims⟩

variable {now later : Stock} {t : Thread} {claims : List Claim} {chain : List String}
  {post : Outcome → Stock → Prop} {call : Call}

theorem Resumes.mono {path : String} {next : Outcome → Job Outcome}
    (h : Resumes now chain path next post) (hle : now ≤ later) :
    Resumes later chain path next post :=
  fun outcome time htime => h outcome time (hle.trans htime)

theorem Piled.mono (h : Piled now claims chain post) (hle : now ≤ later) :
    Piled later claims chain post := by
  induction h with
  | nil => exact .nil
  | cons _ hnext ih => exact .cons ih (hnext.mono hle)

theorem Keeps.mono (h : Keeps now t) (hle : now ≤ later) : Keeps later t := by
  cases h with
  | work hpile h => exact .work (hpile.mono hle) (h.defer hle)
  | judge hpile h hkept => exact .judge (hpile.mono hle) (h.defer hle) (hle _ _ hkept)
  | sleep hpile h => exact .sleep (hpile.mono hle) (h.defer hle)
  | release hpile hnext hgiven =>
    exact .release (hpile.mono hle) (hnext.mono hle) (oneDocument.given_mono hle hgiven)
  | announce hpile h => exact .announce (hpile.mono hle) (h.defer hle)

theorem Keeps.rouse (h : Keeps now t) : Keeps now t.rouse := by
  cases h with
  | work hpile h => exact .work hpile h
  | judge hpile h hkept => exact .judge hpile h hkept
  | sleep hpile h => exact .sleep hpile h
  | release hpile hnext hgiven => exact .release hpile hnext hgiven
  | announce hpile h => exact .announce hpile h

@[simp] theorem running_rouse (t : Thread) : t.rouse.running = t.running := by
  obtain ⟨phase, claims⟩ := t
  cases phase <;> rfl

/-- A question under the contract, and how the compilation goes on with the answer. -/
theorem resumes_of_call (h : call.job.Meets oneDocument chain now post) :
    call.compile.Meets oneDocument (chain ++ [call.path]) now (oneDocument.made chain call.path) ∧
      Resumes now chain call.path call.next post := by
  cases h with
  | obtain _ hcompile hnext => exact ⟨hcompile now le_rfl trivial, hnext⟩

end Thread

/-- A step that gives up no slot from outside. -/
def Act.keepsSlots : Act → Bool
  | .invalidate _ | .clear => false
  | .move _ | .announce | .edit _ => true

namespace Pool
open Thread (Keeps Piled)

/-- The paths whose jobs are being carried out. -/
def running (s : Pool) : List String := s.threads.flatMap Thread.running

/-- The path that compilation `i` has asked for, and the document that it has just been answered
with. -/
def returned? (s : Pool) (i : Nat) : Option (String × Document) :=
  s.threads[i]?.bind Thread.returned?

/-- The documents that are kept. -/
def stock (s : Pool) : Stock := s.world.cache.stock

/-- What holds as long as nobody gives up slots from outside, after a time of the past. -/
structure Steady (past : Stock) (s : Pool) : Prop where
  session : s.world.cache.mode = .session
  since : past ≤ s.stock
  /-- What is kept is whole, and so kept with all that it includes. -/
  whole : ∀ path document, s.stock path document →
    document.path = path ∧ document.hasGaps = false ∧ document.Rests s.stock
  /-- A slot is at work for the compilation that carries out its job. -/
  owned : ∀ (i : Nat) (t : Thread), s.threads[i]? = some t →
    ∀ path ∈ t.running, s.world.cache.slot? path = some (.compiling i)
  /-- No compilation claims a slot again that it has not given up. -/
  once : ∀ (i : Nat) (t : Thread), s.threads[i]? = some t → t.held.Nodup
  keeps : ∀ (i : Nat) (t : Thread), s.threads[i]? = some t → t.Keeps s.stock

variable {past : Stock} {s s' : Pool} {i : Nat} {t t' : Thread} {w : World} {path : String}

/-- A step of one compilation keeps the pool steady, if it takes away no document and no slot that
another compilation is at work on. -/
theorem Steady.put (h : s.Steady past) (ht : s.threads[i]? = some t)
    (hmode : w.cache.mode = s.world.cache.mode) (hle : s.stock ≤ w.cache.stock)
    (hwhole : ∀ path document, w.cache.stock path document → s.stock path document ∨
      document.path = path ∧ document.hasGaps = false ∧ document.Rests w.cache.stock)
    (hothers : ∀ path j, j ≠ i → s.world.cache.slot? path = some (.compiling j) →
      w.cache.slot? path = some (.compiling j))
    (howned : ∀ path ∈ t'.running, w.cache.slot? path = some (.compiling i))
    (honce : t'.held.Nodup) (hkeeps : t'.Keeps w.cache.stock) : (s.put i t' w).Steady past where
  session := hmode.trans h.session
  since := h.since.trans hle
  whole path document hkept := by
    rcases hwhole path document hkept with hold | hnew
    · obtain ⟨hpath, hgaps, hrests⟩ := h.whole path document hold
      exact ⟨hpath, hgaps, hrests.mono hle⟩
    · exact hnew
  owned j u hu path hpath := by
    rw [getElem?_put ht] at hu
    split at hu
    · rename_i hj
      obtain rfl := Option.some.inj hu
      exact hj ▸ howned path hpath
    · rename_i hj
      exact hothers path j hj (h.owned j u hu path hpath)
  once j u hu := by
    rw [getElem?_put ht] at hu
    split at hu
    · obtain rfl := Option.some.inj hu
      exact honce
    · exact h.once j u hu
  keeps j u hu := by
    rw [getElem?_put ht] at hu
    split at hu
    · obtain rfl := Option.some.inj hu
      exact hkeeps
    · exact (h.keeps j u hu).mono hle

/-- A step that leaves the slots alone keeps the pool steady. -/
theorem Steady.quiet (h : s.Steady past) (ht : s.threads[i]? = some t)
    (hmode : w.cache.mode = s.world.cache.mode)
    (hslots : w.cache.slots = s.world.cache.slots) (hrunning : t'.running <:+ t.running)
    (hheld : t'.held = t.held) (hkeeps : t'.Keeps s.stock) : (s.put i t' w).Steady past := by
  have hslot (path : String) : w.cache.slot? path = s.world.cache.slot? path := by
    rw [Cache.slot?, Cache.slot?, hslots]
  have hstock : w.cache.stock = s.stock := by
    funext path document
    rw [stock, Cache.stock, Cache.stock, hslot]
  refine h.put ht hmode hstock.ge (fun path document hkept => .inl (hstock ▸ hkept))
    (fun path j _ hj => (hslot path).trans hj) (fun path hpath => ?_) (hheld ▸ h.once i t ht)
    (hstock ▸ hkeeps)
  rw [hslot]
  exact h.owned i t ht path (hrunning.subset hpath)

/-- A compilation that asks is answered from what is kept, or makes the document of a path that
nobody is at work on. -/
theorem Steady.ask (h : s.Steady past) (call : Call) {claims : List Claim}
    (ht : s.threads[i]? = some ⟨.work call.job, claims⟩) :
    (s.put i (Thread.ask ⟨.work call.job, claims⟩ i call none s.world).1
      (Thread.ask ⟨.work call.job, claims⟩ i call none s.world).2).Steady past := by
  have hheld := h.once i _ ht
  have howned := h.owned i _ ht
  obtain ⟨chain, post, hpile, hcall⟩ : ∃ chain post,
      Piled s.stock claims chain post ∧ call.job.Meets oneDocument chain s.stock post := by
    cases h.keeps i _ ht with
    | work hpile hcall => exact ⟨_, _, hpile, hcall⟩
  obtain ⟨hcompile, hnext⟩ := Thread.resumes_of_call hcall
  unfold Thread.ask Cache.enter
  match hslot : s.world.cache.slot? call.path with
  | some (.ready document) =>
    have hjudged : s.world.cache.judged document = [] := by rw [Cache.judged, h.session]
    refine h.quiet ht rfl rfl (List.suffix_refl _) rfl ?_
    simp only [reduceCtorEq, ↓reduceIte, Thread.meet, hjudged]
    exact .judge hpile hcall hslot
  | some (.compiling other) =>
    by_cases hloop : s.world.cache.closesLoop i other = true
    · simp only [hloop, ↓reduceIte]
      refine h.quiet ht rfl rfl (List.suffix_refl _) rfl (.work hpile ?_)
      exact hnext _ _ le_rfl (oneDocument.given_error _)
    · simp only [hloop, Bool.false_eq_true, ↓reduceIte]
      exact h.quiet ht rfl rfl (List.suffix_refl _) rfl (.sleep hpile hcall)
  | none =>
    have hne {path : String} {slot : Slot} (hpath : s.world.cache.slot? path = some slot) :
        path ≠ call.path := by
      rintro rfl
      rw [hslot] at hpath
      cases hpath
    have hfill {path : String} (hpath : path ≠ call.path) :
        (s.world.cache.fill call.path (.compiling i)).slot? path = s.world.cache.slot? path := by
      rw [Cache.slot?_fill, if_neg hpath]
    have hle : s.stock ≤ (s.world.cache.fill call.path (.compiling i)).stock :=
      fun path document hkept => (hfill (hne hkept)).trans hkept
    refine h.put ht rfl hle (fun path document hkept => .inl ?_)
      (fun path j _ hj => (hfill (hne hj)).trans hj) (fun path hpath => ?_) ?_
      (.work (.cons (hpile.mono hle) (hnext.mono hle)) (hcompile.defer hle))
    · rw [Cache.stock, Cache.slot?_fill] at hkept
      split at hkept
      · cases hkept
      · exact hkept
    · rcases List.mem_cons.mp hpath with rfl | hpath
      · exact (Cache.slot?_fill ..).trans (if_pos rfl)
      · exact (hfill (hne (howned path hpath))).trans (howned path hpath)
    · refine List.nodup_cons.mpr ⟨fun hmem => ?_, hheld⟩
      exact hne (howned call.path hmem) rfl

/-- A compilation that stores what it has made adds it to what is kept. -/
theorem Steady.store (h : s.Steady past) {claim : Claim} {claims : List Claim} {document : Document}
    (ht : s.threads[i]? = some ⟨.work (.done (.ok document)), claim :: claims⟩) :
    (s.put i ⟨.release claim (.ok document), claims⟩
      { s.world with cache := s.world.cache.store i claim.path document }).Steady past := by
  have hnodup : (claim.path :: claims.map Claim.path).Nodup := h.once i _ ht
  have howned := h.owned i _ ht
  have hmine : s.world.cache.slot? claim.path = some (.compiling i) :=
    howned claim.path List.mem_cons_self
  obtain ⟨chain, post, hpile, hnext, hpath, hsites⟩ : ∃ chain post,
      Piled s.stock claims chain post ∧ Thread.Resumes s.stock chain claim.path claim.next post ∧
        document.path = claim.path ∧
        (document.hasGaps = false → ∀ x ∈ document.sites, x.document.Rests s.stock) := by
    cases h.keeps i _ ht with
    | work hpile hjob =>
      cases hjob with
      | done hpost =>
        cases hpile with
        | cons hpile hnext => exact ⟨_, _, hpile, hnext, hpost _ le_rfl document rfl⟩
  have hother {path : String} (hne : path ≠ claim.path) :
      (s.world.cache.store i claim.path document).slot? path = s.world.cache.slot? path := by
    rw [Cache.slot?_store, if_neg fun hand => hne hand.1]
  have hle : s.stock ≤ (s.world.cache.store i claim.path document).stock := by
    intro path other hkept
    refine (hother ?_).trans hkept
    rintro rfl
    cases hmine.symm.trans hkept
  -- a document without gaps is kept from now on, and so rests
  have hrests (hwhole : document.hasGaps = false) :
      document.Rests (s.world.cache.store i claim.path document).stock := by
    refine Document.rests_of_sites ?_ fun x hx => (hsites hwhole x hx).mono hle
    rw [Cache.stock, Cache.slot?_store, hpath,
      if_pos ⟨rfl, Cache.isOwned_iff.mpr hmine, hwhole⟩]
  refine h.put ht (Cache.mode_store ..) hle (fun path other hkept => ?_)
    (fun path j hne hj => (hother ?_).trans hj) (fun path hmem => (hother ?_).trans ?_) hnodup
    (.release (hpile.mono hle) (hnext.mono hle) ?_)
  · rw [Cache.stock, Cache.slot?_store] at hkept
    split at hkept
    · rename_i hand
      obtain rfl : document = other := by simpa using hkept
      exact .inr ⟨hpath.trans hand.1.symm, hand.2.2, hrests hand.2.2⟩
    · exact .inl hkept
  · rintro rfl
    obtain rfl : i = j := by simpa using hmine.symm.trans hj
    exact hne rfl
  · rintro rfl
    exact (List.nodup_cons.mp hnodup).1 hmem
  · exact howned path (List.mem_cons_of_mem _ hmem)
  · intro x hx
    obtain rfl := Except.ok.inj hx
    exact ⟨hpath, hrests⟩

/-- A compilation that gives up a slot takes away no document. -/
theorem Steady.release (h : s.Steady past) {claim : Claim} {claims : List Claim} {outcome : Outcome}
    (ht : s.threads[i]? = some ⟨.release claim outcome, claims⟩) :
    (s.put i ⟨.announce (claim.next outcome), claims⟩
      { s.world with cache := s.world.cache.release i claim.path }).Steady past := by
  have hnodup : (claim.path :: claims.map Claim.path).Nodup := h.once i _ ht
  have hkept {path : String} {slot : Slot} (hpath : s.world.cache.slot? path = some slot)
      (hne : path = claim.path → slot ≠ .compiling i) :
      (s.world.cache.release i claim.path).slot? path = some slot := by
    rw [Cache.slot?_release, if_neg, hpath]
    rintro ⟨rfl, hmine⟩
    rw [Cache.isOwned_iff, hpath] at hmine
    exact hne rfl (Option.some.inj hmine)
  have hle : s.stock ≤ (s.world.cache.release i claim.path).stock :=
    fun path document hpath => hkept hpath fun _ => by simp
  refine h.put ht (Cache.mode_release ..) hle (fun path document hstock => .inl ?_)
    (fun path j hne hj => hkept hj fun _ => by simpa using hne) (fun path hmem => ?_)
    (List.nodup_cons.mp hnodup).2 ?_
  · rw [Cache.stock, Cache.slot?_release] at hstock
    split at hstock
    · cases hstock
    · exact hstock
  · refine hkept (h.owned i _ ht path hmem) fun hpath => ?_
    exact absurd (hpath ▸ hmem) (List.nodup_cons.mp hnodup).1
  · cases h.keeps i _ ht with
    | release hpile hnext hgiven =>
      exact .announce (hpile.mono hle) ((hnext outcome _ le_rfl hgiven).defer hle)

/-- Waking up compilations keeps the pool steady. -/
theorem Steady.rouse (h : s.Steady past) {threads : List Thread} (pending : Nat)
    (hthreads : ∀ (i : Nat) (t : Thread), threads[i]? = some t →
      s.threads[i]? = some t ∨ ∃ u, s.threads[i]? = some u ∧ t = u.rouse) :
    Steady past { s with threads, pending } where
  session := h.session
  since := h.since
  whole := h.whole
  owned i t ht path hpath := by
    rcases hthreads i t ht with ht | ⟨u, hu, rfl⟩
    · exact h.owned i t ht path hpath
    · exact h.owned i u hu path (u.running_rouse ▸ hpath)
  once i t ht := by
    rcases hthreads i t ht with ht | ⟨u, hu, rfl⟩
    · exact h.once i t ht
    · exact u.held_rouse ▸ h.once i u hu
  keeps i t ht := by
    rcases hthreads i t ht with ht | ⟨u, hu, rfl⟩
    · exact h.keeps i t ht
    · exact (h.keeps i u hu).rouse

/-- A step of a compilation keeps the pool steady. -/
theorem Steady.go (h : s.Steady past) (hgo : s.go? i = some s') : s'.Steady past := by
  obtain ⟨t, t', w, ht, hstep, rfl⟩ := exists_of_go? hgo
  have hkeeps := h.keeps i t ht
  match t, ht, hstep, hkeeps with
  | ⟨.work (.done (.ok document)), claim :: claims⟩, ht, hstep, _ =>
    obtain ⟨rfl, rfl⟩ := Prod.mk.inj (Option.some.inj hstep)
    exact h.store ht
  | ⟨.work (.done (.error reason)), claim :: claims⟩, ht, hstep, .work hpile _ =>
    obtain ⟨rfl, rfl⟩ := Prod.mk.inj (Option.some.inj hstep)
    cases hpile with
    | cons hpile hnext =>
      exact h.quiet ht rfl rfl (List.suffix_cons ..) rfl
        (.release hpile hnext (oneDocument.given_error reason))
  | ⟨.work (.read path next), claims⟩, ht, hstep, .work hpile hjob =>
    obtain ⟨rfl, rfl⟩ := Prod.mk.inj (Option.some.inj hstep)
    cases hjob with
    | read hjob =>
      exact h.quiet ht rfl rfl (List.suffix_refl _) rfl (.work hpile (hjob _ trivial))
  | ⟨.work (.number next), claims⟩, ht, hstep, .work hpile hjob =>
    obtain ⟨rfl, rfl⟩ := Prod.mk.inj (Option.some.inj hstep)
    cases hjob with
    | number hjob => exact h.quiet ht rfl rfl (List.suffix_refl _) rfl (.work hpile (hjob _))
  | ⟨.work (.obtain path chain compile next), claims⟩, ht, hstep, _ =>
    obtain ⟨rfl, rfl⟩ := Prod.mk.inj (Option.some.inj hstep)
    exact h.ask ⟨path, chain, compile, next⟩ ht
  | ⟨.judge call document [], claims⟩, ht, hstep, .judge hpile hcall hkept =>
    obtain ⟨rfl, rfl⟩ := Prod.mk.inj (Option.some.inj hstep)
    obtain ⟨hpath, -, hrests⟩ := h.whole _ _ hkept
    refine h.quiet ht rfl rfl (List.suffix_refl _) rfl (.work hpile ?_)
    refine (Thread.resumes_of_call hcall).2 _ _ le_rfl fun x hx => ?_
    obtain rfl := Except.ok.inj hx
    exact ⟨hpath, fun _ => hrests⟩
  | ⟨.sleep call true, claims⟩, ht, hstep, .sleep hpile hcall =>
    obtain ⟨rfl, rfl⟩ := Prod.mk.inj (Option.some.inj hstep)
    have hwake : (s.put i ⟨.work call.job, claims⟩
        { s.world with cache := s.world.cache.wake i }).Steady past :=
      h.quiet ht rfl rfl (List.suffix_refl _) rfl (.work hpile hcall)
    have hask := hwake.ask call (by rw [getElem?_put ht, if_pos rfl])
    rwa [put_put] at hask
  | ⟨.release claim outcome, claims⟩, ht, hstep, _ =>
    obtain ⟨rfl, rfl⟩ := Prod.mk.inj (Option.some.inj hstep)
    exact h.release ht
  | ⟨.announce job, claims⟩, ht, hstep, .announce hpile hjob =>
    obtain ⟨rfl, rfl⟩ := Prod.mk.inj (Option.some.inj hstep)
    have hput : (s.put i ⟨.work job, claims⟩ s.world).Steady past :=
      h.quiet ht rfl rfl (List.suffix_refl _) rfl (.work hpile hjob)
    refine hput.rouse _ fun j u hu => .inr ?_
    obtain ⟨v, hv, rfl⟩ := Option.map_eq_some_iff.mp ((List.getElem?_map ..).symm.trans hu)
    exact ⟨v, hv, rfl⟩

/-- So does every step of anybody who does not give up slots from outside. -/
theorem Steady.step {act : Act} (h : s.Steady past) (hact : act.keepsSlots)
    (hstep : s.step? act = some s') : s'.Steady past := by
  match act, hact, hstep with
  | .move (.go i), _, hstep => exact h.go hstep
  | .move (.stir i), _, hstep =>
    obtain rfl := Option.some.inj hstep
    refine h.rouse _ fun j u hu => ?_
    rw [List.getElem?_modify] at hu
    split at hu
    · obtain ⟨v, hv, rfl⟩ := Option.map_eq_some_iff.mp hu
      exact .inr ⟨v, hv, rfl⟩
    · exact .inl (by simpa using hu)
  | .announce, _, hstep =>
    cases hpending : s.pending with
    | zero => simp [Pool.step?, hpending] at hstep
    | succ pending =>
      simp only [Pool.step?, hpending, Option.some.injEq] at hstep
      subst hstep
      refine h.rouse pending fun j u hu => .inr ?_
      obtain ⟨v, hv, rfl⟩ := Option.map_eq_some_iff.mp ((List.getElem?_map ..).symm.trans hu)
      exact ⟨v, hv, rfl⟩
  | .edit files, _, hstep =>
    obtain rfl := Option.some.inj hstep
    exact ⟨h.session, h.since, h.whole, h.owned, h.once, h.keeps⟩

/-- **A steady pool stays steady**, and keeps what it has kept. -/
theorem Steady.after (h : s.Steady past) {acts : List Act}
    (hacts : ∀ act ∈ acts, act.keepsSlots) : (s.after acts).Steady past :=
  after_induction (P := (Steady past ·)) h fun act hact _ _ h hstep => h.step (hacts act hact) hstep

/-- What is kept at some time is kept at all later times. -/
theorem Steady.stock_le (h : s.Steady past) {acts : List Act}
    (hacts : ∀ act ∈ acts, act.keepsSlots) : s.stock ≤ (s.after acts).stock := by
  have hnow : s.Steady s.stock := { h with since := le_rfl }
  exact (hnow.after hacts).since

/-- No job is carried out twice at the same time. -/
theorem Steady.nodup_running (h : s.Steady past) : s.running.Nodup := by
  refine List.nodup_flatMap.mpr ⟨fun t ht => ?_, List.pairwise_iff_getElem.mpr ?_⟩
  · obtain ⟨i, hi⟩ := List.getElem?_of_mem ht
    refine (h.once i t hi).sublist ?_
    obtain ⟨phase, claims⟩ := t
    cases phase with
    | release => exact List.sublist_cons_self ..
    | _ => exact List.Sublist.refl _
  · intro i j hi hj hlt path hpath hpath'
    have hmine := h.owned i _ (List.getElem?_eq_getElem hi) path hpath
    have hother := h.owned j _ (List.getElem?_eq_getElem hj) path hpath'
    obtain rfl : i = j := by simpa using hmine.symm.trans hother
    exact Nat.lt_irrefl i hlt

/-- A document without gaps that a question has been answered with is one of the path that was
asked for, and kept with all that it includes. -/
theorem Steady.rests_of_returned (h : s.Steady past) {document : Document}
    (hreturned : s.returned? i = some (path, document)) (hwhole : document.hasGaps = false) :
    document.path = path ∧ document.Rests s.stock := by
  obtain ⟨t, ht, hreturned⟩ := Option.bind_eq_some_iff.mp hreturned
  match t, h.keeps i t ht, hreturned with
  | ⟨.judge call x [], claims⟩, .judge hpile hcall hkept, hreturned =>
    obtain ⟨rfl, rfl⟩ := Prod.mk.inj (Option.some.inj hreturned)
    obtain ⟨hpath, -, hrests⟩ := h.whole _ _ hkept
    exact ⟨hpath, hrests⟩
  | ⟨.release _ (.ok x), claims⟩, .release hpile hnext hgiven, hreturned =>
    obtain ⟨rfl, rfl⟩ := Prod.mk.inj (Option.some.inj hreturned)
    obtain ⟨hpath, hrests⟩ := hgiven x rfl
    exact ⟨hpath, hrests hwhole⟩

end Pool

/-! ## Engines -/

/-- What a compilation begins with. -/
inductive Root
  | file (path : String)
  /-- A text that stands for the file at a path. -/
  | text (path content : String)

/-- The job of a compilation, whose chain of files can grow by at most `depth` files. -/
def Root.job (d : Dialect) (depth : Nat) : Root → Job Outcome
  | .file path => compileFile d depth (Path.normalize path)
  | .text path content => compileText d depth [] (Path.normalize path) content

namespace Pool

/-- Compilations that have not begun, each with its own bound on chains. -/
def fromRoots (d : Dialect) (files : Files) (mode : CacheMode) (roots : List (Nat × Root)) : Pool :=
  .start files mode (roots.map fun (depth, root) => root.job d depth)

theorem steady_fromRoots (d : Dialect) (files : Files) (roots : List (Nat × Root)) :
    (fromRoots d files .session roots).Steady (fromRoots d files .session roots).stock := by
  have hthread (i : Nat) (t : Thread) (ht : (fromRoots d files .session roots).threads[i]? =
      some t) : ∃ depth root, t = ⟨.work (Root.job d depth root), []⟩ := by
    obtain ⟨job, hjob, rfl⟩ := Option.map_eq_some_iff.mp ((List.getElem?_map ..).symm.trans ht)
    obtain ⟨⟨depth, root⟩, -, rfl⟩ :=
      Option.map_eq_some_iff.mp ((List.getElem?_map ..).symm.trans hjob)
    exact ⟨depth, root, rfl⟩
  refine ⟨rfl, le_rfl, fun path document hkept => (by cases hkept), fun i t ht path hpath => ?_,
    fun i t ht => ?_, fun i t ht => ?_⟩
  · obtain ⟨depth, root, rfl⟩ := hthread i t ht
    cases hpath
  · obtain ⟨depth, root, rfl⟩ := hthread i t ht
    exact .nil
  · obtain ⟨depth, root, rfl⟩ := hthread i t ht
    cases root with
    | file path =>
      refine .work .nil ((Job.meets_compileFile d depth (Path.normalize path) _).imp ?_)
      exact fun _ _ _ _ => trivial
    | text path content =>
      refine .work .nil ((Job.meets_compileText d depth [] (Path.normalize path) content _).imp ?_)
      exact fun _ _ _ _ => trivial

/-- **No path is compiled twice at the same time, and all get the same documents.**  This holds for
any compilations of files and of texts, in whatever order they take their steps, and however files
change in between, as long as nobody gives up slots from outside.

At every time, the paths whose jobs are carried out are different.  Two questions that are answered
at any times with documents without gaps get documents of the paths that they ask for; and if a path
has a document in both of them, at whatever depth, then it is the same document. -/
theorem one_job_and_one_document (d : Dialect) (files : Files) (roots : List (Nat × Root))
    (acts : List Act) (hacts : ∀ act ∈ acts, act.keepsSlots) :
    let s := fromRoots d files .session roots
    (∀ front, front <+: acts → (s.after front).running.Nodup) ∧
    ∀ front front' i j path path' x x', front <+: acts → front' <+: acts →
      (s.after front).returned? i = some (path, x) → x.hasGaps = false →
      (s.after front').returned? j = some (path', x') → x'.hasGaps = false →
      x.path = path ∧ ∀ y ∈ x.withIncluded, ∀ y' ∈ x'.withIncluded, y.path = y'.path → y = y' := by
  intro s
  have hsteady {front : List Act} (hfront : front <+: acts) :
      (s.after front).Steady s.stock ∧ (s.after front).stock ≤ (s.after acts).stock := by
    obtain ⟨rest, rfl⟩ := hfront
    obtain ⟨hbefore, hrest⟩ := List.forall_mem_append.mp hacts
    have h := (steady_fromRoots d files roots).after hbefore
    exact ⟨h, after_append s front rest ▸ h.stock_le hrest⟩
  refine ⟨fun front hfront => (hsteady hfront).1.nodup_running, ?_⟩
  intro front front' i j path path' x x' hfront hfront' hx hwhole hx' hwhole'
  obtain ⟨h, hle⟩ := hsteady hfront
  obtain ⟨h', hle'⟩ := hsteady hfront'
  obtain ⟨hpath, hrests⟩ := h.rests_of_returned hx hwhole
  obtain ⟨-, hrests'⟩ := h'.rests_of_returned hx' hwhole'
  refine ⟨hpath, fun y hy y' hy' hsame => ?_⟩
  -- in the end, both are in the slot of their path
  have hend := hle _ _ (hrests y hy)
  have hend' := hle' _ _ (hrests' y' hy')
  rw [hsame] at hend
  simpa using hend.symm.trans hend'

/-! ### A file that changes while two compilations need it -/

/-- The steps of two compilations, of which the first one includes the file of the second one: the
second one has to wait for the first one, the file changes before it is read, and once more after
the second one has got its document. -/
def waitingTurns : List Act :=
  List.replicate 3 (.move (.go 0)) ++
    [.move (.go 1), .edit (Engine.twoFiles.write "/p.exp" (.text "changed"))] ++
    List.replicate 5 (.move (.go 0)) ++ [.move (.go 1), .edit Engine.twoFiles] ++
    List.replicate 2 (.move (.go 0))

/-- What compilation `i` has just asked for, and the paths of the documents that it got, if they
have no gaps. -/
def answer? (s : Pool) (i : Nat) : Option (String × List String) :=
  (s.returned? i).bind fun (path, x) =>
    if x.hasGaps then none else some (path, x.withIncluded.map Document.path)

theorem returned_of_answer? {s : Pool} {i : Nat} {path : String} {paths : List String}
    (h : s.answer? i = some (path, paths)) :
    ∃ x, s.returned? i = some (path, x) ∧ x.hasGaps = false ∧
      x.withIncluded.map Document.path = paths := by
  obtain ⟨⟨path', x⟩, hreturned, hanswer⟩ := Option.bind_eq_some_iff.mp h
  simp only [Option.ite_none_left_eq_some, Option.some.injEq, Prod.mk.injEq] at hanswer
  obtain ⟨hwhole, rfl, rfl⟩ := hanswer
  exact ⟨x, hreturned, by simpa using hwhole, rfl⟩

/-- The roots of the two compilations. -/
def waitingRoots : List (Nat × Root) := [(3, .file "/q.exp"), (3, .file "/p.exp")]

/-- The second compilation gets the document that is part of the one which the first compilation
ends with. -/
theorem one_document_of_changed_file :
    (∀ act ∈ waitingTurns, act.keepsSlots) ∧
    let s := fromRoots Engine.default.dialect Engine.twoFiles .session waitingRoots
    (s.after (waitingTurns.take 4)).running = ["/p.exp", "/q.exp"] ∧
    ∃ x x', (s.after (waitingTurns.take 11)).returned? 1 = some ("/p.exp", x) ∧
      (s.after waitingTurns).returned? 0 = some ("/q.exp", x') ∧ x ∈ x'.withIncluded := by
  have hacts : ∀ act ∈ waitingTurns, act.keepsSlots := by decide
  refine ⟨hacts, ?_⟩
  have hrun : let s := fromRoots Engine.default.dialect Engine.twoFiles .session waitingRoots
      (s.after (waitingTurns.take 4)).running = ["/p.exp", "/q.exp"] ∧
      (s.after (waitingTurns.take 11)).answer? 1 = some ("/p.exp", ["/p.exp"]) ∧
      (s.after waitingTurns).answer? 0 = some ("/q.exp", ["/q.exp", "/p.exp"]) := by
    decide +kernel
  have hsame := one_job_and_one_document Engine.default.dialect Engine.twoFiles waitingRoots
    waitingTurns hacts
  revert hrun hsame
  generalize fromRoots Engine.default.dialect Engine.twoFiles .session waitingRoots = s
  rintro ⟨hrunning, hsecond, hfirst⟩ ⟨-, hsame⟩
  obtain ⟨x, hx, hwhole, hpaths⟩ := returned_of_answer? hsecond
  obtain ⟨x', hx', hwhole', hpaths'⟩ := returned_of_answer? hfirst
  refine ⟨hrunning, x, x', hx, hx', ?_⟩
  have hmem : "/p.exp" ∈ x'.withIncluded.map Document.path := by
    rw [hpaths']
    decide
  obtain ⟨y, hy, hpath⟩ := List.mem_map.mp hmem
  obtain ⟨hown, hall⟩ := hsame _ _ 1 0 _ _ x x' (List.take_prefix 11 waitingTurns)
    (List.prefix_refl _) hx hwhole hx' hwhole'
  obtain rfl := hall x x.mem_withIncluded y hy (hown.trans hpath.symm)
  exact hy

end Pool

end Stencil
