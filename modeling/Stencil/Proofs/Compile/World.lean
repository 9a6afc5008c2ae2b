import Stencil.Compile.World
import Stencil.Proofs.Cache
import Stencil.Proofs.Compile.Job

/-! # Carrying out jobs alone

A compilation that nobody else interferes with answers all questions of its job correctly: what it
finds in the cache is what it would have made itself, and it never meets a slot that is not its own.
Afterwards the cache holds such documents again, so this goes on from one compilation to the next.
-/
namespace Stencil

/-- A document that a cache may keep for a path: the one that the file has to be compiled to,
without gaps, and numbered before now. -/
structure Kept (d : Dialect) (files : Files) (now : Nat) (path : String) (document : Document) :
    Prop where
  compiles : d.Compiles files path document
  whole : document.hasGaps = false
  below : ∀ x ∈ document.withIncluded, x.number < now

namespace Kept

variable {d : Dialect} {files : Files} {now : Nat} {path : String} {document : Document}

theorem mono {later : Nat} (h : Kept d files now path document) (hle : now ≤ later) :
    Kept d files later path document :=
  ⟨h.compiles, h.whole, fun x hx => Nat.lt_of_lt_of_le (h.below x hx) hle⟩

/-- Kept documents are correct answers. -/
theorem apart (h : Kept d files now path document) {lo : Nat} (hle : lo ≤ now) :
    Apart lo now document.withIncluded :=
  .of_failures_eq_nil hle h.below fun _ hx => Document.failures_eq_nil h.whole hx

/-- Kept documents are fresh. -/
theorem isFresh (h : Kept d files now path document) : document.isFresh files = true := by
  obtain ⟨content, hread, -, hbare⟩ := h.compiles
  rw [← document.isFresh_bare files, hbare, Dialect.isFresh_document _ hread]

/-- A correct answer may be kept, if it is a document without gaps. -/
theorem of_answer {T : Terms} {chain : List String} {lo : Nat}
    (h : T.Answer chain path lo (.ok document) now) (hwhole : document.hasGaps = false) :
    Kept T.dialect T.files now path document :=
  ⟨h.1, hwhole, h.2.below⟩

end Kept

namespace World

/-- All documents that a world keeps meet a condition. -/
def Keeps (w : World) (P : (path : String) → Document → Prop) : Prop :=
  ∀ path document, w.cache.slot? path = some (.ready document) → P path document

variable {P : String → Document → Prop} {w : World} {owner : Nat} {path : String}

theorem Keeps.imp {Q : String → Document → Prop} (h : w.Keeps P)
    (hPQ : ∀ path document, P path document → Q path document) : w.Keeps Q :=
  fun path document hslot => hPQ path document (h path document hslot)

/-- Claiming a slot does not add to what is kept. -/
theorem Keeps.claim (h : w.Keeps P) (owner : Nat) (path : String) :
    Keeps { w with cache := w.cache.fill path (.compiling owner) } P := by
  intro q document hslot
  rw [Cache.slot?_fill] at hslot
  split at hslot
  · cases hslot
  · exact h q document hslot

theorem cache_settle (w : World) (owner : Nat) (path : String) (outcome : Outcome) :
    ∃ stored : Cache, (w.settle owner path outcome).cache = stored.release owner path ∧
      (stored = w.cache ∨
        ∃ document, outcome = .ok document ∧ stored = w.cache.store owner path document) := by
  cases outcome with
  | ok document => exact ⟨_, rfl, .inr ⟨document, rfl, rfl⟩⟩
  | error e => exact ⟨_, rfl, .inl rfl⟩

theorem mode_settle (w : World) (owner : Nat) (path : String) (outcome : Outcome) :
    (w.settle owner path outcome).cache.mode = w.cache.mode := by
  obtain ⟨stored, hcache, rfl | ⟨document, rfl, rfl⟩⟩ := w.cache_settle owner path outcome
  · rw [hcache, Cache.mode_release]
  · rw [hcache, Cache.mode_release, Cache.mode_store]

/-- What is kept when the work on a file is settled was kept before, or is the result. -/
theorem ready_of_settle {q : String} {outcome : Outcome} {document : Document}
    (h : (w.settle owner path outcome).cache.slot? q = some (.ready document)) :
    w.cache.slot? q = some (.ready document) ∨
      q = path ∧ outcome = .ok document ∧ document.hasGaps = false := by
  obtain ⟨stored, hcache, hstored⟩ := w.cache_settle owner path outcome
  rw [hcache, Cache.slot?_release] at h
  split at h
  · cases h
  · rcases hstored with rfl | ⟨document', rfl, rfl⟩
    · exact .inl h
    · rw [Cache.slot?_store] at h
      split at h
      · rename_i hand
        obtain rfl : document' = document := by simpa using h
        exact .inr ⟨hand.1, rfl, hand.2.2⟩
      · exact .inl h

/-- Settling the work on a file leaves the documents in their slots. -/
theorem ready_settle {q : String} {outcome : Outcome} {document : Document}
    (h : w.cache.slot? q = some (.ready document)) :
    (w.settle owner path outcome).cache.slot? q = some (.ready document) := by
  have hnot : ∀ c : Cache, c.slot? q = some (.ready document) →
      ¬ (q = path ∧ c.isOwned owner path = true) := by
    rintro c hc ⟨rfl, howned⟩
    rw [Cache.isOwned_iff, hc] at howned
    cases howned
  obtain ⟨stored, hcache, rfl | ⟨document', rfl, rfl⟩⟩ := w.cache_settle owner path outcome
  · rw [hcache, Cache.slot?_release, if_neg (hnot _ h), h]
  · have hstored : (w.cache.store owner path document').slot? q = some (.ready document) := by
      rw [Cache.slot?_store, if_neg fun hand => hnot _ h ⟨hand.1, hand.2.1⟩, h]
    rw [hcache, Cache.slot?_release, if_neg (hnot _ hstored), hstored]

theorem Keeps.settle (h : w.Keeps P) (owner : Nat) {outcome : Outcome}
    (hstore : ∀ document, outcome = .ok document → document.hasGaps = false → P path document) :
    (w.settle owner path outcome).Keeps P := by
  intro q document hslot
  rcases ready_of_settle hslot with hold | ⟨rfl, rfl, hwhole⟩
  · exact h q document hold
  · exact hstore document rfl hwhole

/-- A slot that is still in use when the work on a file is settled is one of another file. -/
theorem compiling_of_settle {q : String} {other : Nat} {outcome : Outcome}
    (hown : ∀ other, w.cache.slot? path = some (.compiling other) → other = owner)
    (h : (w.settle owner path outcome).cache.slot? q = some (.compiling other)) :
    w.cache.slot? q = some (.compiling other) ∧ q ≠ path := by
  obtain ⟨stored, hcache, hstored⟩ := w.cache_settle owner path outcome
  rw [hcache, Cache.slot?_release] at h
  split at h
  · cases h
  · rename_i hnot
    have hold : stored.slot? q = w.cache.slot? q := by
      rcases hstored with rfl | ⟨document, rfl, rfl⟩
      · rfl
      · rw [Cache.slot?_store] at h ⊢
        split at h
        · cases h
        · rename_i hnone
          rw [if_neg hnone]
    refine ⟨hold ▸ h, ?_⟩
    rintro rfl
    -- a slot of the path that is in use is owned, and so released
    obtain rfl := hown other (hold ▸ h)
    exact hnot ⟨rfl, Cache.isOwned_iff.mpr h⟩

/-- A world that serves a compilation: the documents in its cache that may be used are correct, and
no slots are in use but those that the compilation has claimed. -/
structure Serves (T : Terms) (owner : Nat) (claimed : List String) (w : World) : Prop where
  files : w.files = T.files
  kept : w.Keeps fun path document => w.cache.isValid w.files document = true →
    Kept T.dialect T.files w.nextDocument path document
  own : ∀ path other, w.cache.slot? path = some (.compiling other) → other = owner ∧ path ∈ claimed

variable {T : Terms} {claimed : List String}

/-- A compilation that is served finds a document for a file that it has not claimed, or gets the
slot. -/
theorem Serves.enter (h : w.Serves T owner claimed) (hnew : path ∉ claimed) :
    (∃ document, w.cache.slot? path = some (.ready document) ∧
      Kept T.dialect T.files w.nextDocument path document ∧
      w.enter owner path = (w, .found document)) ∨
    w.enter owner path = ({ w with cache := w.cache.fill path (.compiling owner) }, .claimed) := by
  unfold World.enter Cache.enter
  match hslot : w.cache.slot? path with
  | none => exact .inr rfl
  | some (.compiling other) => exact absurd (h.own path other hslot).2 hnew
  | some (.ready document) =>
    by_cases hvalid : w.cache.isValid w.files document = true
    · refine .inl ⟨document, rfl, h.kept path document hslot hvalid, ?_⟩
      simp [hvalid]
    · -- the document cannot be used, and its slot is claimed in a second attempt
      refine .inr ?_
      simp [hvalid, hslot]

/-- With one more slot that it has claimed, a compilation is still served. -/
theorem Serves.claim (h : w.Serves T owner claimed) (path : String) :
    Serves T owner (claimed ++ [path])
      { w with cache := w.cache.fill path (.compiling owner) } where
  files := h.files
  kept := h.kept.claim owner path
  own q other hslot := by
    rw [Cache.slot?_fill] at hslot
    split at hslot
    · rename_i hq
      obtain rfl : owner = other := by simpa using hslot
      exact ⟨rfl, by simp [hq]⟩
    · obtain ⟨hother, hmem⟩ := h.own q other hslot
      exact ⟨hother, List.mem_append_left _ hmem⟩

/-- When the work on a file is settled with a correct answer, its slot is not claimed any more. -/
theorem Serves.settle {chain : List String} {lo : Nat} {outcome : Outcome}
    (h : w.Serves T owner (claimed ++ [path]))
    (hanswer : T.Answer chain path lo outcome w.nextDocument) :
    (w.settle owner path outcome).Serves T owner claimed where
  files := h.files
  kept := by
    refine Keeps.imp (h.kept.settle owner fun document houtcome hwhole _ => ?_) ?_
    · exact .of_answer (houtcome ▸ hanswer) hwhole
    · intro q document hkept hvalid
      rw [Cache.isValid_eq (w.mode_settle owner path outcome)] at hvalid
      exact hkept hvalid
  own q other hslot := by
    have hmine : ∀ other, w.cache.slot? path = some (.compiling other) → other = owner :=
      fun other hother => (h.own path other hother).1
    obtain ⟨hold, hne⟩ := compiling_of_settle hmine hslot
    obtain ⟨hother, hmem⟩ := h.own q other hold
    refine ⟨hother, (List.mem_append.mp hmem).resolve_right fun hlast => ?_⟩
    exact hne (List.mem_singleton.mp hlast)

theorem Serves.newDocument (h : w.Serves T owner claimed) :
    Serves T owner claimed w.newDocument.2 where
  files := h.files
  kept path document hslot hvalid := (h.kept path document hslot hvalid).mono (Nat.le_succ _)
  own := h.own

end World

/-! ## Jobs -/

theorem World.mode_enter (w : World) (owner : Nat) (path : String) :
    (w.enter owner path).1.cache.mode = w.cache.mode := by
  have hfirst := w.cache.mode_enter owner path none
  unfold World.enter
  generalize w.cache.enter owner path none = entered at hfirst ⊢
  obtain ⟨cache, entrance⟩ := entered
  cases entrance with
  | found document =>
    by_cases hvalid : w.cache.isValid w.files document = true
    · simp [hvalid]
    · simpa [hvalid] using (cache.mode_enter owner path (some document.number)).trans hfirst
  | claimed => exact hfirst
  | waits => exact hfirst
  | refused => exact hfirst

/-- Carrying out jobs does not change the mode of the cache. -/
theorem Job.mode_run {owner : Nat} {α : Type} (m : Job α) (w : World) :
    (m.run owner w).2.cache.mode = w.cache.mode := by
  induction m generalizing w with
  | done a => rfl
  | read path next ih => exact ih _ w
  | number next ih => exact ih _ _
  | obtain path chain compile next ihcompile ihnext =>
    have hmode := w.mode_enter owner path
    rw [Job.run, World.obtain]
    generalize w.enter owner path = entered at hmode ⊢
    obtain ⟨w', entrance⟩ := entered
    refine (ihnext _ _).trans ?_
    cases entrance with
    | found document => exact hmode
    | claimed => exact (World.mode_settle _ _ _ _).trans ((ihcompile w').trans hmode)
    | waits => exact hmode
    | refused => exact hmode

/-- **Carried out alone, a job ends with the result that it ensures**, and leaves behind a world in
which it could be carried out again. -/
theorem Job.run_ensures {T : Terms} {owner : Nat} {α : Type} {m : Job α} {chain : List String}
    {now : Nat} {post : α → Nat → Prop} (h : T.Ensures m chain now post) {w : World}
    {claimed : List String} (hw : w.Serves T owner claimed) (hclaimed : claimed ⊆ chain)
    (hnow : now ≤ w.nextDocument) :
    (m.run owner w).2.Serves T owner claimed ∧
      w.nextDocument ≤ (m.run owner w).2.nextDocument ∧
      post (m.run owner w).1 (m.run owner w).2.nextDocument := by
  induction h generalizing w claimed with
  | done hpost => exact ⟨hw, Nat.le_refl _, hpost _ hnow⟩
  | @read α path next chain now post _ ih =>
    rw [Job.run, hw.files]
    exact ih hw hclaimed hnow
  | @number α next chain now post _ ih =>
    rw [Job.run]
    obtain ⟨hserves, hle, hpost⟩ :=
      ih w.nextDocument hnow hw.newDocument hclaimed (Nat.le_refl _)
    exact ⟨hserves, Nat.le_of_succ_le hle, hpost⟩
  | @obtain α path asked compile next chain now post hasked hmay _ _ ihcompile ihnext =>
    rw [Job.run, World.obtain]
    rcases hw.enter fun hmem => hmay.new (hclaimed hmem) with ⟨document, -, hkept, henter⟩ | henter
    · rw [henter]
      exact ihnext (.ok document) w.nextDocument hnow ⟨hkept.compiles, hkept.apart hnow⟩ hw
        hclaimed (Nat.le_refl _)
    · rw [henter]
      have hclaim := hw.claim path
      have hmore : claimed ++ [path] ⊆ chain ++ [path] :=
        List.append_subset.mpr ⟨fun p hp => List.mem_append_left _ (hclaimed hp),
          List.subset_append_right _ _⟩
      obtain ⟨hserves, hle, hanswer⟩ :=
        ihcompile w.nextDocument hnow hclaim hmore (Nat.le_refl _)
      have hsettle := hserves.settle hanswer
      obtain ⟨hafter, hle', hpost⟩ := ihnext _ _ (Nat.le_trans hnow hle)
        (hanswer.mono hnow (Nat.le_refl _)) hsettle hclaimed (Nat.le_refl _)
      exact ⟨hafter, Nat.le_trans hle hle', hpost⟩

/-- What is kept after a job was kept before, or could be: a condition that all documents have which
may be kept is one that all documents keep which are kept. -/
theorem Job.run_keeps {T : Terms} {P : (now : Nat) → String → Document → Prop}
    (hkept : ∀ now path document, Kept T.dialect T.files now path document → P now path document)
    (hlater : ∀ now later path document, now ≤ later → P now path document →
      P later path document)
    {owner : Nat} {α : Type} {m : Job α} {chain : List String} {now : Nat}
    {post : α → Nat → Prop} (h : T.Ensures m chain now post) {w : World} {claimed : List String}
    (hw : w.Serves T owner claimed) (hkeeps : w.Keeps (P w.nextDocument))
    (hclaimed : claimed ⊆ chain) (hnow : now ≤ w.nextDocument) :
    (m.run owner w).2.Keeps (P (m.run owner w).2.nextDocument) := by
  induction h generalizing w claimed with
  | done _ => exact hkeeps
  | @read α path next chain now post _ ih =>
    rw [Job.run, hw.files]
    exact ih hw hkeeps hclaimed hnow
  | @number α next chain now post _ ih =>
    rw [Job.run]
    have hmore : w.newDocument.2.Keeps (P w.newDocument.2.nextDocument) :=
      hkeeps.imp fun path document => hlater _ _ path document (Nat.le_succ _)
    exact ih w.nextDocument hnow hw.newDocument hmore hclaimed (Nat.le_refl _)
  | @obtain α path asked compile next chain now post hasked hmay hensures _ ihcompile ihnext =>
    rw [Job.run, World.obtain]
    rcases hw.enter fun hmem => hmay.new (hclaimed hmem) with
      ⟨document, -, hdocument, henter⟩ | henter
    · rw [henter]
      exact ihnext (.ok document) w.nextDocument hnow ⟨hdocument.compiles, hdocument.apart hnow⟩
        hw hkeeps hclaimed (Nat.le_refl _)
    · rw [henter]
      have hclaim := hw.claim path
      have hmore : claimed ++ [path] ⊆ chain ++ [path] :=
        List.append_subset.mpr ⟨fun p hp => List.mem_append_left _ (hclaimed hp),
          List.subset_append_right _ _⟩
      have hensured := hensures w.nextDocument hnow
      obtain ⟨hserves, hle, hanswer⟩ :=
        Job.run_ensures hensured hclaim hmore (Nat.le_refl w.nextDocument)
      have hcompiled := ihcompile w.nextDocument hnow hclaim (hkeeps.claim owner path) hmore
        (Nat.le_refl w.nextDocument)
      refine ihnext _ _ (Nat.le_trans hnow hle) (hanswer.mono hnow (Nat.le_refl _))
        (hserves.settle hanswer) (hcompiled.settle owner fun document houtcome hwhole => ?_)
        hclaimed (Nat.le_refl _)
      rw [houtcome] at hanswer
      exact hkept _ path document (.of_answer hanswer hwhole)

end Stencil
