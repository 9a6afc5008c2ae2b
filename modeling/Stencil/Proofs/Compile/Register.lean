import Stencil.Proofs.Compile.Contract
import Stencil.Proofs.Compile.Numbering

/-! # The register of documents

A number is taken for one document, and a document that is handed on keeps its number.  So one can
keep a register that says which document has which number, which only grows: an entry is made when a
number is taken, for the document that gets it, and all documents in that one have theirs already.
Whatever is found in the cache, and whatever a compilation ends with, is registered with all that it
includes.  Documents with the same number in one of these are therefore the same.

Of every document in the register it is also known what has become of the directives of its
template.
-/
namespace Stencil
open Include (IncludeError)
open Template (originAt Inclusion)

/-! ## What becomes of directives -/

/-- What has become of a directive: the document that it inserts, or the error that it fails
with. -/
abbrev Resolution := Except IncludeError Document

namespace Resolution

/-- The piece of a directive. -/
def chunk (directive : Origin) : Resolution → Chunk
  | .ok document => .inclusion directive document
  | .error reason => .gap reason

/-- The site of a directive that is resolved. -/
def site? (directive : Origin) : Resolution → Option Site
  | .ok document => some ⟨directive, document⟩
  | .error _ => none

/-- The failure of a directive that is not resolved. -/
def failure? (directive : Origin) : Resolution → Option Failure
  | .ok _ => none
  | .error reason => some ⟨directive, reason⟩

end Resolution

/-- A document has sites for the directives of its template that are resolved, and failures for
those that are not, both in the order of the template. -/
def Dialect.Resolves (d : Dialect) (x : Document) : Prop :=
  ∃ (content : String) (rs : List Resolution), contentHash content = x.stamp.hash ∧
    rs.length = (d.tree content).inclusions.length ∧
    x.sites = ((d.tree content).inclusions.zip rs).filterMap (fun (i, r) =>
      r.site? (originAt x.path i.location.start)) ∧
    x.failures = ((d.tree content).inclusions.zip rs).filterMap (fun (i, r) =>
      r.failure? (originAt x.path i.location.start))

/-! ## Registers -/

/-- Which document has which number. -/
structure Register where
  document? : Nat → Option Document

namespace Register

/-- A register that has no entry. -/
def empty : Register := ⟨fun _ => none⟩

/-- A register grows if it keeps its entries. -/
instance : Preorder Register where
  le r s := ∀ n x, r.document? n = some x → s.document? n = some x
  le_refl _ _ _ := id
  le_trans _ _ _ h h' n x hx := h' n x (h n x hx)

/-- A document is entered with its number. -/
def enter (r : Register) (x : Document) : Register :=
  ⟨fun n => if n = x.number then some x else r.document? n⟩

variable {r : Register} {x : Document}

theorem document?_enter_self : (r.enter x).document? x.number = some x := if_pos rfl

theorem document?_enter_of_ne {n : Nat} (h : n ≠ x.number) :
    (r.enter x).document? n = r.document? n := if_neg h

/-- A number that nothing is entered for can be taken. -/
theorem le_enter (h : r.document? x.number = none) : r ≤ r.enter x := by
  intro n y hy
  rw [document?_enter_of_ne]
  · exact hy
  · rintro rfl
    cases h.symm.trans hy

end Register

/-- A document and all that it includes are registered. -/
def Document.Registered (r : Register) (d : Document) : Prop :=
  ∀ x ∈ d.withIncluded, r.document? x.number = some x

namespace Document.Registered

variable {r s : Register} {d : Document}

theorem mono (h : d.Registered r) (hle : r ≤ s) : d.Registered s :=
  fun x hx => hle _ x (h x hx)

/-- Registered documents with the same number are the same. -/
theorem eq_of_number (h : d.Registered r) {x y : Document} (hx : x ∈ d.withIncluded)
    (hy : y ∈ d.withIncluded) (hnumber : x.number = y.number) : x = y :=
  Option.some.inj ((h x hx).symm.trans (hnumber ▸ h y hy))

end Document.Registered

/-- What a question is answered with is registered. -/
def Outcome.Registered (outcome : Outcome) (now : Register) : Prop :=
  ∀ x, outcome = .ok x → x.Registered now

theorem Outcome.registered_error (reason : CompileError) (now : Register) :
    Outcome.Registered (.error reason) now :=
  fun _ hx => by cases hx

theorem Outcome.Registered.mono {outcome : Outcome} {now later : Register}
    (h : outcome.Registered now) (hle : now ≤ later) : outcome.Registered later :=
  fun x hx => (h x hx).mono hle

/-! ## Jobs -/

/-- A job that is carried out from a time on, and is told of registered documents only, takes each
number for one document with a property, and ends with a result that meets a condition. -/
inductive Job.Registers (P : Document → Prop) : {α : Type} → Job α → (now : Register) →
    (post : α → Register → Prop) → Prop
  | done {α : Type} {a : α} {now : Register} {post : α → Register → Prop}
    (h : ∀ later, now ≤ later → post a later) : Registers P (.done a) now post
  | read {α : Type} {path : String} {next : Except ReadError String → Job α} {now : Register}
    {post : α → Register → Prop} (h : ∀ r, Registers P (next r) now post) :
    Registers P (.read path next) now post
  | number {α : Type} {next : Nat → Job α} {now : Register} {post : α → Register → Prop}
    (x : Nat → Document) (hnumber : ∀ n, (x n).number = n) (hx : ∀ n, P (x n))
    (hinner : ∀ n, ∀ y ∈ documentsOfChunks (x n).chunks, now.document? y.number = some y)
    (hnext : ∀ n later, now ≤ later → (x n).Registered later →
      Registers P (next n) later post) :
    Registers P (.number next) now post
  | obtain {α : Type} {path : String} {chain : List String} {compile : Job Outcome}
    {next : Outcome → Job α} {now : Register} {post : α → Register → Prop}
    (hcompile : ∀ later, now ≤ later → Registers P compile later Outcome.Registered)
    (hnext : ∀ outcome later, now ≤ later → outcome.Registered later →
      Registers P (next outcome) later post) :
    Registers P (.obtain path chain compile next) now post

namespace Job

variable {P : Document → Prop} {now later : Register}

theorem Registers.mono {α : Type} {m : Job α} {post post' : α → Register → Prop}
    (h : m.Registers P now post) (hle : now ≤ later)
    (hpost : ∀ a time, later ≤ time → post a time → post' a time) :
    m.Registers P later post' := by
  induction m generalizing now later with
  | done a =>
    cases h with
    | done h => exact .done fun time htime => hpost a time htime (h time (hle.trans htime))
  | read path next ih =>
    cases h with
    | read h => exact .read fun r => ih r (h r) hle hpost
  | number next ih =>
    cases h with
    | number x hnumber hx hinner hnext =>
      refine .number x hnumber hx (fun n y hy => hle _ y (hinner n y hy)) ?_
      intro n time htime hregistered
      exact ih n (hnext n time (hle.trans htime) hregistered) le_rfl fun a time' htime' =>
        hpost a time' (htime.trans htime')
  | obtain path chain compile next _ ih =>
    cases h with
    | obtain hcompile hnext =>
      refine .obtain (fun time htime => hcompile time (hle.trans htime)) ?_
      intro outcome time htime hanswer
      exact ih outcome (hnext outcome time (hle.trans htime) hanswer) le_rfl fun a time' htime' =>
        hpost a time' (htime.trans htime')

/-- What a job does from a time on, it also does from a later time on. -/
theorem Registers.defer {α : Type} {m : Job α} {post : α → Register → Prop}
    (h : m.Registers P now post) (hle : now ≤ later) : m.Registers P later post :=
  h.mono hle fun _ _ _ hpost => hpost

theorem Registers.imp {α : Type} {m : Job α} {post post' : α → Register → Prop}
    (h : m.Registers P now post) (hpost : ∀ a time, now ≤ time → post a time → post' a time) :
    m.Registers P now post' :=
  h.mono le_rfl hpost

theorem Registers.bind {α β : Type} {m : Job α} {f : α → Job β} {post : β → Register → Prop}
    (h : m.Registers P now fun a time => (f a).Registers P time post) :
    (m.bind f).Registers P now post := by
  induction m generalizing now with
  | done a =>
    cases h with
    | done h => exact h now le_rfl
  | read path next ih =>
    cases h with
    | read h => exact .read fun r => ih r (h r)
  | number next ih =>
    cases h with
    | number x hnumber hx hinner hnext =>
      exact .number x hnumber hx hinner fun n time htime hregistered =>
        ih n (hnext n time htime hregistered)
  | obtain path chain compile next _ ih =>
    cases h with
    | obtain hcompile hnext =>
      exact .obtain hcompile fun outcome time htime hanswer =>
        ih outcome (hnext outcome time htime hanswer)

/-- A condition on the result of an action; of an error nothing is asked. -/
abbrev Yields {β : Type} (post : β → Register → Prop) : Except CompileError β → Register → Prop :=
  Ends (fun _ _ => True) post

theorem Registers.bindCompiling {β γ : Type} {m : Compiling β} {f : β → Compiling γ}
    {post : γ → Register → Prop} (h : Registers P m.run now
      (Yields fun b time => Registers P (f b).run time (Yields post))) :
    Registers P (m >>= f).run now (Yields post) := by
  rw [ExceptT.run_bind]
  refine Registers.bind (h.imp fun r time _ hr => ?_)
  cases r with
  | ok b => exact hr
  | error e => exact .done fun _ _ => trivial

/-- A list of actions gives a list of results, each of which is right for its action at the end. -/
theorem registers_mapM {α β : Type} {xs : List α} {f : α → Compiling β}
    {Q : α → β → Register → Prop} (hQ : ∀ x b, Monotone (Q x b))
    (h : ∀ x ∈ xs, ∀ time, now ≤ time → Registers P (f x).run time (Yields (Q x))) :
    Registers P (xs.mapM f).run now
      (Yields fun bs time => List.Forall₂ (fun x b => Q x b time) xs bs) := by
  induction xs generalizing now with
  | nil => exact .done fun _ _ => .nil
  | cons x xs ih =>
    rw [List.mapM_cons]
    refine Registers.bindCompiling ((h x List.mem_cons_self now le_rfl).imp ?_)
    intro r mid hmid hr
    cases r with
    | error e => trivial
    | ok b =>
      have htail := @ih mid fun y hy time hle =>
        h y (List.mem_cons_of_mem x hy) time (hmid.trans hle)
      refine Registers.bindCompiling (htail.imp fun r time hle hrest => ?_)
      cases r with
      | error e => trivial
      | ok bs =>
        refine .done fun last hlast => ?_
        exact .cons (hQ x b (hle.trans hlast) hr) (hrest.imp fun y c => (hQ y c hlast ·))

/-! ## Templates -/

/-- A directive of a file has become a piece, and what it inserts is registered. -/
def Becomes (source : String) (i : Inclusion) (c : Chunk) (now : Register) : Prop :=
  ∃ r : Resolution, c = r.chunk (originAt source i.location.start) ∧
    ∀ x, r = .ok x → x.Registered now

theorem becomes_mono (source : String) (i : Inclusion) (c : Chunk) :
    Monotone (Becomes source i c) :=
  fun _ _ hle ⟨r, hc, hr⟩ => ⟨r, hc, fun x hx => (hr x hx).mono hle⟩

variable {d : Dialect}

theorem registers_insert {chain : List String} {file : String}
    {compile : (path content : String) → Job Outcome} (i : Inclusion)
    (hcompile : ∀ q inner time, now ≤ time →
      (compile q inner).Registers P time Outcome.Registered) :
    (Stencil.insert d chain file compile i).run.Registers P now (Yields (Becomes file i)) := by
  have hgap (reason : IncludeError) (time : Register) : Becomes file i (.gap reason) time :=
    ⟨.error reason, rfl, fun x hx => by cases hx⟩
  unfold Stencil.insert
  cases htarget : d.target i.arguments file with
  | error reason => exact .done fun time _ => hgap reason time
  | ok target =>
    simp only
    cases hdrop : chain.dropWhile (· != target) with
    | cons first rest => exact .done fun _ _ => trivial
    | nil =>
      refine .obtain (fun time hle => .read fun r => ?_) fun outcome time _ hanswer =>
        .done fun last hlast => ?_
      · cases r with
        | ok content => exact hcompile target content time hle
        | error fault => exact .done fun last _ => Outcome.registered_error _ last
      · match outcome, hanswer with
        | .ok x, hanswer =>
          refine ⟨.ok x, rfl, fun y hy => ?_⟩
          obtain rfl := Except.ok.inj hy
          exact (hanswer x rfl).mono hlast
        | .error (.inclusion reason), _ => exact hgap reason last
        | .error (.cycle _), _ => trivial
        | .error (.template _ _), _ => trivial

/-- The pieces that the directives of a file have become are those of resolutions. -/
theorem exists_resolutions {source : String} {is : List Inclusion} {cs : List Chunk}
    (h : List.Forall₂ (fun i c => Becomes source i c now) is cs) :
    ∃ rs : List Resolution, rs.length = is.length ∧
      Template.gathered source (fun _ => Chunk.sites) is cs = (is.zip rs).filterMap (fun (i, r) =>
        r.site? (originAt source i.location.start)) ∧
      Template.gathered source Chunk.failures is cs = (is.zip rs).filterMap (fun (i, r) =>
        r.failure? (originAt source i.location.start)) ∧
      ∀ y ∈ Template.gathered source (fun _ => Chunk.documents) is cs,
        now.document? y.number = some y := by
  induction h with
  | nil => exact ⟨[], rfl, rfl, rfl, fun y hy => by cases hy⟩
  | @cons i c is cs hc _ ih =>
    obtain ⟨rs, hlength, hsites, hfailures, hdocuments⟩ := ih
    obtain ⟨r, rfl, hr⟩ := hc
    refine ⟨r :: rs, congrArg Nat.succ hlength, ?_, ?_, ?_⟩
    · cases r with
      | ok x => exact congrArg (_ :: ·) hsites
      | error reason => exact hsites
    · cases r with
      | ok x => exact hfailures
      | error reason => exact congrArg (_ :: ·) hfailures
    · refine List.forall_mem_append.mpr ⟨?_, hdocuments⟩
      cases r with
      | ok x => exact hr x rfl
      | error reason => exact fun y hy => by cases hy

/-- A document whose directives have become pieces resolves them, and what it includes is
registered. -/
theorem resolves_fill {d : Dialect} (stamp : Stamp) (path : String) {content : String}
    {cs : List Chunk}
    (hhash : stamp.hash = contentHash content) (hpath : stamp.path = path)
    (hcs : List.Forall₂ (fun i c => Becomes path i c now) (d.tree content).inclusions cs) :
    d.Resolves (.mk stamp ((d.tree content).fill path cs)) ∧
      ∀ y ∈ documentsOfChunks ((d.tree content).fill path cs),
        now.document? y.number = some y := by
  subst hpath
  obtain ⟨rs, hlength, hsites, hfailures, hdocuments⟩ := exists_resolutions hcs
  have hpieces : cs.length = (d.tree content).inclusions.length := hcs.length_eq.symm
  obtain ⟨hs, hf⟩ := Document.directives_fill stamp stamp.path hpieces
  refine ⟨⟨content, rs, hhash.symm, hlength, hs.trans hsites, hf.trans hfailures⟩, fun y hy => ?_⟩
  refine hdocuments y ?_
  rw [← Template.Tree.gather_fill gathers_documents hpieces none]
  exact List.mem_flatMap.mpr (mem_documentsOfChunks.mp hy)

/-- **A compiled text is registered**, whatever is found when files are read. -/
theorem registers_compileText (d : Dialect) (depth : Nat) (chain : List String)
    (path content : String) (now : Register) :
    (compileText d depth chain path content).Registers d.Resolves now Outcome.Registered := by
  induction depth generalizing chain path content now with
  | zero => exact .done fun time _ => Outcome.registered_error _ time
  | succ depth ih =>
    have hpieces : Registers d.Resolves ((d.tree content).inclusions.mapM
        (Stencil.insert d (chain ++ [path]) path (compileText d depth (chain ++ [path])))).run now
        (Yields fun cs time => List.Forall₂ (fun i c => Becomes path i c time)
          (d.tree content).inclusions cs) :=
      registers_mapM (becomes_mono path) fun i _ time _ =>
        registers_insert i fun q inner later _ => ih (chain ++ [path]) q inner later
    have hchunks : Registers d.Resolves ((d.tree content).chunks path
        (Stencil.insert d (chain ++ [path]) path (compileText d depth (chain ++ [path])))).run now
        (Yields fun chunks time => ∃ cs, chunks = (d.tree content).fill path cs ∧
          List.Forall₂ (fun i c => Becomes path i c time) (d.tree content).inclusions cs) := by
      rw [Template.Tree.chunks_eq, ← bind_pure_comp]
      refine Registers.bindCompiling (hpieces.imp fun r time _ hr => ?_)
      cases r with
      | error e => trivial
      | ok cs =>
        refine .done fun later hlater => ⟨cs, rfl, hr.imp fun i c => ?_⟩
        exact (becomes_mono path i c hlater ·)
    rw [Terms.compileText_succ]
    refine Registers.bind (hchunks.imp fun r time _ hr => ?_)
    cases r with
    | error reason => exact .done fun later _ => Outcome.registered_error _ later
    | ok chunks =>
      obtain ⟨cs, rfl, hcs⟩ := hr
      have hresolves (n : Nat) :=
        resolves_fill ⟨n, path, contentHash content, (d.tree content).malformed⟩ path (by dsimp only)
          rfl hcs
      generalize (d.tree content).fill path cs = chunks at hresolves ⊢
      refine .number
        (fun n => .mk ⟨n, path, contentHash content, (d.tree content).malformed⟩ chunks)
        (fun _ => rfl) (fun n => (hresolves n).1) (fun n => (hresolves n).2)
        fun n later _ hregistered => ?_
      refine .done fun last hlast x hx => ?_
      obtain rfl := Except.ok.inj hx
      exact hregistered.mono hlast

/-- So is a compiled file. -/
theorem registers_compileFile (d : Dialect) (depth : Nat) (path : String) (now : Register) :
    (compileFile d depth path).Registers d.Resolves now Outcome.Registered := by
  refine .obtain (fun later _ => .read fun r => ?_) fun outcome later _ hanswer =>
    .done fun last hlast => hanswer.mono hlast
  cases r with
  | ok content => exact registers_compileText d depth [] path content later
  | error reason => exact .done fun last _ => Outcome.registered_error _ last

end Job

/-! ## Worlds -/

/-- A register of a world: whatever is kept is registered and has no gaps, nothing has a number that
is not taken yet, and all that is registered has a property. -/
structure World.Registers (P : Document → Prop) (w : World) (now : Register) : Prop where
  kept : w.Keeps fun _ x => x.Registered now ∧ x.hasGaps = false
  free : ∀ n, w.nextDocument ≤ n → now.document? n = none
  holds : ∀ n x, now.document? n = some x → P x

namespace World.Registers

variable {P : Document → Prop} {w : World} {now : Register}

/-- A document of which all parts are registered is entered with the next number. -/
theorem enter (h : w.Registers P now) {x : Document} (hnumber : x.number = w.nextDocument)
    (hx : P x) (hinner : ∀ y ∈ documentsOfChunks x.chunks, now.document? y.number = some y) :
    now ≤ now.enter x ∧ x.Registered (now.enter x) ∧
      w.newDocument.2.Registers P (now.enter x) := by
  have hle : now ≤ now.enter x := Register.le_enter (h.free _ (hnumber ▸ Nat.le_refl _))
  refine ⟨hle, fun y hy => ?_, fun path y hy => (h.kept path y hy).imp_left (·.mono hle), fun n hn => ?_,
    fun n y hy => ?_⟩
  · rw [Document.withIncluded_eq, List.mem_cons] at hy
    rcases hy with rfl | hy
    · exact Register.document?_enter_self
    · exact hle _ y (hinner y hy)
  · have hlt : w.nextDocument < n := hn
    rw [Register.document?_enter_of_ne (by omega)]
    exact h.free n (Nat.le_of_lt hlt)
  · by_cases hn : n = x.number
    · subst hn
      obtain rfl := Option.some.inj (Register.document?_enter_self.symm.trans hy)
      exact hx
    · exact h.holds n y ((Register.document?_enter_of_ne hn).symm.trans hy)

/-- What is kept may change, if it is still registered. -/
theorem ofKeeps (h : w.Registers P now) {w' : World} (hnext : w'.nextDocument = w.nextDocument)
    (hkept : w'.Keeps fun _ x => x.Registered now ∧ x.hasGaps = false) : w'.Registers P now :=
  ⟨hkept, fun n hn => h.free n (hnext ▸ hn), h.holds⟩

/-- Slots that stay as they are keep what they have kept. -/
theorem ofSlots (h : w.Registers P now) (cache : Cache) (hslots : cache.slots = w.cache.slots) :
    World.Registers P { w with cache } now := by
  refine h.ofKeeps rfl fun path x hx => h.kept path x ?_
  rwa [Cache.slot?, ← hslots]

/-- A compilation may claim a slot. -/
theorem claim (h : w.Registers P now) (owner : Nat) (path : String) :
    World.Registers P { w with cache := w.cache.fill path (.compiling owner) } now :=
  h.ofKeeps rfl (h.kept.claim owner path)

/-- The work on a path may end with a result that is registered. -/
theorem settle (h : w.Registers P now) (owner : Nat) (path : String) {outcome : Outcome}
    (houtcome : outcome.Registered now) : (w.settle owner path outcome).Registers P now :=
  h.ofKeeps rfl (h.kept.settle owner fun x hx hwhole => ⟨houtcome x hx, hwhole⟩)

end World.Registers

/-- **Carried out alone, a job registers what it makes.** -/
theorem Job.run_registers {P : Document → Prop} {α : Type} {m : Job α} {now : Register}
    {post : α → Register → Prop} (h : m.Registers P now post) (owner : Nat) {w : World}
    (hw : w.Registers P now) : ∃ later, now ≤ later ∧ (m.run owner w).2.Registers P later ∧
      post (m.run owner w).1 later := by
  induction m generalizing now w with
  | done a =>
    cases h with
    | done h => exact ⟨now, le_rfl, hw, h now le_rfl⟩
  | read path next ih =>
    cases h with
    | read h => exact ih _ (h _) hw
  | number next ih =>
    cases h with
    | number x hnumber hx hinner hnext =>
      obtain ⟨hle, hregistered, hentered⟩ := hw.enter (hnumber _) (hx w.nextDocument) (hinner _)
      obtain ⟨later, hlater, hafter, hpost⟩ :=
        ih w.nextDocument (hnext _ _ hle hregistered) hentered
      exact ⟨later, hle.trans hlater, hafter, hpost⟩
  | obtain path chain compile next ihcompile ih =>
    cases h with
    | obtain hcompile hnext =>
      have hrefused := hnext (.error (.cycle chain)) now le_rfl (Outcome.registered_error _ now)
      rw [Job.run, World.obtain]
      rcases w.enter_cases owner path with ⟨x, hfound, henter⟩ | ⟨-, henter⟩ |
        ⟨other, cache, entrance, -, henter, hslots, rfl | rfl⟩
      · rw [henter]
        refine ih (.ok x) (hnext (.ok x) now le_rfl fun y hy => ?_) hw
        obtain rfl := Except.ok.inj hy
        exact (hw.kept path x (World.found?_eq_some_iff.mp hfound).1).1
      · rw [henter]
        obtain ⟨mid, hmid, hmade, houtcome⟩ :=
          ihcompile (hcompile now le_rfl) (hw.claim owner path)
        obtain ⟨later, hlater, hafter, hpost⟩ :=
          ih _ (hnext _ mid hmid houtcome) (hmade.settle owner path houtcome)
        exact ⟨later, hmid.trans hlater, hafter, hpost⟩
      · rw [henter]
        exact ih _ hrefused (hw.ofSlots (cache.wake owner) hslots)
      · rw [henter]
        exact ih _ hrefused (hw.ofSlots cache hslots)

end Stencil
