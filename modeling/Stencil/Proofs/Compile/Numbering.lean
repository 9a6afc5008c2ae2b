import Stencil.Proofs.Engine.Retry

/-! # Numbers from the inside out

A document gets its number when all documents in it have theirs, whether they are made for it or
found in the cache.  So its number is above those of all documents in it, and none of them is told
apart from it by anything less.  This holds of everything that an engine ever makes, whatever
becomes of the files in the meantime.
-/
namespace Stencil

/-- A document that was numbered before `now`, after all documents in it.  It consists of
fragments. -/
structure Document.Numbered (now : Nat) (d : Document) : Prop where
  below : d.number < now
  inner : ∀ x ∈ documentsOfChunks d.chunks, x.number < d.number
  fragments : ∀ c ∈ d.chunks, c.IsFragment

/-- All documents of a list are numbered from the inside out. -/
def AllNumbered (now : Nat) (ds : List Document) : Prop := ∀ x ∈ ds, x.Numbered now

namespace AllNumbered

variable {now later : Nat} {ds : List Document}

theorem nil (now : Nat) : AllNumbered now [] := fun x hx => by cases hx

theorem mono (h : AllNumbered now ds) (hle : now ≤ later) : AllNumbered later ds := fun x hx =>
  ⟨Nat.lt_of_lt_of_le (h x hx).below hle, (h x hx).inner, (h x hx).fragments⟩

/-- A document that gets the next number and is made of fragments. -/
theorem cons {stamp : Stamp} {chunks : List Chunk}
    (h : AllNumbered stamp.number (documentsOfChunks chunks)) (hfrag : ∀ c ∈ chunks, c.IsFragment) :
    AllNumbered (stamp.number + 1) (Document.mk stamp chunks).withIncluded := by
  rw [Document.withIncluded]
  intro x hx
  rcases List.mem_cons.mp hx with rfl | hx
  · exact ⟨Nat.lt_succ_self _, fun y hy => (h y hy).below, hfrag⟩
  · exact h.mono (Nat.le_succ _) x hx

end AllNumbered

/-- A compilation that gives a document gives one that is numbered from the inside out. -/
def Outcome.Numbered (outcome : Outcome) (now : Nat) : Prop :=
  ∀ document, outcome = .ok document → AllNumbered now document.withIncluded

/-- A world that keeps only documents which are numbered from the inside out. -/
def World.Numbered (w : World) : Prop :=
  w.Keeps fun _ document => AllNumbered w.nextDocument document.withIncluded

/-- The numbers of a world may go up. -/
theorem World.Numbered.mono {w w' : World} (h : w.Numbered)
    (hcache : w'.cache.slots = w.cache.slots)
    (hle : w.nextDocument ≤ w'.nextDocument) : w'.Numbered := by
  intro path document hslot
  refine (h path document ?_).mono hle
  rwa [Cache.slot?, ← hcache]

namespace Template

variable {source : String}

theorem Node.isFragment_fill (n : Node) (cs : List Chunk) : (n.fill source cs).IsFragment := by
  cases n <;> trivial

/-- The pieces of a tree are fragments. -/
theorem Tree.isFragment_fill (tree : Tree) (cs : List Chunk) :
    ∀ c ∈ tree.fill source cs, c.IsFragment := by
  unfold Tree.fill
  induction tree.nodes generalizing cs with
  | nil => exact fun c hc => by cases hc
  | cons n ns ih =>
    rw [fillNodes]
    exact List.forall_mem_cons.mpr ⟨n.isFragment_fill _, ih _⟩

end Template

theorem gathers_documents : Gathers fun _ => Chunk.documents where
  code _ _ := rfl
  verbatim _ _ := rfl
  fragment _ _ chunks := by
    simp only [Chunk.documents]
    induction chunks with
    | nil => rfl
    | cons c cs ih => rw [documentsOfChunks, ih, List.flatMap_cons]

namespace Job

/-- A job that is carried out from the number `now` on, in a world where documents are numbered from
the inside out, leaves behind such a world and ends with a result that meets a condition. -/
def Orders {α : Type} (m : Job α) (now : Nat) (post : α → Nat → Prop) : Prop :=
  ∀ owner w, w.Numbered → now ≤ w.nextDocument →
    (m.run owner w).2.Numbered ∧ w.nextDocument ≤ (m.run owner w).2.nextDocument ∧
      post (m.run owner w).1 (m.run owner w).2.nextDocument

theorem run_bind {α β : Type} (m : Job α) (f : α → Job β) (owner : Nat) (w : World) :
    (m.bind f).run owner w = (f (m.run owner w).1).run owner (m.run owner w).2 := by
  induction m generalizing w with
  | done a => rfl
  | read path next ih => exact ih _ _ _
  | number next ih => exact ih _ _ _
  | obtain path chain compile next _ ih => exact ih _ _ _

variable {α β : Type} {now : Nat} {post : α → Nat → Prop}

theorem Orders.done {a : α} (h : ∀ later, now ≤ later → post a later) :
    (Job.done a).Orders now post := fun _ _ hw hle => ⟨hw, Nat.le_refl _, h _ hle⟩

theorem Orders.bind {m : Job α} {f : α → Job β} {post' : β → Nat → Prop} (h : m.Orders now post)
    (hf : ∀ a later, now ≤ later → post a later → (f a).Orders later post') :
    (m.bind f).Orders now post' := by
  intro owner w hw hle
  obtain ⟨hw', hle', hpost⟩ := h owner w hw hle
  obtain ⟨hafter, hlast, hpost'⟩ :=
    hf _ _ (Nat.le_trans hle hle') hpost owner _ hw' (Nat.le_refl _)
  rw [run_bind]
  exact ⟨hafter, Nat.le_trans hle' hlast, hpost'⟩

theorem Orders.read {path : String} {next : Except ReadError String → Job α}
    (h : ∀ r, (next r).Orders now post) : (Job.read path next).Orders now post :=
  fun owner w hw hle => h _ owner w hw hle

theorem Orders.number {next : Nat → Job α}
    (h : ∀ n, now ≤ n → (next n).Orders (n + 1) post) : (Job.number next).Orders now post := by
  intro owner w hw hle
  obtain ⟨hafter, hlater, hpost⟩ := h w.nextDocument hle owner w.newDocument.2
    (hw.mono rfl (Nat.le_succ _)) (Nat.le_refl _)
  exact ⟨hafter, Nat.le_of_succ_le hlater, hpost⟩

theorem Orders.obtain {path : String} {chain : List String} {compile : Job Outcome}
    {next : Outcome → Job α}
    (hcompile : ∀ later, now ≤ later → compile.Orders later Outcome.Numbered)
    (hnext : ∀ outcome later, now ≤ later → outcome.Numbered later →
      (next outcome).Orders later post) :
    (Job.obtain path chain compile next).Orders now post := by
  intro owner w hw hle
  have hrefused : Outcome.Numbered (.error (.cycle chain)) w.nextDocument :=
    fun document hdocument => by cases hdocument
  rw [Job.run, World.obtain]
  rcases w.enter_cases owner path with ⟨x, hfound, henter⟩ | ⟨-, henter⟩ |
    ⟨other, cache, entrance, -, henter, hslots, rfl | rfl⟩
  · rw [henter]
    refine hnext (.ok x) w.nextDocument hle (fun document hdocument => ?_) owner w hw (Nat.le_refl _)
    obtain rfl := Except.ok.inj hdocument
    exact hw path x (World.found?_eq_some_iff.mp hfound).1
  · rw [henter]
    obtain ⟨hafter, hlater, houtcome⟩ := hcompile w.nextDocument hle owner
      { w with cache := w.cache.fill path (.compiling owner) } (hw.claim owner path) (Nat.le_refl _)
    obtain ⟨hlast, hlater', hpost⟩ := hnext _ _ (Nat.le_trans hle hlater) houtcome owner _
      (hafter.settle owner fun document hdocument _ => houtcome document hdocument) (Nat.le_refl _)
    exact ⟨hlast, Nat.le_trans hlater hlater', hpost⟩
  · rw [henter]
    exact hnext _ _ hle hrefused owner _ (hw.mono hslots (Nat.le_refl _)) (Nat.le_refl _)
  · rw [henter]
    exact hnext _ _ hle hrefused owner _ (hw.mono hslots (Nat.le_refl _)) (Nat.le_refl _)

/-! ## Templates -/

/-- What an action of a compilation gives, if it gives something. -/
def Given {β : Type} (post : β → Nat → Prop) (r : Except CompileError β) (now : Nat) : Prop :=
  ∀ b, r = .ok b → post b now

theorem orders_mapM {xs : List α} {f : α → Compiling Chunk}
    (h : ∀ x ∈ xs, ∀ later, now ≤ later →
      (f x).run.Orders later (Given fun c time => AllNumbered time c.documents)) :
    (xs.mapM f).run.Orders now (Given fun cs time =>
      cs.length = xs.length ∧ ∀ c ∈ cs, AllNumbered time c.documents) := by
  induction xs generalizing now with
  | nil =>
    refine .done fun later _ cs hcs => ?_
    obtain rfl := Except.ok.inj hcs
    exact ⟨rfl, fun c hc => by cases hc⟩
  | cons x xs ih =>
    rw [List.mapM_cons, ExceptT.run_bind]
    refine (h x List.mem_cons_self now (Nat.le_refl _)).bind fun r mid hmid hr => ?_
    cases r with
    | error reason => exact .done fun _ _ cs hcs => by cases hcs
    | ok c =>
      have htail := @ih mid fun y hy later hle =>
        h y (List.mem_cons_of_mem x hy) later (Nat.le_trans hmid hle)
      show Orders (ExceptT.run (xs.mapM f >>= fun cs => pure (c :: cs))) mid _
      rw [ExceptT.run_bind]
      refine htail.bind fun r last hlast hrest => ?_
      cases r with
      | error reason => exact .done fun _ _ cs hcs => by cases hcs
      | ok cs =>
        refine .done fun later hle cs' hcs => ?_
        obtain rfl := Except.ok.inj hcs
        obtain ⟨hlength, hall⟩ := hrest cs rfl
        refine ⟨congrArg Nat.succ hlength, List.forall_mem_cons.mpr ⟨?_, fun y hy => ?_⟩⟩
        · exact (hr c rfl).mono (Nat.le_trans hlast hle)
        · exact (hall y hy).mono hle

variable {d : Dialect}

/-- A directive becomes a gap, or a document that is numbered from the inside out. -/
theorem orders_insert {chain : List String} {file : String}
    {compile : (path content : String) → Job Outcome} (i : Template.Inclusion)
    (hcompile : ∀ q inner later, now ≤ later → (compile q inner).Orders later Outcome.Numbered) :
    (Stencil.insert d chain file compile i).run.Orders now
      (Given fun c time => AllNumbered time c.documents) := by
  have hgap : ∀ reason, Orders (.done (.ok (.gap reason)) : Job (Except CompileError Chunk)) now
      (Given fun c time => AllNumbered time c.documents) := by
    refine fun reason => .done fun later _ c hc => ?_
    obtain rfl := Except.ok.inj hc
    exact .nil later
  unfold Stencil.insert
  cases htarget : d.target i.arguments file with
  | error reason => exact hgap reason
  | ok target =>
    simp only
    cases hdrop : chain.dropWhile (· != target) with
    | cons first rest => exact .done fun _ _ c hc => by cases hc
    | nil =>
      refine .obtain (fun later hle => .read fun r => ?_) fun outcome later _ houtcome =>
        .done fun time htime c hc => ?_
      · cases r with
        | ok content => exact hcompile target content later hle
        | error fault => exact .done fun _ _ document hdocument => by cases hdocument
      · match outcome, houtcome, hc with
        | .ok document, houtcome, hc =>
          obtain rfl := Except.ok.inj hc
          exact (houtcome document rfl).mono htime
        | .error (.inclusion reason), _, hc =>
          obtain rfl := Except.ok.inj hc
          exact .nil time

/-- The pieces of a tree are fragments, whose documents are those of its directives. -/
theorem orders_chunks {tree : Template.Tree} {path : String}
    {insert : Template.Inclusion → Compiling Chunk}
    (h : ∀ i later, now ≤ later →
      (insert i).run.Orders later (Given fun c time => AllNumbered time c.documents)) :
    (tree.chunks path insert).run.Orders now (Given fun chunks time =>
      (∀ c ∈ chunks, c.IsFragment) ∧ AllNumbered time (documentsOfChunks chunks)) := by
  rw [Template.Tree.chunks_eq, ← bind_pure_comp, ExceptT.run_bind]
  refine (orders_mapM fun i _ => h i).bind fun r later _ hr => ?_
  cases r with
  | error reason => exact .done fun _ _ chunks hchunks => by cases hchunks
  | ok cs =>
    refine .done fun time htime chunks hchunks => ?_
    obtain rfl := Except.ok.inj hchunks
    obtain ⟨hlength, hcs⟩ := hr cs rfl
    refine ⟨Template.Tree.isFragment_fill _ _, fun x hx => ?_⟩
    have hmem : x ∈ (tree.fill path cs).flatMap Chunk.documents :=
      List.mem_flatMap.mpr (mem_documentsOfChunks.mp hx)
    rw [Template.Tree.gather_fill gathers_documents hlength none] at hmem
    obtain ⟨⟨i, c⟩, hzip, hx⟩ := List.mem_flatMap.mp hmem
    exact (hcs c (List.of_mem_zip hzip).2).mono htime x hx

/-- **A compiled text is numbered from the inside out.** -/
theorem orders_compileText (d : Dialect) (depth : Nat) (chain : List String)
    (path content : String) (now : Nat) :
    (compileText d depth chain path content).Orders now Outcome.Numbered := by
  induction depth generalizing chain path content now with
  | zero => exact .done fun _ _ document hdocument => by cases hdocument
  | succ depth ih =>
    rw [Terms.compileText_succ]
    refine (orders_chunks fun i later _ =>
      orders_insert i fun q inner time _ => ih _ q inner time).bind fun r later _ hr => ?_
    cases r with
    | error reason => exact .done fun _ _ document hdocument => by cases hdocument
    | ok chunks =>
      obtain ⟨hfrag, hall⟩ := hr chunks rfl
      refine .number fun n hn => .done fun time htime document hdocument => ?_
      obtain rfl := Except.ok.inj hdocument
      exact (AllNumbered.cons (hall.mono hn) hfrag).mono htime

/-- So is a compiled file. -/
theorem orders_compileFile (d : Dialect) (depth : Nat) (path : String) (now : Nat) :
    (compileFile d depth path).Orders now Outcome.Numbered := by
  refine .obtain (fun later _ => .read fun r => ?_) fun outcome later _ houtcome =>
    .done fun time htime document hdocument => (houtcome document hdocument).mono htime
  cases r with
  | error fault => exact .done fun _ _ document hdocument => by cases hdocument
  | ok content => exact orders_compileText d depth [] path content later

end Job

/-! ## Engines -/

namespace Engine

variable {e : Engine} {w : World}

/-- What is compiled in a world where documents are numbered from the inside out is numbered so, and
leaves behind such a world. -/
theorem numbered_compileWith {job : (depth : Nat) → Job Outcome}
    (hjob : ∀ depth, (job depth).Orders 0 Outcome.Numbered) (hw : w.Numbered) :
    (compileWith job w).2.Numbered ∧ ∀ program, (compileWith job w).1 = .ok program →
      ∃ (root : Document) (now : Nat), program = root.program ∧ AllNumbered now root.withIncluded := by
  obtain ⟨hafter, -, houtcome⟩ :=
    hjob (w.files.size + 1) w.nextOwner w.newOwner.2 hw (Nat.zero_le _)
  refine ⟨hafter, fun program hprogram => ?_⟩
  unfold compileWith at hprogram
  simp only [World.newOwner] at hprogram houtcome
  cases hrun : ((job (w.files.size + 1)).run w.nextOwner
      { w with nextOwner := w.nextOwner + 1 }).1 with
  | ok root =>
    rw [hrun] at hprogram houtcome
    exact ⟨root, _, (Except.ok.inj hprogram).symm, houtcome root rfl⟩
  | error reason =>
    rw [hrun] at hprogram
    cases hprogram

theorem numbered_compile (hw : w.Numbered) (path : String) :
    (e.compile path w).2.Numbered ∧ ∀ program, (e.compile path w).1 = .ok program →
      ∃ (root : Document) (now : Nat), program = root.program ∧ AllNumbered now root.withIncluded :=
  numbered_compileWith (fun depth => Job.orders_compileFile e.dialect depth _ 0) hw

theorem numbered_compileSource (hw : w.Numbered) (path source : String) :
    (e.compileSource path source w).2.Numbered ∧
      ∀ program, (e.compileSource path source w).1 = .ok program →
        ∃ (root : Document) (now : Nat), program = root.program ∧ AllNumbered now root.withIncluded :=
  numbered_compileWith (fun depth => Job.orders_compileText e.dialect depth [] _ source 0) hw

theorem numbered_meet (hw : w.Numbered) (event : Event) : (e.meet w event).Numbered := by
  match event with
  | .write _ _ | .remove _ => exact hw.mono rfl (Nat.le_refl _)
  | .request (.compile path) => exact (numbered_compile hw path).1
  | .request (.compileSource path source) => exact (numbered_compileSource hw path source).1
  | .request (.render path context) =>
    rw [meet, serve, world_render]
    exact (numbered_compile hw path).1
  | .request (.renderSource path source context) =>
    rw [meet, serve, world_renderSource]
    exact (numbered_compileSource hw path source).1
  | .request (.invalidate path) =>
    intro q document hslot
    have hdrop := (w.cache.slot?_drop (Path.normalize path) q).symm.trans hslot
    split at hdrop
    · cases hdrop
    · exact hw q document hdrop
  | .request .clear => exact fun q document hslot => by cases hslot

/-- **Whatever happens, an engine keeps only documents that are numbered from the inside out.** -/
theorem numbered_course (e : Engine) (files : Files) (mode : CacheMode) (events : List Event) :
    (e.course files mode events).Numbered := by
  have hfold : ∀ w : World, w.Numbered → (events.foldl e.meet w).Numbered := by
    induction events with
    | nil => exact fun w hw => hw
    | cons event events ih => exact fun w hw => ih _ (numbered_meet hw event)
  exact hfold _ fun path document hslot => by cases hslot

end Engine

end Stencil
