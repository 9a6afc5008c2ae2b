import Mathlib.Data.List.Forall2
import Mathlib.Order.Basic
import Stencil.Proofs.Compile.Filling
import Stencil.Proofs.Compile.Job

/-! # Contracts of jobs

Under a contract, a job relies on what it is told, and sees to what it tells others.  What it is
told of a document may have become true while it was at work: it is said of a time, and stays true
later on.  A contract says nothing about files or caches; whoever carries out jobs has to show that
the contract is one that can be kept.
-/
namespace Stencil
open Template (originAt)

/-- What jobs are held to, at the times of a type. -/
structure Contract (τ : Type) where
  /-- What may be found when a file is read. -/
  reads : (path : String) → Except ReadError String → Prop
  /-- The last file of a chain may ask for a path. -/
  asks : (chain : List String) → (path : String) → Prop
  /-- The job of a question for a path is carried out only if this holds. -/
  free : (path : String) → Prop
  /-- The job of a question that the last file of a chain asks has to end with this. -/
  made : (chain : List String) → (path : String) → Outcome → τ → Prop
  /-- A question that the last file of a chain asks may be answered with this. -/
  given : (chain : List String) → (path : String) → Outcome → τ → Prop

variable {τ : Type} [Preorder τ]

/-- A job that is carried out for the last file of a chain from a time on keeps a contract, and ends
with a result that meets a condition. -/
inductive Job.Meets (R : Contract τ) : {α : Type} → Job α → (chain : List String) → (now : τ) →
    (post : α → τ → Prop) → Prop
  | done {α : Type} {a : α} {chain : List String} {now : τ} {post : α → τ → Prop}
    (h : ∀ later, now ≤ later → post a later) : Meets R (.done a) chain now post
  | read {α : Type} {path : String} {next : Except ReadError String → Job α}
    {chain : List String} {now : τ} {post : α → τ → Prop}
    (h : ∀ r, R.reads path r → Meets R (next r) chain now post) :
    Meets R (.read path next) chain now post
  | number {α : Type} {next : Nat → Job α} {chain : List String} {now : τ}
    {post : α → τ → Prop} (h : ∀ n, Meets R (next n) chain now post) :
    Meets R (.number next) chain now post
  | obtain {α : Type} {path : String} {asked : List String} {compile : Job Outcome}
    {next : Outcome → Job α} {chain : List String} {now : τ} {post : α → τ → Prop}
    (hasks : R.asks chain path)
    (hcompile : ∀ later, now ≤ later → R.free path →
      Meets R compile (chain ++ [path]) later (R.made chain path))
    (hnext : ∀ outcome later, now ≤ later → R.given chain path outcome later →
      Meets R (next outcome) chain later post) :
    Meets R (.obtain path asked compile next) chain now post

namespace Job

variable {R : Contract τ} {chain : List String} {now later : τ}

theorem Meets.mono {α : Type} {m : Job α} {post post' : α → τ → Prop}
    (h : m.Meets R chain now post) (hle : now ≤ later)
    (hpost : ∀ a time, later ≤ time → post a time → post' a time) :
    m.Meets R chain later post' := by
  induction m generalizing now later with
  | done a =>
    cases h with
    | done h => exact .done fun time htime => hpost a time htime (h time (hle.trans htime))
  | read path next ih =>
    cases h with
    | read h => exact .read fun r hr => ih r (h r hr) hle hpost
  | number next ih =>
    cases h with
    | number h => exact .number fun n => ih n (h n) hle hpost
  | obtain path asked compile next _ ih =>
    cases h with
    | obtain hasks hcompile hnext =>
      refine .obtain hasks (fun time htime => hcompile time (hle.trans htime)) ?_
      intro outcome time htime hgiven
      refine ih outcome (hnext outcome time (hle.trans htime) hgiven) le_rfl ?_
      exact fun a time' htime' => hpost a time' (htime.trans htime')

/-- What a job keeps to from a time on, it also keeps to from a later time on. -/
theorem Meets.defer {α : Type} {m : Job α} {post : α → τ → Prop}
    (h : m.Meets R chain now post) (hle : now ≤ later) : m.Meets R chain later post :=
  h.mono hle fun _ _ _ hpost => hpost

theorem Meets.imp {α : Type} {m : Job α} {post post' : α → τ → Prop}
    (h : m.Meets R chain now post) (hpost : ∀ a time, now ≤ time → post a time → post' a time) :
    m.Meets R chain now post' :=
  h.mono le_rfl hpost

theorem Meets.bind {α β : Type} {m : Job α} {f : α → Job β} {post : β → τ → Prop}
    (h : m.Meets R chain now fun a later => (f a).Meets R chain later post) :
    (m.bind f).Meets R chain now post := by
  induction m generalizing now with
  | done a =>
    cases h with
    | done h => exact h now le_rfl
  | read path next ih =>
    cases h with
    | read h => exact .read fun r hr => ih r (h r hr)
  | number next ih =>
    cases h with
    | number h => exact .number fun n => ih n (h n)
  | obtain path asked compile next _ ih =>
    cases h with
    | obtain hasks hcompile hnext =>
      exact .obtain hasks hcompile fun outcome later hle hgiven =>
        ih outcome (hnext outcome later hle hgiven)

/-! ## Pieces -/

/-- A condition on a result, and one on the error if there is no result. -/
def Ends {β : Type} (fails : CompileError → τ → Prop) (post : β → τ → Prop) :
    Except CompileError β → τ → Prop
  | .ok b, later => post b later
  | .error e, later => fails e later

variable {fails : CompileError → τ → Prop}

theorem Meets.bindCompiling {β γ : Type} {m : Compiling β} {f : β → Compiling γ}
    {post : γ → τ → Prop} (hfails : ∀ e, Monotone (fails e))
    (h : Meets R m.run chain now
      (Ends fails fun b later => Meets R (f b).run chain later (Ends fails post))) :
    Meets R (m >>= f).run chain now (Ends fails post) := by
  rw [ExceptT.run_bind]
  refine Meets.bind (h.imp fun r later _ hr => ?_)
  cases r with
  | ok b => exact hr
  | error e => exact .done fun _ hle => hfails e hle hr

/-- A list of actions gives a list of results, each of which is right for its action at the end. -/
theorem meets_mapM {α β : Type} {xs : List α} {f : α → Compiling β} {P : α → β → τ → Prop}
    (hfails : ∀ e, Monotone (fails e)) (hP : ∀ x b, Monotone (P x b))
    (h : ∀ x ∈ xs, ∀ later, now ≤ later → Meets R (f x).run chain later (Ends fails (P x))) :
    Meets R (xs.mapM f).run chain now
      (Ends fails fun bs later => List.Forall₂ (fun x b => P x b later) xs bs) := by
  induction xs generalizing now with
  | nil => exact .done fun _ _ => .nil
  | cons x xs ih =>
    rw [List.mapM_cons]
    refine Meets.bindCompiling hfails ((h x List.mem_cons_self now le_rfl).imp ?_)
    intro r mid hmid hr
    cases r with
    | error e => exact hr
    | ok b =>
      have htail := @ih mid fun y hy later hle =>
        h y (List.mem_cons_of_mem x hy) later (hmid.trans hle)
      refine Meets.bindCompiling hfails (htail.imp fun r later hle hrest => ?_)
      cases r with
      | error e => exact hrest
      | ok bs =>
        refine .done fun time htime => ?_
        exact .cons (hP x b (hle.trans htime) hr) (hrest.imp fun y c => (hP y c htime ·))

/-- The pieces of a tree are those of its directives, filled in. -/
theorem meets_chunks {tree : Template.Tree} {path : String}
    {insert : Template.Inclusion → Compiling Chunk} {P : Template.Inclusion → Chunk → τ → Prop}
    (hfails : ∀ e, Monotone (fails e)) (hP : ∀ i c, Monotone (P i c))
    (h : ∀ i ∈ tree.inclusions, ∀ later, now ≤ later →
      Meets R (insert i).run chain later (Ends fails (P i))) :
    Meets R (tree.chunks path insert).run chain now (Ends fails fun chunks later =>
      ∃ cs, chunks = tree.fill path cs ∧
        List.Forall₂ (fun i c => P i c later) tree.inclusions cs) := by
  rw [Template.Tree.chunks_eq, ← bind_pure_comp]
  refine Meets.bindCompiling hfails ((meets_mapM hfails hP h).imp fun r later _ hr => ?_)
  cases r with
  | error e => exact hr
  | ok cs =>
    refine .done fun time htime => ⟨cs, rfl, hr.imp fun i c => (hP i c htime ·)⟩

/-! ## Directives -/

/-- What a directive may become, under a contract: it makes no request, it closes a cycle, or it
becomes what its question is answered with. -/
theorem meets_insert {d : Dialect} {file : String}
    {compile : (path content : String) → Job Outcome} {i : Template.Inclusion}
    {post : Except CompileError Chunk → τ → Prop}
    (hgap : ∀ reason, d.target i.arguments file = .error reason →
      ∀ later, now ≤ later → post (.ok (.gap reason)) later)
    (hcycle : ∀ q cycle, d.target i.arguments file = .ok q → q ∈ chain →
      ∀ later, now ≤ later → post (.error (.cycle cycle)) later)
    (hasks : ∀ q, d.target i.arguments file = .ok q → q ∉ chain → R.asks chain q)
    (hunreadable : ∀ q fault, d.target i.arguments file = .ok q → q ∉ chain → R.free q →
      R.reads q (.error fault) → ∀ later,
        R.made chain q (.error (.inclusion (.ofReadError q fault))) later)
    (hcompile : ∀ q content later, d.target i.arguments file = .ok q → q ∉ chain → R.free q →
      R.reads q (.ok content) →
        (compile q content).Meets R (chain ++ [q]) later (R.made chain q))
    (hgiven : ∀ q outcome later, d.target i.arguments file = .ok q → q ∉ chain → now ≤ later →
      R.given chain q outcome later → ∀ time, later ≤ time →
        post (insertion (originAt file i.location.start) outcome) time) :
    Meets R (Stencil.insert d chain file compile i).run chain now post := by
  unfold Stencil.insert
  cases htarget : d.target i.arguments file with
  | error reason => exact .done (hgap reason htarget)
  | ok q =>
    simp only
    cases hdrop : chain.dropWhile (· != q) with
    | cons p rest =>
      refine .done (hcycle q _ htarget ?_)
      by_contra hnew
      refine List.cons_ne_nil p rest (hdrop.symm.trans (List.dropWhile_eq_nil_iff.mpr ?_))
      intro r hr
      simpa using fun heq : r = q => hnew (heq ▸ hr)
    | nil =>
      have hnew : q ∉ chain := by
        intro hmem
        have := List.dropWhile_eq_nil_iff.mp hdrop q hmem
        simp at this
      refine .obtain (hasks q htarget hnew) (fun later _ hfree => .read fun r hr => ?_)
        fun outcome later hle h => .done (hgiven q outcome later htarget hnew hle h)
      cases r with
      | ok content => exact hcompile q content later htarget hnew hfree hr
      | error fault => exact .done fun time _ => hunreadable q fault htarget hnew hfree hr time

end Job

end Stencil
