import Stencil.Engine
import Stencil.Proofs.Compile.World

/-! # Engines in use

An engine is asked for one thing after another, and keeps documents from one request to the next.
As long as the files stay what they are, what it has been asked for before makes no difference to
what a compilation ends with.
-/
namespace Stencil

/-- What an engine can be asked for. -/
inductive Request
  | compile (path : String)
  | compileSource (path source : String)
  | render (path : String) (context : Json)
  | renderSource (path source : String) (context : Json)
  | invalidate (path : String)
  | clear

namespace Engine

/-- The world after a request. -/
def serve (e : Engine) (w : World) : Request → World
  | .compile path => (e.compile path w).2
  | .compileSource path source => (e.compileSource path source w).2
  | .render path context => (e.render path context w).2
  | .renderSource path source context => (e.renderSource path source context w).2
  | .invalidate path => (invalidate path w).2
  | .clear => { w with cache := w.cache.clear }

/-- The world after some requests, the first of them first, to an engine that begins with an empty
cache. -/
def history (e : Engine) (files : Files) (mode : CacheMode) (requests : List Request) : World :=
  requests.foldl e.serve (.fresh files mode)

/-- A world that nobody is at work in. What its cache keeps for use are the documents of its
files. -/
structure Idle (d : Dialect) (files : Files) (w : World) : Prop where
  reads : w.files = files
  kept : w.Keeps fun path document => w.cache.isValid w.files document = true →
    Kept d files w.nextDocument path document
  free : ∀ path other, w.cache.slot? path ≠ some (.compiling other)

variable {e : Engine} {d : Dialect} {files : Files} {w : World}

theorem idle_fresh (d : Dialect) (files : Files) (mode : CacheMode) :
    Idle d files (.fresh files mode) where
  reads := rfl
  kept _ _ hslot := by cases hslot
  free _ _ hslot := by cases hslot

/-- Giving up slots leaves a world idle. -/
theorem Idle.ofCache (h : Idle d files w) {cache : Cache} (hmode : cache.mode = w.cache.mode)
    (hslot : ∀ path slot, cache.slot? path = some slot → w.cache.slot? path = some slot) :
    Idle d files { w with cache } where
  reads := h.reads
  kept path document hready hvalid := by
    rw [Cache.isValid_eq hmode] at hvalid
    exact h.kept path document (hslot path _ hready) hvalid
  free path other howned := h.free path other (hslot path _ howned)

/-- While nobody else is at work, a compilation of its own is served. -/
theorem Idle.serves {T : Terms} (h : Idle T.dialect T.files w) :
    World.Serves T w.nextOwner [] w.newOwner.2 :=
  ⟨h.reads, h.kept, fun path other hslot => absurd hslot (h.free path other)⟩

/-- A compilation of its own ends with a result that its job ensures, and leaves the world idle. -/
theorem Idle.compileWith {T : Terms} (job : (depth : Nat) → Job Outcome) {chain : List String}
    {post : Outcome → Nat → Prop} (h : Idle T.dialect T.files w)
    (hjob : T.Ensures (job (T.files.size + 1)) chain 0 post) :
    Idle T.dialect T.files (compileWith job w).2 ∧ ∃ outcome hi,
      (compileWith job w).1 = outcome.map Document.program ∧ post outcome hi := by
  obtain ⟨hafter, -, hpost⟩ :=
    Job.run_ensures hjob h.serves (List.nil_subset chain) (Nat.zero_le _)
  unfold Engine.compileWith
  simp only [World.newOwner, h.reads] at hafter hpost ⊢
  refine ⟨⟨hafter.files, hafter.kept, fun path other hslot => ?_⟩, _, _, rfl, hpost⟩
  exact absurd (hafter.own path other hslot).2 List.not_mem_nil

/-- The job of a compilation ensures a correct answer. -/
theorem ensures_compile (e : Engine) (files : Files) (path : String) :
    (Terms.strict e.dialect files).Ensures
      (compileFile e.dialect (files.size + 1) (Path.normalize path)) [] 0
      ((Terms.strict e.dialect files).Answer [] (Path.normalize path) 0) :=
  Terms.ensures_compileFile (Terms.closed_strict e.dialect files) (Nat.le_refl (files.size + 1))
    (Path.normalize_normalize path) 0

/-- So does that of the compilation of a text, which may stand for a file that is not there. -/
theorem ensures_compileSource (e : Engine) (files : Files) (path source : String) :
    (Terms.lax e.dialect files).Ensures
      (compileText e.dialect (files.size + 1) [] (Path.normalize path) source)
      [Path.normalize path] 0
      ((Terms.lax e.dialect files).TextAnswer (Path.normalize path) source 0) := by
  exact Terms.ensures_compileText_root (Terms.closed_lax e.dialect files)
    (Nat.le_refl (files.size + 1)) (Terms.linked_singleton _ _) 0 fun _ _ => trivial

/-- A compilation ends with a correct answer, and leaves the world idle. -/
theorem Idle.compile (h : Idle e.dialect files w) (path : String) :
    Idle e.dialect files (e.compile path w).2 ∧ ∃ outcome hi,
      (e.compile path w).1 = outcome.map Document.program ∧
        (Terms.strict e.dialect files).Answer [] (Path.normalize path) 0 outcome hi := by
  unfold Engine.compile
  exact Idle.compileWith (T := .strict e.dialect files)
    (fun depth => compileFile e.dialect depth (Path.normalize path)) h
    (e.ensures_compile files path)

theorem world_render (e : Engine) (path : String) (context : Json) (w : World) :
    (e.render path context w).2 = (e.compile path w).2 := by
  unfold render
  generalize e.compile path w = compiled
  rfl

theorem world_renderSource (e : Engine) (path source : String) (context : Json) (w : World) :
    (e.renderSource path source context w).2 = (e.compileSource path source w).2 := by
  unfold renderSource
  generalize e.compileSource path source w = compiled
  rfl

theorem rendering_render (e : Engine) (path : String) (context : Json) (w : World) :
    (e.render path context w).1 = e.executeCompiled (e.compile path w).1 context := by
  unfold render
  generalize e.compile path w = compiled
  rfl

theorem rendering_renderSource (e : Engine) (path source : String) (context : Json) (w : World) :
    (e.renderSource path source context w).1 =
      e.executeCompiled (e.compileSource path source w).1 context := by
  unfold renderSource
  generalize e.compileSource path source w = compiled
  rfl

/-- All that a request does to a world is carrying out a job that ensures something, or giving up
slots. -/
theorem serve_cases (e : Engine) (w : World) (request : Request) :
    (∃ asks loops job chain post,
      (Terms.mk e.dialect w.files asks loops).Ensures (job (w.files.size + 1)) chain 0 post ∧
      e.serve w request = (Engine.compileWith job w).2) ∨
    ∃ cache, e.serve w request = { w with cache } ∧ cache.mode = w.cache.mode ∧
      ∀ path slot, cache.slot? path = some slot → w.cache.slot? path = some slot := by
  have hfile : ∀ path, ∃ asks loops job chain post,
      (Terms.mk e.dialect w.files asks loops).Ensures (job (w.files.size + 1)) chain 0 post ∧
      (e.compile path w).2 = (Engine.compileWith job w).2 := fun path =>
    ⟨_, _, fun depth => compileFile e.dialect depth (Path.normalize path), _, _,
      e.ensures_compile w.files path, rfl⟩
  have htext : ∀ path source, ∃ asks loops job chain post,
      (Terms.mk e.dialect w.files asks loops).Ensures (job (w.files.size + 1)) chain 0 post ∧
      (e.compileSource path source w).2 = (Engine.compileWith job w).2 := fun path source =>
    ⟨_, _, fun depth => compileText e.dialect depth [] (Path.normalize path) source, _, _,
      e.ensures_compileSource w.files path source, rfl⟩
  cases request with
  | compile path => exact .inl (hfile path)
  | compileSource path source => exact .inl (htext path source)
  | render path context =>
    rw [serve, world_render]
    exact .inl (hfile path)
  | renderSource path source context =>
    rw [serve, world_renderSource]
    exact .inl (htext path source)
  | invalidate path =>
    refine .inr ⟨_, rfl, rfl, fun q slot hslot => ?_⟩
    have hdrop := (w.cache.slot?_drop (Path.normalize path) q).symm.trans hslot
    split at hdrop
    · cases hdrop
    · exact hdrop
  | clear => exact .inr ⟨_, rfl, rfl, fun q slot hslot => by cases hslot⟩

/-- Every request leaves the world idle. -/
theorem Idle.serve (h : Idle e.dialect files w) (request : Request) :
    Idle e.dialect files (e.serve w request) := by
  obtain rfl := h.reads
  rcases e.serve_cases w request with
    ⟨asks, loops, job, chain, post, hjob, hserve⟩ | ⟨cache, hserve, hmode, hslot⟩
  · rw [hserve]
    exact (Idle.compileWith (T := .mk e.dialect w.files asks loops) job h hjob).1
  · rw [hserve]
    exact h.ofCache hmode hslot

/-- **Whatever an engine has been asked for, its world is idle**: the cache keeps nothing but
documents that the files have to be compiled to. -/
theorem idle_history (e : Engine) (files : Files) (mode : CacheMode) (requests : List Request) :
    Idle e.dialect files (e.history files mode requests) := by
  have hfold : ∀ w, Idle e.dialect files w →
      Idle e.dialect files (requests.foldl e.serve w) := by
    induction requests with
    | nil => exact fun w hw => hw
    | cons request requests ih => exact fun w hw => ih _ (hw.serve request)
  exact hfold _ (idle_fresh e.dialect files mode)

end Engine

end Stencil
