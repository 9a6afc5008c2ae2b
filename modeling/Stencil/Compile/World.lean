import Stencil.Cache
import Stencil.Compile.Job

/-! # Carrying out jobs

A world is what jobs work on: the files, the cache, and the numbers that are not yet taken. Here
one job after another is carried out, each from its first step to its last.
-/
namespace Stencil

/-- What jobs work on. -/
structure World where
  files : Files
  cache : Cache
  /-- The number of the next document. -/
  nextDocument : Nat
  /-- The number of the next compilation. -/
  nextOwner : Nat
  deriving Inhabited

namespace World

/-- A world in which nothing has been compiled. -/
def fresh (files : Files) (mode : CacheMode) : World := ⟨files, .empty mode, 0, 0⟩

/-- Takes the number of a new document. -/
def newDocument (w : World) : Nat × World :=
  (w.nextDocument, { w with nextDocument := w.nextDocument + 1 })

/-- Takes the number of a new compilation. -/
def newOwner (w : World) : Nat × World :=
  (w.nextOwner, { w with nextOwner := w.nextOwner + 1 })

/-- Asks the cache for the document of a path. What is found there but cannot be used is claimed
by asking again. -/
def enter (w : World) (owner : Nat) (path : String) : World × Entrance :=
  match w.cache.enter owner path none with
  | (cache, .found document) =>
    if w.cache.isValid w.files document then (w, .found document)
    else
      let (cache, entrance) := cache.enter owner path (some document.number)
      ({ w with cache }, entrance)
  | (cache, entrance) => ({ w with cache }, entrance)

/-- Ends the work of a compilation on a path. -/
def settle (w : World) (owner : Nat) (path : String) (outcome : Outcome) : World :=
  let cache := match outcome with
    | .ok document => w.cache.store owner path document
    | .error _ => w.cache
  { w with cache := cache.release owner path }

/-- Gives the document of a path, made by `compile` if the cache has none; this also says what
`compile` has brought to light. Nobody else is at work, so that a compilation which would have to
wait is refused as well. -/
def obtain {β : Type} (w : World) (owner : Nat) (path : String) (chain : List String)
    (compile : World → (Outcome × β) × World) : (Outcome × Option β) × World :=
  match w.enter owner path with
  | (w, .found document) => ((.ok document, none), w)
  | (w, .claimed) =>
    let ((outcome, more), w) := compile w
    ((outcome, some more), w.settle owner path outcome)
  | (w, .waits) =>
    ((.error (.cycle chain), none), { w with cache := w.cache.wake owner })
  | (w, .refused) => ((.error (.cycle chain), none), w)

end World

/-- Carries out a job for the compilation with the number `owner`. -/
def Job.run {α : Type} (owner : Nat) : Job α → World → α × World
  | done result, w => (result, w)
  | read path next, w => (next (w.files.read path)).run owner w
  | number next, w =>
    let (n, w) := w.newDocument
    (next n).run owner w
  | .obtain path chain compile next, w =>
    let ((outcome, _), w) := w.obtain owner path chain fun w =>
      let (outcome, w) := compile.run owner w
      ((outcome, ()), w)
    (next outcome).run owner w

end Stencil
