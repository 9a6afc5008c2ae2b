import Stencil.Document
import Stencil.Options

/-! # Caches

A cache keeps the documents of paths. Several compilations can share it: each path has one slot,
which holds a finished document or the number of the compilation that is at work on it, and who
needs that document waits. Every function on caches here is one step that nothing comes between.

A compilation that would wait for itself is refused. It asks who owns the slot, for which path that
owner waits, who owns that slot, and so on.
-/
namespace Stencil

/-- What is kept for a path. -/
inductive Slot
  | ready (document : Document)
  /-- The compilation with the number `owner` is at work. -/
  | compiling (owner : Nat)
  deriving Inhabited

/-- The documents of paths, and the compilations at work. -/
structure Cache where
  mode : CacheMode
  slots : List (String × Slot)
  /-- The compilations that wait, each with the path of the slot it waits for. -/
  waiting : List (Nat × String)
  deriving Inhabited

/-- What a compilation finds when it asks for the document of a path. -/
inductive Entrance
  | found (document : Document)
  /-- The slot is now its own, and it has to make the document. -/
  | claimed
  /-- It waits for the owner of the slot. -/
  | waits
  /-- It would wait for itself. -/
  | refused
  deriving Inhabited

namespace Cache

/-- A cache without documents. -/
def empty (mode : CacheMode) : Cache := ⟨mode, [], []⟩

/-! ## Slots -/

/-- The slot of a path. -/
def slot? (c : Cache) (path : String) : Option Slot := c.slots.lookup path

/-- Gives up the slot of a path. -/
def drop (c : Cache) (path : String) : Cache :=
  { c with slots := c.slots.filter (·.1 != path) }

/-- Fills the slot of a path. -/
def fill (c : Cache) (path : String) (slot : Slot) : Cache :=
  { c with slots := (path, slot) :: (c.drop path).slots }

/-- Whether a compilation owns the slot of a path. -/
def isOwned (c : Cache) (owner : Nat) (path : String) : Bool :=
  match c.slot? path with
  | some (.compiling other) => other == owner
  | _ => false

/-! ## Waiting -/

/-- The owner of the slot that a compilation waits for. -/
def waitsFor? (c : Cache) (owner : Nat) : Option Nat :=
  match (c.waiting.lookup owner).bind c.slot? with
  | some (.compiling other) => some other
  | _ => none

/-- Whether one meets `waiter` on the way from `owner` to those that are waited for, in at most
`steps` steps. -/
def leadsTo (c : Cache) (waiter : Nat) : (steps : Nat) → (owner : Nat) → Bool
  | 0, owner => owner == waiter
  | steps + 1, owner =>
    owner == waiter ||
      match c.waitsFor? owner with
      | some next => c.leadsTo waiter steps next
      | none => false

/-- Whether a compilation that waits for a slot of `owner` waits for itself. The way goes through
every waiting compilation at most once. -/
def closesLoop (c : Cache) (waiter owner : Nat) : Bool :=
  c.leadsTo waiter c.waiting.length owner

/-! ## Asking for documents -/

/-- A compilation asks for the document of a path. `stale` is the number of a document that it has
found there before and cannot use. -/
def enter (c : Cache) (owner : Nat) (path : String) (stale : Option Nat) : Cache × Entrance :=
  match c.slot? path with
  | some (.ready document) =>
    if stale = some document.number then (c.fill path (.compiling owner), .claimed)
    else (c, .found document)
  | some (.compiling other) =>
    if c.closesLoop owner other then (c, .refused)
    else ({ c with waiting := (owner, path) :: c.waiting }, .waits)
  | none => (c.fill path (.compiling owner), .claimed)

/-- A compilation stops waiting, and will ask again. -/
def wake (c : Cache) (owner : Nat) : Cache :=
  { c with waiting := c.waiting.filter (·.1 != owner) }

/-- A compilation stores the document of a path, if the slot is still its own. Nothing is stored as
long as a directive of the document fails. -/
def store (c : Cache) (owner : Nat) (path : String) (document : Document) : Cache :=
  if c.isOwned owner path && !document.hasGaps then c.fill path (.ready document) else c

/-- A compilation ends its work on a path, and gives up the slot if that is still its own. -/
def release (c : Cache) (owner : Nat) (path : String) : Cache :=
  if c.isOwned owner path then c.drop path else c

/-- Whether a document that is kept may be used. -/
def isValid (c : Cache) (files : Files) (document : Document) : Bool :=
  match c.mode with
  | .session => true
  | .revalidate => document.isFresh files

/-! ## Looking in from outside -/

/-- The document of a path that is kept and may be used. -/
def get? (c : Cache) (files : Files) (path : String) : Option Document :=
  match c.slot? path with
  | some (.ready document) => if c.isValid files document then some document else none
  | _ => none

/-- Gives up the slot of a path, and says whether a document was kept in it. -/
def invalidate (c : Cache) (path : String) : Cache × Bool :=
  (c.drop path, match c.slot? path with
    | some (.ready _) => true
    | _ => false)

/-- Gives up all slots. -/
def clear (c : Cache) : Cache := { c with slots := [] }

/-- The number of documents that are kept. -/
def size (c : Cache) : Nat :=
  (c.slots.filter fun s => match s.2 with
    | .ready _ => true
    | .compiling _ => false).length

end Cache

end Stencil
