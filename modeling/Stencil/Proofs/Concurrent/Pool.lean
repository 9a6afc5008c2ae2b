import Mathlib.Data.List.Basic
import Stencil.Compile.World
import Stencil.Proofs.Cache

/-! # Compilations at the same time

Several compilations share one world.  Each of them has a number of its own and goes on step by step
in its job: it does one thing while it holds the lock of the cache, or one thing between two such
times.  The steps of different compilations come in any order, and so do those of others who give up
slots from outside, who announce this afterwards, and who write files.

One that waits for a slot sleeps until somebody announces that a slot was given up, or until it
wakes up for no reason.  It stops waiting when it goes on after that, and asks again.
-/
namespace Stencil

/-- Whether the file of a document holds the text that was compiled. -/
def Stamp.isCurrent (files : Files) (s : Stamp) : Bool :=
  match files.read s.path with
  | .ok content => contentHash content == s.hash
  | .error _ => false

mutual

theorem Chunk.isFresh_iff (files : Files) : ∀ c : Chunk,
    c.isFresh files = true ↔ ∀ x ∈ c.documents, x.stamp.isCurrent files = true
  | .code _ | .verbatim _ | .gap _ => by simp [Chunk.isFresh, Chunk.documents]
  | .fragment _ chunks => by
    rw [Chunk.isFresh, Chunk.documents, areFresh_iff_documents files chunks]
  | .inclusion _ document => by
    rw [Chunk.isFresh, Chunk.documents, document.isFresh_iff files]

theorem areFresh_iff_documents (files : Files) : ∀ cs : List Chunk,
    areFresh files cs = true ↔ ∀ x ∈ documentsOfChunks cs, x.stamp.isCurrent files = true
  | [] => by simp [areFresh, documentsOfChunks]
  | c :: cs => by
    rw [areFresh, documentsOfChunks, Bool.and_eq_true, c.isFresh_iff files,
      areFresh_iff_documents files cs, List.forall_mem_append]

/-- A document is fresh if its file, and those of all that it includes, hold what was compiled; so
the files can be read one by one. -/
theorem Document.isFresh_iff (files : Files) : ∀ d : Document,
    d.isFresh files = true ↔ ∀ x ∈ d.withIncluded, x.stamp.isCurrent files = true
  | .mk stamp chunks => by
    rw [Document.isFresh, Document.withIncluded, List.forall_mem_cons,
      ← areFresh_iff_documents files chunks, Document.stamp, Stamp.isCurrent]
    cases files.read stamp.path <;> simp

end

/-- The documents whose files have to be read before a document that is kept may be used. -/
def Cache.judged (c : Cache) (document : Document) : List Stamp :=
  match c.mode with
  | .session => []
  | .revalidate => document.withIncluded.map Document.stamp

/-- A question for the document of a path, with the job that makes it and the one that goes on with
the answer. -/
structure Call where
  path : String
  chain : List String
  compile : Job Outcome
  next : Outcome → Job Outcome

/-- The job that begins with a question. -/
def Call.job (c : Call) : Job Outcome := .obtain c.path c.chain c.compile c.next

/-- A slot that is claimed, and how to go on after it was given up. -/
structure Claim where
  path : String
  next : Outcome → Job Outcome

/-- What a compilation is about to do. -/
inductive Phase
  /-- It carries out a job. -/
  | work (job : Job Outcome)
  /-- It has found a document and reads the files of `left`, one after the other. -/
  | judge (call : Call) (document : Document) (left : List Stamp)
  /-- It asks again, since it cannot use the document with the number `stale`. -/
  | retry (call : Call) (stale : Nat)
  /-- It sleeps, and is `woken` before it asks again. -/
  | sleep (call : Call) (woken : Bool)
  /-- It gives up the slot of a claim with whose job it is done. -/
  | release (claim : Claim) (outcome : Outcome)
  /-- It announces that it has given up a slot. -/
  | announce (job : Job Outcome)

/-- A compilation under way. -/
structure Thread where
  phase : Phase
  /-- The slots it has claimed and not begun to give up, the innermost first. -/
  claims : List Claim

namespace Thread

/-- The paths of all slots that a compilation has claimed and not given up. -/
def held (t : Thread) : List String :=
  match t.phase with
  | .release claim _ => claim.path :: t.claims.map Claim.path
  | _ => t.claims.map Claim.path

/-- The path whose slot a compilation waits for. -/
def awaits? (t : Thread) : Option String :=
  match t.phase with
  | .sleep call _ => some call.path
  | _ => none

/-- The path whose slot a compilation waits for that nobody has woken up. -/
def blocked? (t : Thread) : Option String :=
  match t.phase with
  | .sleep call false => some call.path
  | _ => none

/-- A compilation will announce what has become of the slot of a path. -/
def Owes (t : Thread) (path : String) : Prop :=
  match t.phase with
  | .release claim _ => claim.path = path
  | .announce _ => True
  | _ => False

/-- What a compilation has ended with. -/
def result? (t : Thread) : Option Outcome :=
  match t with
  | ⟨.work (.done outcome), []⟩ => some outcome
  | _ => none

/-- A compilation that sleeps is woken up. -/
def rouse (t : Thread) : Thread :=
  match t.phase with
  | .sleep call _ => { t with phase := .sleep call true }
  | _ => t

/-- A compilation goes on with what it has met when it asked. -/
def meet (t : Thread) (c : Cache) (call : Call) : Entrance → Thread
  | .found document => { t with phase := .judge call document (c.judged document) }
  | .claimed => ⟨.work call.compile, ⟨call.path, call.next⟩ :: t.claims⟩
  | .waits => { t with phase := .sleep call false }
  | .refused => { t with phase := .work (call.next (.error (.cycle call.chain))) }

/-- A compilation asks for a document. -/
def ask (t : Thread) (owner : Nat) (call : Call) (stale : Option Nat) (w : World) :
    Thread × World :=
  let (cache, entrance) := w.cache.enter owner call.path stale
  (t.meet cache call entrance, { w with cache })

/-- The next step of a compilation, if it can take one. -/
def step? (owner : Nat) : Thread → World → Option (Thread × World)
  | ⟨.work (.done _), []⟩, _ => none
  | ⟨.work (.done (.ok document)), claim :: claims⟩, w =>
    some (⟨.release claim (.ok document), claims⟩,
      { w with cache := w.cache.store owner claim.path document })
  | ⟨.work (.done (.error reason)), claim :: claims⟩, w =>
    some (⟨.release claim (.error reason), claims⟩, w)
  | ⟨.work (.read path next), claims⟩, w =>
    some (⟨.work (next (w.files.read path)), claims⟩, w)
  | ⟨.work (.number next), claims⟩, w =>
    some (⟨.work (next w.newDocument.1), claims⟩, w.newDocument.2)
  | ⟨.work (.obtain path chain compile next), claims⟩, w =>
    let call : Call := ⟨path, chain, compile, next⟩
    some (ask ⟨.work call.job, claims⟩ owner call none w)
  | ⟨.judge call document [], claims⟩, w =>
    some (⟨.work (call.next (.ok document)), claims⟩, w)
  | ⟨.judge call document (stamp :: left), claims⟩, w =>
    if stamp.isCurrent w.files then some (⟨.judge call document left, claims⟩, w)
    else some (⟨.retry call document.number, claims⟩, w)
  | ⟨.retry call stale, claims⟩, w =>
    some (ask ⟨.retry call stale, claims⟩ owner call (some stale) w)
  | ⟨.sleep _ false, _⟩, _ => none
  | ⟨.sleep call true, claims⟩, w =>
    some (ask ⟨.work call.job, claims⟩ owner call none { w with cache := w.cache.wake owner })
  | ⟨.release claim outcome, claims⟩, w =>
    some (⟨.announce (claim.next outcome), claims⟩,
      { w with cache := w.cache.release owner claim.path })
  | ⟨.announce job, claims⟩, w => some (⟨.work job, claims⟩, w)

end Thread

/-- Compilations that share a world, numbered from zero. -/
structure Pool where
  world : World
  threads : List Thread
  /-- How many have given up slots from outside and not announced it. -/
  pending : Nat

/-- A step of a compilation. -/
inductive Move
  | go (i : Nat)
  /-- A compilation that sleeps wakes up for no reason. -/
  | stir (i : Nat)

/-- A step of anybody. -/
inductive Act
  | move (m : Move)
  | invalidate (path : String)
  | clear
  /-- Somebody who has given up slots from outside announces it. -/
  | announce
  | edit (files : Files)

namespace Pool

/-- Compilations that have not begun, with an empty cache. -/
def start (files : Files) (mode : CacheMode) (jobs : List (Job Outcome)) : Pool where
  world := { World.fresh files mode with nextOwner := jobs.length }
  threads := jobs.map fun job => ⟨.work job, []⟩
  pending := 0

/-- A compilation has gone on, and has changed the world. -/
def put (s : Pool) (i : Nat) (t : Thread) (w : World) : Pool :=
  { s with world := w, threads := s.threads.set i t }

/-- All that sleep are woken up. -/
def rouse (s : Pool) : Pool := { s with threads := s.threads.map Thread.rouse }

/-- A compilation takes its next step. -/
def go? (s : Pool) (i : Nat) : Option Pool :=
  s.threads[i]?.bind fun t =>
    (t.step? i s.world).map fun (t', w) =>
      match t.phase with
      | .announce _ => (s.put i t' w).rouse
      | _ => s.put i t' w

/-- A step of a compilation, if it can take it. -/
def move? (s : Pool) : Move → Option Pool
  | .go i => s.go? i
  | .stir i => some { s with threads := s.threads.modify i Thread.rouse }

/-- A step of anybody, if it can be taken. -/
def step? (s : Pool) : Act → Option Pool
  | .move m => s.move? m
  | .invalidate path => some { s with
      world := { s.world with cache := s.world.cache.drop path }, pending := s.pending + 1 }
  | .clear => some { s with
      world := { s.world with cache := s.world.cache.clear }, pending := s.pending + 1 }
  | .announce =>
    match s.pending with
    | 0 => none
    | pending + 1 => some { s.rouse with pending }
  | .edit files => some { s with world := { s.world with files } }

/-- The pool after some steps, the first of them first; those that cannot be taken are left out. -/
def after (s : Pool) (acts : List Act) : Pool :=
  acts.foldl (fun s act => (s.step? act).getD s) s

/-- What a compilation has ended with. -/
def result? (s : Pool) (i : Nat) : Option Outcome := s.threads[i]?.bind Thread.result?

/-- Somebody will announce what has become of the slot of a path. -/
def Due (s : Pool) (path : String) : Prop :=
  0 < s.pending ∨ ∃ (i : Nat) (t : Thread), s.threads[i]? = some t ∧ t.Owes path

/-- All compilations have ended. -/
def Finished (s : Pool) : Prop := ∀ t ∈ s.threads, t.result?.isSome

end Pool

/-! ## Single steps -/

namespace Thread

variable (t : Thread)

@[simp] theorem held_rouse : t.rouse.held = t.held := by
  obtain ⟨phase, claims⟩ := t
  cases phase <;> rfl

@[simp] theorem awaits?_rouse : t.rouse.awaits? = t.awaits? := by
  obtain ⟨phase, claims⟩ := t
  cases phase <;> rfl

@[simp] theorem blocked?_rouse : t.rouse.blocked? = none := by
  obtain ⟨phase, claims⟩ := t
  cases phase <;> rfl

@[simp] theorem owes_rouse {path : String} : t.rouse.Owes path ↔ t.Owes path := by
  obtain ⟨phase, claims⟩ := t
  cases phase <;> rfl

variable {t}

theorem awaits?_of_blocked? {path : String} (h : t.blocked? = some path) :
    t.awaits? = some path := by
  obtain ⟨phase, claims⟩ := t
  match phase, h with
  | .sleep _ false, h => exact h

/-- A compilation that holds a slot has not ended. -/
theorem result?_of_mem_held {path : String} (h : path ∈ t.held) : t.result? = none := by
  match t, h with
  | ⟨.work (.done _), []⟩, h => cases h
  | ⟨.work (.done _), _ :: _⟩, _ => rfl
  | ⟨.work (.read _ _), _⟩, _ => rfl
  | ⟨.work (.number _), _⟩, _ => rfl
  | ⟨.work (.obtain _ _ _ _), _⟩, _ => rfl
  | ⟨.judge _ _ _, _⟩, _ => rfl
  | ⟨.retry _ _, _⟩, _ => rfl
  | ⟨.sleep _ _, _⟩, _ => rfl
  | ⟨.release _ _, _⟩, _ => rfl
  | ⟨.announce _, _⟩, _ => rfl

/-- A compilation can take a step unless it has ended or is blocked. -/
theorem exists_of_step?_eq_none {owner : Nat} {w : World} (h : t.step? owner w = none) :
    t.result?.isSome ∨ ∃ path, t.blocked? = some path := by
  match t, h with
  | ⟨.work (.done _), []⟩, _ => exact .inl rfl
  | ⟨.sleep call false, _⟩, _ => exact .inr ⟨call.path, rfl⟩
  | ⟨.work (.done (.ok _)), _ :: _⟩, h => cases h
  | ⟨.work (.done (.error _)), _ :: _⟩, h => cases h
  | ⟨.judge _ _ (_ :: _), _⟩, h =>
    rw [step?] at h
    split at h <;> cases h

end Thread

namespace Pool

variable {s s' : Pool} {i j : Nat} {t t' : Thread} {w : World}

theorem getElem?_put (h : s.threads[i]? = some t) (j : Nat) :
    (s.put i t' w).threads[j]? = if j = i then some t' else s.threads[j]? := by
  obtain ⟨hi, -⟩ := List.getElem?_eq_some_iff.mp h
  rw [put, List.getElem?_set]
  by_cases hj : i = j
  · subst hj
    simp [hi]
  · rw [if_neg hj, if_neg (Ne.symm hj)]

theorem put_put (t t' : Thread) (w w' : World) : (s.put i t w).put i t' w' = s.put i t' w' := by
  simp [put]

/-- What a step of a compilation makes of the pool. -/
theorem exists_of_go? (h : s.go? i = some s') :
    ∃ t t' w, s.threads[i]? = some t ∧ t.step? i s.world = some (t', w) ∧
      s' = match t.phase with
        | .announce _ => (s.put i t' w).rouse
        | _ => s.put i t' w := by
  obtain ⟨t, ht, hgo⟩ := Option.bind_eq_some_iff.mp h
  obtain ⟨⟨t', w⟩, hstep, rfl⟩ := Option.map_eq_some_iff.mp hgo
  exact ⟨t, t', w, ht, hstep, rfl⟩

/-- What every step preserves holds after all steps. -/
theorem after_induction {P : Pool → Prop} {acts : List Act} (hstart : P s)
    (hstep : ∀ act ∈ acts, ∀ s s', P s → s.step? act = some s' → P s') : P (s.after acts) := by
  induction acts generalizing s with
  | nil => exact hstart
  | cons act acts ih =>
    refine ih ?_ fun act' hact' => hstep act' (List.mem_cons_of_mem act hact')
    show P ((s.step? act).getD s)
    cases hact : s.step? act with
    | none => exact hstart
    | some s' => exact hstep act List.mem_cons_self s s' hstart hact

end Pool

end Stencil
