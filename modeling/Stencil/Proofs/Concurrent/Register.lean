import Stencil.Proofs.Compile.Register
import Stencil.Proofs.Concurrent.SingleFlight

/-! # One register for compilations at the same time

Compilations that take turns share one register: each step of one of them adds at most the document
that has just got its number, and the others can go on with what is added.  So whatever any of them
finds, makes or ends with is registered, also if slots are given up from outside in between, and
files are written.
-/
namespace Stencil

variable {P : Document → Prop} {now later : Register}

/-- The job that is left of a claim registers what it makes, whatever registered answer it goes on
with. -/
def Claim.Registers (P : Document → Prop) (claim : Claim) (now : Register) : Prop :=
  ∀ outcome later, now ≤ later → outcome.Registered later →
    (claim.next outcome).Registers P later Outcome.Registered

theorem Claim.Registers.mono {claim : Claim} (h : claim.Registers P now) (hle : now ≤ later) :
    claim.Registers P later :=
  fun outcome time htime => h outcome time (hle.trans htime)

/-- What a compilation is about to do registers what it makes.  A document that it has found is
registered and has no gaps. -/
def Phase.Registers (P : Document → Prop) (now : Register) : Phase → Prop
  | .work job | .announce job => job.Registers P now Outcome.Registered
  | .judge call document _ => call.job.Registers P now Outcome.Registered ∧
      document.Registered now ∧ document.hasGaps = false
  | .retry call _ | .sleep call _ => call.job.Registers P now Outcome.Registered
  | .release claim outcome => claim.Registers P now ∧ outcome.Registered now

theorem Phase.Registers.mono {phase : Phase} (h : phase.Registers P now) (hle : now ≤ later) :
    phase.Registers P later := by
  cases phase with
  | work job => exact Job.Registers.defer h hle
  | judge call document left => exact ⟨h.1.defer hle, h.2.1.mono hle, h.2.2⟩
  | retry call stale => exact Job.Registers.defer h hle
  | sleep call woken => exact Job.Registers.defer h hle
  | release claim outcome => exact ⟨h.1.mono hle, h.2.mono hle⟩
  | announce job => exact Job.Registers.defer h hle

/-- A compilation under way registers what it makes. -/
structure Thread.Registers (P : Document → Prop) (t : Thread) (now : Register) : Prop where
  phase : t.phase.Registers P now
  claims : ∀ claim ∈ t.claims, claim.Registers P now

namespace Thread.Registers

variable {t t' : Thread} {w w' : World} {owner : Nat}

theorem mono (h : t.Registers P now) (hle : now ≤ later) : t.Registers P later :=
  ⟨h.phase.mono hle, fun claim hclaim => (h.claims claim hclaim).mono hle⟩

theorem rouse (h : t.Registers P now) : t.rouse.Registers P now := by
  obtain ⟨phase, claims⟩ := t
  cases phase <;> exact ⟨h.phase, h.claims⟩

/-- What a compilation has ended with is registered. -/
theorem registered_of_result? (h : t.Registers P now) {document : Document}
    (hresult : t.result? = some (.ok document)) : document.Registered now := by
  match t, h, hresult with
  | ⟨.work (.done outcome), []⟩, h, hresult =>
    obtain rfl := Option.some.inj hresult
    have hdone : (Job.done (.ok document)).Registers P now Outcome.Registered := h.phase
    cases hdone with
    | done hdone => exact hdone now le_rfl document rfl

/-- A question, and what comes of it, adds nothing to the register. -/
theorem ask (call : Call) (hw : w.Registers P now)
    (hcall : call.job.Registers P now Outcome.Registered)
    (hclaims : ∀ claim ∈ t.claims, claim.Registers P now) (stale : Option Nat) :
    (t.ask owner call stale w).2.Registers P now ∧ (t.ask owner call stale w).1.Registers P now := by
  have hquestion := hcall
  unfold Call.job at hquestion
  cases hquestion with
  | obtain hcompile hnext =>
    unfold Thread.ask
    rcases w.cache.enter_cases owner call.path stale with ⟨document, hslot, henter⟩ | ⟨-, henter⟩ |
      ⟨other, -, -, henter⟩ | ⟨other, -, -, henter⟩
    · rw [henter]
      exact ⟨hw, ⟨hcall, hw.kept call.path document hslot⟩, hclaims⟩
    · rw [henter]
      exact ⟨hw.claim owner call.path, hcompile now le_rfl,
        List.forall_mem_cons.mpr ⟨fun outcome time => hnext outcome time, hclaims⟩⟩
    · rw [henter]
      exact ⟨hw, hnext _ now le_rfl (Outcome.registered_error _ now), hclaims⟩
    · rw [henter]
      exact ⟨hw.ofSlots _ rfl, hcall, hclaims⟩

/-- **Each step of a compilation adds to the register what it makes.** -/
theorem step (hw : w.Registers P now) (ht : t.Registers P now)
    (hstep : t.step? owner w = some (t', w')) :
    ∃ later, now ≤ later ∧ w'.Registers P later ∧ t'.Registers P later := by
  match t, ht, hstep with
  | ⟨.work (.done (.ok document)), claim :: claims⟩, ⟨hphase, hclaims⟩, hstep =>
    obtain ⟨rfl, rfl⟩ := Prod.mk.inj (Option.some.inj hstep)
    obtain ⟨hclaim, hclaims⟩ := List.forall_mem_cons.mp hclaims
    cases hphase with
    | done hmade =>
      have hregistered := hmade now le_rfl
      refine ⟨now, le_rfl, hw.ofKeeps rfl fun path x hx => ?_, ⟨hclaim, hregistered⟩, hclaims⟩
      have hstored : (w.cache.store owner claim.path document).slot? path = some (.ready x) := hx
      rw [Cache.slot?_store] at hstored
      split at hstored
      · rename_i hand
        obtain rfl : document = x := by simpa using hstored
        exact ⟨hregistered document rfl, hand.2.2⟩
      · exact hw.kept path x hstored
  | ⟨.work (.done (.error reason)), claim :: claims⟩, ⟨_, hclaims⟩, hstep =>
    obtain ⟨rfl, rfl⟩ := Prod.mk.inj (Option.some.inj hstep)
    obtain ⟨hclaim, hclaims⟩ := List.forall_mem_cons.mp hclaims
    exact ⟨now, le_rfl, hw, ⟨hclaim, Outcome.registered_error reason now⟩, hclaims⟩
  | ⟨.work (.read path next), claims⟩, ⟨hphase, hclaims⟩, hstep =>
    obtain ⟨rfl, rfl⟩ := Prod.mk.inj (Option.some.inj hstep)
    cases hphase with
    | read hnext => exact ⟨now, le_rfl, hw, hnext _, hclaims⟩
  | ⟨.work (.number next), claims⟩, ⟨hphase, hclaims⟩, hstep =>
    obtain ⟨rfl, rfl⟩ := Prod.mk.inj (Option.some.inj hstep)
    cases hphase with
    | number x hnumber hx hinner hnext =>
      obtain ⟨hle, hregistered, hentered⟩ := hw.enter (hnumber _) (hx w.nextDocument) (hinner _)
      exact ⟨_, hle, hentered, hnext _ _ hle hregistered,
        fun claim hclaim => (hclaims claim hclaim).mono hle⟩
  | ⟨.work (.obtain path chain compile next), claims⟩, ⟨hphase, hclaims⟩, hstep =>
    obtain ⟨rfl, rfl⟩ := Prod.mk.inj (Option.some.inj hstep)
    exact ⟨now, le_rfl, ask ⟨path, chain, compile, next⟩ hw hphase hclaims none⟩
  | ⟨.judge call document [], claims⟩, ⟨⟨hcall, hregistered, _⟩, hclaims⟩, hstep =>
    obtain ⟨rfl, rfl⟩ := Prod.mk.inj (Option.some.inj hstep)
    unfold Call.job at hcall
    cases hcall with
    | obtain _ hnext =>
      refine ⟨now, le_rfl, hw, hnext (.ok document) now le_rfl fun x hx => ?_, hclaims⟩
      obtain rfl := Except.ok.inj hx
      exact hregistered
  | ⟨.judge call document (stamp :: left), claims⟩, ⟨hphase, hclaims⟩, hstep =>
    rw [Thread.step?] at hstep
    split at hstep
    · obtain ⟨rfl, rfl⟩ := Prod.mk.inj (Option.some.inj hstep)
      exact ⟨now, le_rfl, hw, hphase, hclaims⟩
    · obtain ⟨rfl, rfl⟩ := Prod.mk.inj (Option.some.inj hstep)
      exact ⟨now, le_rfl, hw, hphase.1, hclaims⟩
  | ⟨.retry call stale, claims⟩, ⟨hphase, hclaims⟩, hstep =>
    obtain ⟨rfl, rfl⟩ := Prod.mk.inj (Option.some.inj hstep)
    exact ⟨now, le_rfl, ask call hw hphase hclaims (some stale)⟩
  | ⟨.sleep call true, claims⟩, ⟨hphase, hclaims⟩, hstep =>
    obtain ⟨rfl, rfl⟩ := Prod.mk.inj (Option.some.inj hstep)
    exact ⟨now, le_rfl, ask call (hw.ofSlots (w.cache.wake owner) rfl) hphase hclaims none⟩
  | ⟨.release claim outcome, claims⟩, ⟨⟨hclaim, houtcome⟩, hclaims⟩, hstep =>
    obtain ⟨rfl, rfl⟩ := Prod.mk.inj (Option.some.inj hstep)
    refine ⟨now, le_rfl, hw.ofKeeps rfl fun path x hx => ?_, hclaim outcome now le_rfl houtcome,
      hclaims⟩
    have hreleased : (w.cache.release owner claim.path).slot? path = some (.ready x) := hx
    rw [Cache.slot?_release] at hreleased
    split at hreleased
    · cases hreleased
    · exact hw.kept path x hreleased
  | ⟨.announce job, claims⟩, ⟨hphase, hclaims⟩, hstep =>
    obtain ⟨rfl, rfl⟩ := Prod.mk.inj (Option.some.inj hstep)
    exact ⟨now, le_rfl, hw, hphase, hclaims⟩

end Thread.Registers

namespace Pool

/-- A register that all compilations of a pool share. -/
structure Registers (P : Document → Prop) (s : Pool) (now : Register) : Prop where
  world : s.world.Registers P now
  threads : ∀ t ∈ s.threads, t.Registers P now

namespace Registers

variable {s s' : Pool} {i : Nat} {act : Act}

/-- Compilations may be woken up. -/
theorem rouse (h : s.Registers P now) : s.rouse.Registers P now := by
  refine ⟨h.world, fun t ht => ?_⟩
  obtain ⟨u, hu, rfl⟩ := List.mem_map.mp ht
  exact (h.threads u hu).rouse

/-- A step of a compilation keeps a register, which may grow. -/
theorem go (h : s.Registers P now) (hgo : s.go? i = some s') :
    ∃ later, now ≤ later ∧ s'.Registers P later := by
  obtain ⟨t, t', w, ht, hstep, rfl⟩ := exists_of_go? hgo
  obtain ⟨later, hle, hworld, hthread⟩ :=
    Thread.Registers.step h.world (h.threads t (List.mem_of_getElem? ht)) hstep
  have hput : (s.put i t' w).Registers P later := by
    refine ⟨hworld, fun u hu => ?_⟩
    rcases List.mem_or_eq_of_mem_set hu with hu | rfl
    · exact (h.threads u hu).mono hle
    · exact hthread
  refine ⟨later, hle, ?_⟩
  split
  · exact hput.rouse
  · exact hput

/-- So does every step of anybody. -/
theorem step (h : s.Registers P now) (hstep : s.step? act = some s') :
    ∃ later, now ≤ later ∧ s'.Registers P later := by
  match act, hstep with
  | .move (.go i), hstep => exact h.go hstep
  | .move (.stir i), hstep =>
    obtain rfl := Option.some.inj hstep
    refine ⟨now, le_rfl, h.world, fun t ht => ?_⟩
    obtain ⟨j, hj⟩ := List.getElem?_of_mem ht
    rw [List.getElem?_modify] at hj
    split at hj
    · obtain ⟨u, hu, rfl⟩ := Option.map_eq_some_iff.mp hj
      exact (h.threads u (List.mem_of_getElem? hu)).rouse
    · exact h.threads t (List.mem_of_getElem? (by simpa using hj))
  | .invalidate path, hstep =>
    obtain rfl := Option.some.inj hstep
    refine ⟨now, le_rfl, h.world.ofKeeps rfl fun q x hx => ?_, h.threads⟩
    have hdrop := (s.world.cache.slot?_drop path q).symm.trans hx
    split at hdrop
    · cases hdrop
    · exact h.world.kept q x hdrop
  | .clear, hstep =>
    obtain rfl := Option.some.inj hstep
    exact ⟨now, le_rfl, h.world.ofKeeps rfl fun q x hx => (by cases hx), h.threads⟩
  | .announce, hstep =>
    cases hpending : s.pending with
    | zero => simp [Pool.step?, hpending] at hstep
    | succ pending =>
      simp only [Pool.step?, hpending, Option.some.injEq] at hstep
      subst hstep
      exact ⟨now, le_rfl, h.rouse.world, h.rouse.threads⟩
  | .edit files, hstep =>
    obtain rfl := Option.some.inj hstep
    exact ⟨now, le_rfl, h.world.ofKeeps rfl h.world.kept, h.threads⟩

end Registers

/-- **Compilations that take turns share a register**, whatever they begin with, and whatever
happens in between. -/
theorem exists_registers (d : Dialect) (files : Files) (mode : CacheMode)
    (roots : List (Nat × Root)) (acts : List Act) :
    ∃ now, ((fromRoots d files mode roots).after acts).Registers d.Resolves now := by
  refine after_induction (P := fun s => ∃ now, s.Registers d.Resolves now)
    ⟨.empty, ⟨fun path x hx => (by cases hx), fun n _ => rfl, fun n x hx => (by cases hx)⟩,
      fun t ht => ?_⟩ fun act _ s s' ⟨now, h⟩ hstep => ?_
  · obtain ⟨job, hjob, rfl⟩ := List.mem_map.mp ht
    obtain ⟨⟨depth, root⟩, -, rfl⟩ := List.mem_map.mp hjob
    refine ⟨?_, fun claim hclaim => by cases hclaim⟩
    cases root with
    | file path => exact Job.registers_compileFile d depth (Path.normalize path) .empty
    | text path content =>
      exact Job.registers_compileText d depth [] (Path.normalize path) content .empty
  · obtain ⟨later, -, hlater⟩ := h.step hstep
    exact ⟨later, hlater⟩

end Pool

end Stencil
