import Stencil.Proofs.Concurrent.Pool
import Stencil.Proofs.Concurrent.Waiting

/-! # Nobody waits for ever

Compilations that share a cache never come to a point where all of them wait.  Whoever waits for a
slot will be told of it, or the slot is one that another compilation still holds; and those who wait
never form a loop.  This stays so when slots are given up from outside and claimed by others, and
when compilations wake up for no reason.
-/
namespace Stencil
open Relation (ReflTransGen TransGen)

namespace Pool

/-- What holds between the slots, the waiting and the compilations themselves. -/
structure Sound (s : Pool) : Prop where
  acyclic : s.world.cache.Acyclic
  owned : ∀ path i, s.world.cache.slot? path = some (.compiling i) →
    ∃ t, s.threads[i]? = some t ∧ path ∈ t.held
  asleep : ∀ i, s.world.cache.waiting.lookup i = s.threads[i]?.bind Thread.awaits?
  told : ∀ (i : Nat) (t : Thread) (path : String), s.threads[i]? = some t →
    t.blocked? = some path →
      (∃ other, s.world.cache.slot? path = some (.compiling other)) ∨ s.Due path

variable {s s' : Pool} {i : Nat} {t t' : Thread} {w : World} {path : String}

theorem Sound.mem_held (h : s.Sound) (ht : s.threads[i]? = some t)
    (hslot : s.world.cache.slot? path = some (.compiling i)) : path ∈ t.held := by
  obtain ⟨u, hu, hmem⟩ := h.owned path i hslot
  obtain rfl := Option.some.inj (ht.symm.trans hu)
  exact hmem

/-- Nothing changes in who waits for what if a compilation waits for what it did before. -/
theorem Sound.lookup_eq {awaits : Option String} (h : s.Sound) (ht : s.threads[i]? = some t)
    (hawaits : awaits = t.awaits?) (j : Nat) : s.world.cache.waiting.lookup j =
      if j = i then awaits else s.world.cache.waiting.lookup j := by
  by_cases hj : j = i
  · rw [if_pos hj, hj, hawaits, h.asleep, ht]
    rfl
  · rw [if_neg hj]

/-! ## Steps of compilations -/

/-- A step of one compilation keeps the pool sound, if what changes in the cache is its own. -/
theorem Sound.put (h : s.Sound) (ht : s.threads[i]? = some t) (hacyclic : w.cache.Acyclic)
    (howned : ∀ path j, w.cache.slot? path = some (.compiling j) →
      (j = i → path ∈ t'.held) ∧ (j ≠ i → s.world.cache.slot? path = some (.compiling j)))
    (hasleep : ∀ j, w.cache.waiting.lookup j =
      if j = i then t'.awaits? else s.world.cache.waiting.lookup j)
    (htold : ∀ path, (∃ other, s.world.cache.slot? path = some (.compiling other)) ∨ t.Owes path →
      (∃ other, w.cache.slot? path = some (.compiling other)) ∨ t'.Owes path)
    (hself : ∀ path, t'.blocked? = some path →
      ∃ other, w.cache.slot? path = some (.compiling other)) : (s.put i t' w).Sound where
  acyclic := hacyclic
  owned path j hslot := by
    obtain ⟨hown, hother⟩ := howned path j hslot
    rw [getElem?_put ht]
    by_cases hj : j = i
    · rw [if_pos hj]
      exact ⟨t', rfl, hown hj⟩
    · rw [if_neg hj]
      exact h.owned path j (hother hj)
  asleep j := by
    have hlookup : (s.put i t' w).world.cache.waiting.lookup j =
        if j = i then t'.awaits? else s.world.cache.waiting.lookup j := hasleep j
    rw [hlookup, getElem?_put ht]
    by_cases hj : j = i
    · rw [if_pos hj, if_pos hj]
      rfl
    · rw [if_neg hj, if_neg hj]
      exact h.asleep j
  told j u path hu hblocked := by
    rw [getElem?_put ht] at hu
    by_cases hj : j = i
    · rw [if_pos hj] at hu
      obtain rfl := Option.some.inj hu
      exact .inl (hself path hblocked)
    · rw [if_neg hj] at hu
      -- an announcement that was to come still is, or the step has put the slot in use
      have hmine : t'.Owes path → (s.put i t' w).Due path := fun howes =>
        .inr ⟨i, t', by rw [getElem?_put ht, if_pos rfl], howes⟩
      rcases h.told j u path hu hblocked with hslot | hpending | ⟨k, v, hv, howes⟩
      · exact (htold path (.inl hslot)).imp_right hmine
      · exact .inr (.inl hpending)
      · by_cases hk : k = i
        · subst hk
          obtain rfl := Option.some.inj (ht.symm.trans hv)
          exact (htold path (.inr howes)).imp_right hmine
        · exact .inr (.inr ⟨k, v, by rw [getElem?_put ht, if_neg hk, hv], howes⟩)

/-- A step that leaves the cache alone keeps the pool sound. -/
theorem Sound.quiet (h : s.Sound) (ht : s.threads[i]? = some t) (hcache : w.cache = s.world.cache)
    (hheld : t'.held = t.held) (hawaits : t'.awaits? = t.awaits?)
    (howes : ∀ path, t.Owes path → t'.Owes path) (hblocked : t'.blocked? = none) :
    (s.put i t' w).Sound := by
  refine h.put ht (hcache ▸ h.acyclic) (fun path j hslot => ?_) (fun j => ?_) (fun path htold => ?_)
    fun path hpath => ?_
  · rw [hcache] at hslot
    refine ⟨?_, fun _ => hslot⟩
    rintro rfl
    rw [hheld]
    exact h.mem_held ht hslot
  · rw [hcache]
    exact h.lookup_eq ht hawaits j
  · rw [hcache]
    exact htold.imp_right (howes path)
  · rw [hblocked] at hpath
    cases hpath

/-- Asking keeps the pool sound. -/
theorem Sound.ask (h : s.Sound) (ht : s.threads[i]? = some t) (hawaits : t.awaits? = none)
    (hheld : t.held = t.claims.map Claim.path) (howes : ∀ path, ¬ t.Owes path) (call : Call)
    (stale : Option Nat) :
    (s.put i (t.ask i call stale s.world).1 (t.ask i call stale s.world).2).Sound := by
  have hfree : s.world.cache.waiting.lookup i = none := by
    rw [h.asleep, ht]
    exact hawaits
  have hacyclic := h.acyclic.enter hfree call.path stale
  unfold Thread.ask
  rcases s.world.cache.enter_cases i call.path stale with ⟨document, -, henter⟩ | ⟨hslot, henter⟩ |
    ⟨other, -, -, henter⟩ | ⟨other, hslot, -, henter⟩
  · rw [henter]
    exact h.quiet ht rfl hheld.symm hawaits.symm (fun path hp => absurd hp (howes path)) rfl
  · -- the slot is claimed; nobody was told to wait for another owner of it
    rw [henter] at hacyclic ⊢
    refine h.put ht hacyclic (fun path j hj => ?_) (fun j => ?_) (fun path htold => ?_)
      fun path hpath => by cases hpath
    · rw [Cache.slot?_fill] at hj
      split at hj
      · rename_i hpath
        obtain rfl : i = j := by simpa using hj
        exact ⟨fun _ => by simp [Thread.meet, Thread.held, hpath], fun hne => absurd rfl hne⟩
      · refine ⟨?_, fun _ => hj⟩
        rintro rfl
        have hmem := h.mem_held ht hj
        rw [hheld] at hmem
        exact List.mem_cons_of_mem _ hmem
    · rw [Cache.waiting_fill]
      exact h.lookup_eq ht hawaits.symm j
    · rcases htold with ⟨other, hother⟩ | hp
      · refine .inl ⟨other, ?_⟩
        have hne : path ≠ call.path := fun hpath => hslot other (hpath ▸ hother)
        rw [Cache.slot?_fill, if_neg hne, hother]
      · exact absurd hp (howes path)
  · rw [henter]
    exact h.quiet ht rfl hheld.symm hawaits.symm (fun path hp => absurd hp (howes path)) rfl
  · rw [henter] at hacyclic ⊢
    refine h.put ht hacyclic (fun path j hj => ⟨?_, fun _ => hj⟩) (fun j => ?_)
      (fun path htold => ?_) fun path hpath => ?_
    · rintro rfl
      have hmem := h.mem_held ht hj
      rwa [hheld] at hmem
    · rw [List.lookup_cons]
      by_cases hj : j = i
      · rw [if_pos hj, hj, beq_self_eq_true]
        rfl
      · rw [if_neg hj, beq_false_of_ne hj]
    · exact htold.imp_right fun hp => absurd hp (howes path)
    · obtain rfl := Option.some.inj hpath
      exact ⟨other, hslot⟩

/-- To stop waiting keeps the pool sound. -/
theorem Sound.wake {call : Call} {claims : List Claim} (h : s.Sound)
    (ht : s.threads[i]? = some ⟨.sleep call true, claims⟩) :
    (s.put i ⟨.work call.job, claims⟩
      { s.world with cache := s.world.cache.wake i }).Sound := by
  have hlookup : ∀ j, (s.world.cache.wake i).waiting.lookup j =
      if j = i then none else s.world.cache.waiting.lookup j := fun j => by
    rw [Cache.wake, lookup_filter_ne]
    simp only [beq_iff_eq]
  refine h.put ht (h.acyclic.of_slots (fun a path ha => ?_) fun path other hother => hother)
    (fun path j hj => ⟨?_, fun _ => hj⟩) hlookup (fun path htold => htold.imp_right fun hp => ?_)
    fun path hpath => by cases hpath
  · rw [hlookup] at ha
    split at ha
    · cases ha
    · exact ha
  · rintro rfl
    have hmem := h.mem_held ht hj
    exact hmem
  · exact hp

/-- Storing a document keeps the pool sound. -/
theorem Sound.store {claim : Claim} {claims : List Claim} {document : Document} {job : Job Outcome}
    (h : s.Sound) (ht : s.threads[i]? = some ⟨.work job, claim :: claims⟩) :
    (s.put i ⟨.release claim (.ok document), claims⟩
      { s.world with cache := s.world.cache.store i claim.path document }).Sound := by
  have hkept : ∀ path other,
      (s.world.cache.store i claim.path document).slot? path = some (.compiling other) →
        s.world.cache.slot? path = some (.compiling other) := by
    intro path other hslot
    rw [Cache.slot?_store] at hslot
    split at hslot
    · cases hslot
    · exact hslot
  have hlookup (j : Nat) : (s.world.cache.store i claim.path document).waiting.lookup j =
      s.world.cache.waiting.lookup j := by rw [Cache.waiting_store]
  refine h.put ht (h.acyclic.of_slots (fun a path ha => (hlookup a).symm.trans ha) hkept)
    (fun path j hj => ⟨?_, fun _ => hkept path j hj⟩)
    (fun j => (hlookup j).trans (h.lookup_eq ht rfl j)) (fun path htold => ?_)
    fun path hpath => by cases hpath
  · rintro rfl
    have hmem := h.mem_held ht (hkept path j hj)
    exact hmem
  · -- only the slot of the claim can be lost, and for that there will be an announcement
    rcases htold with ⟨other, hother⟩ | hp
    · by_cases hpath : path = claim.path
      · exact .inr hpath.symm
      · refine .inl ⟨other, ?_⟩
        rw [Cache.slot?_store, if_neg fun hand => hpath hand.1, hother]
    · exact absurd hp id

/-- Giving up a slot keeps the pool sound. -/
theorem Sound.release {claim : Claim} {claims : List Claim} {outcome : Outcome} (h : s.Sound)
    (ht : s.threads[i]? = some ⟨.release claim outcome, claims⟩) :
    (s.put i ⟨.announce (claim.next outcome), claims⟩
      { s.world with cache := s.world.cache.release i claim.path }).Sound := by
  have hkept : ∀ path other,
      (s.world.cache.release i claim.path).slot? path = some (.compiling other) →
        s.world.cache.slot? path = some (.compiling other) ∧ ¬ (other = i ∧ path = claim.path) := by
    intro path other hslot
    rw [Cache.slot?_release] at hslot
    split at hslot
    · cases hslot
    · rename_i hnot
      refine ⟨hslot, ?_⟩
      rintro ⟨rfl, rfl⟩
      exact hnot ⟨rfl, Cache.isOwned_iff.mpr hslot⟩
  have hlookup (j : Nat) : (s.world.cache.release i claim.path).waiting.lookup j =
      s.world.cache.waiting.lookup j := by rw [Cache.waiting_release]
  refine h.put ht (h.acyclic.of_slots (fun a path ha => (hlookup a).symm.trans ha)
      fun path other hslot => (hkept path other hslot).1)
    (fun path j hj => ⟨?_, fun _ => (hkept path j hj).1⟩)
    (fun j => (hlookup j).trans (h.lookup_eq ht rfl j)) (fun path _ => .inr trivial)
    fun path hpath => by cases hpath
  rintro rfl
  obtain ⟨hslot, hnot⟩ := hkept path j hj
  exact (List.mem_cons.mp (h.mem_held ht hslot)).resolve_left fun hpath => hnot ⟨rfl, hpath⟩

/-- Waking up all that sleep keeps the pool sound, even if nobody owes an announcement then. -/
theorem Sound.rouse (hacyclic : s.world.cache.Acyclic)
    (howned : ∀ path i, s.world.cache.slot? path = some (.compiling i) →
      ∃ t, s.threads[i]? = some t ∧ path ∈ t.held)
    (hasleep : ∀ i, s.world.cache.waiting.lookup i = s.threads[i]?.bind Thread.awaits?)
    (pending : Nat) : Sound { s.rouse with pending } where
  acyclic := hacyclic
  owned path i hslot := by
    obtain ⟨t, ht, hmem⟩ := howned path i hslot
    exact ⟨t.rouse, by simp [Pool.rouse, ht], by rwa [Thread.held_rouse]⟩
  asleep i := by
    refine (hasleep i).trans ?_
    cases hi : s.threads[i]? <;> simp [Pool.rouse, hi]
  told i t path ht hblocked := by
    obtain ⟨u, -, rfl⟩ := Option.map_eq_some_iff.mp ((List.getElem?_map ..).symm.trans ht)
    simp at hblocked

/-- A step of a compilation keeps the pool sound. -/
theorem Sound.go (h : s.Sound) (hgo : s.go? i = some s') : s'.Sound := by
  obtain ⟨t, t', w, ht, hstep, rfl⟩ := exists_of_go? hgo
  match t, ht, hstep with
  | ⟨.work (.done (.ok document)), claim :: claims⟩, ht, hstep =>
    obtain ⟨rfl, rfl⟩ := Prod.mk.inj (Option.some.inj hstep)
    exact h.store ht
  | ⟨.work (.done (.error reason)), claim :: claims⟩, ht, hstep =>
    obtain ⟨rfl, rfl⟩ := Prod.mk.inj (Option.some.inj hstep)
    exact h.quiet ht rfl rfl rfl (fun _ hp => hp.elim) rfl
  | ⟨.work (.read path next), claims⟩, ht, hstep =>
    obtain ⟨rfl, rfl⟩ := Prod.mk.inj (Option.some.inj hstep)
    exact h.quiet ht rfl rfl rfl (fun _ hp => hp.elim) rfl
  | ⟨.work (.number next), claims⟩, ht, hstep =>
    obtain ⟨rfl, rfl⟩ := Prod.mk.inj (Option.some.inj hstep)
    exact h.quiet ht rfl rfl rfl (fun _ hp => hp.elim) rfl
  | ⟨.work (.obtain path chain compile next), claims⟩, ht, hstep =>
    obtain ⟨rfl, rfl⟩ := Prod.mk.inj (Option.some.inj hstep)
    exact h.ask ht rfl rfl (fun _ hp => hp) ⟨path, chain, compile, next⟩ none
  | ⟨.judge call document [], claims⟩, ht, hstep =>
    obtain ⟨rfl, rfl⟩ := Prod.mk.inj (Option.some.inj hstep)
    exact h.quiet ht rfl rfl rfl (fun _ hp => hp.elim) rfl
  | ⟨.judge call document (stamp :: left), claims⟩, ht, hstep =>
    rw [Thread.step?] at hstep
    split at hstep
    · obtain ⟨rfl, rfl⟩ := Prod.mk.inj (Option.some.inj hstep)
      exact h.quiet ht rfl rfl rfl (fun _ hp => hp.elim) rfl
    · obtain ⟨rfl, rfl⟩ := Prod.mk.inj (Option.some.inj hstep)
      exact h.quiet ht rfl rfl rfl (fun _ hp => hp.elim) rfl
  | ⟨.retry call stale, claims⟩, ht, hstep =>
    obtain ⟨rfl, rfl⟩ := Prod.mk.inj (Option.some.inj hstep)
    exact h.ask ht rfl rfl (fun _ hp => hp) call (some stale)
  | ⟨.sleep call true, claims⟩, ht, hstep =>
    obtain ⟨rfl, rfl⟩ := Prod.mk.inj (Option.some.inj hstep)
    -- it stops waiting and asks again while it holds the lock; each of the two is sound by itself
    have hwake := h.wake ht
    have hask := hwake.ask (t := ⟨.work call.job, claims⟩) (by rw [getElem?_put ht, if_pos rfl])
      rfl rfl (fun _ hp => hp) call none
    rwa [put_put] at hask
  | ⟨.release claim outcome, claims⟩, ht, hstep =>
    obtain ⟨rfl, rfl⟩ := Prod.mk.inj (Option.some.inj hstep)
    exact h.release ht
  | ⟨.announce job, claims⟩, ht, hstep =>
    obtain ⟨rfl, rfl⟩ := Prod.mk.inj (Option.some.inj hstep)
    refine Sound.rouse (s := s.put i ⟨.work job, claims⟩ s.world) h.acyclic
      (fun path j hslot => ?_) (fun j => ?_) s.pending
    · obtain ⟨u, hu, hmem⟩ := h.owned path j hslot
      rw [getElem?_put ht]
      by_cases hj : j = i
      · subst hj
        have hmem := h.mem_held ht hslot
        exact ⟨_, if_pos rfl, hmem⟩
      · exact ⟨u, by rw [if_neg hj, hu], hmem⟩
    · refine (h.asleep j).trans ?_
      rw [getElem?_put ht]
      by_cases hj : j = i
      · rw [if_pos hj, hj, ht]
        rfl
      · rw [if_neg hj]

/-! ## Steps of others -/

/-- A compilation may wake up for no reason. -/
theorem Sound.stir (h : s.Sound) (i : Nat) :
    Sound { s with threads := s.threads.modify i Thread.rouse } := by
  have hget : ∀ j, (s.threads.modify i Thread.rouse)[j]? =
      s.threads[j]?.map fun t => if i = j then t.rouse else t := fun j => by
    rw [List.getElem?_modify]
    split <;> simp
  refine ⟨h.acyclic, fun path j hslot => ?_, fun j => ?_, fun j t path ht hblocked => ?_⟩
  · obtain ⟨t, ht, hmem⟩ := h.owned path j hslot
    refine ⟨_, by rw [hget, ht]; rfl, ?_⟩
    split
    · rwa [Thread.held_rouse]
    · exact hmem
  · rw [h.asleep, hget]
    cases s.threads[j]? with
    | none => rfl
    | some t =>
      simp only [Option.map_some, Option.bind_some]
      split
      · rw [Thread.awaits?_rouse]
      · rfl
  · obtain ⟨u, hu, rfl⟩ := Option.map_eq_some_iff.mp ((hget j).symm.trans ht)
    split at hblocked
    · simp at hblocked
    · refine (h.told j u path hu hblocked).imp_right fun hdue => hdue.imp_right ?_
      rintro ⟨k, v, hv, howes⟩
      refine ⟨k, _, by rw [hget, hv]; rfl, ?_⟩
      split
      · rwa [Thread.owes_rouse]
      · exact howes

/-- Slots may be given up from outside, if this will be announced. -/
theorem Sound.giveUp (h : s.Sound) {cache : Cache}
    (hwaiting : cache.waiting = s.world.cache.waiting)
    (hslot : ∀ path slot, cache.slot? path = some slot → s.world.cache.slot? path = some slot) :
    Sound { s with world := { s.world with cache }, pending := s.pending + 1 } where
  acyclic := h.acyclic.of_slots (fun a path ha => by rwa [hwaiting] at ha)
    fun path other hother => hslot path _ hother
  owned path j hj := h.owned path j (hslot path _ hj)
  asleep j := by
    rw [← h.asleep, ← hwaiting]
  told _ _ _ _ _ := .inr (.inl (Nat.succ_pos _))

/-- Every step keeps the pool sound. -/
theorem Sound.step {act : Act} (h : s.Sound) (hstep : s.step? act = some s') : s'.Sound := by
  match act, hstep with
  | .move (.go i), hstep => exact h.go hstep
  | .move (.stir i), hstep =>
    obtain rfl := Option.some.inj hstep
    exact h.stir i
  | .invalidate path, hstep =>
    obtain rfl := Option.some.inj hstep
    refine h.giveUp rfl fun q slot hslot => ?_
    rw [Cache.slot?_drop] at hslot
    split at hslot
    · cases hslot
    · exact hslot
  | .clear, hstep =>
    obtain rfl := Option.some.inj hstep
    exact h.giveUp rfl fun q slot hslot => by cases hslot
  | .announce, hstep =>
    cases hpending : s.pending with
    | zero => simp [Pool.step?, hpending] at hstep
    | succ pending =>
      simp only [Pool.step?, hpending, Option.some.injEq] at hstep
      subst hstep
      exact Sound.rouse h.acyclic h.owned h.asleep pending
  | .edit files, hstep =>
    obtain rfl := Option.some.inj hstep
    exact ⟨h.acyclic, h.owned, h.asleep, h.told⟩

theorem sound_start (files : Files) (mode : CacheMode) (jobs : List (Job Outcome)) :
    (start files mode jobs).Sound where
  acyclic a hcycle := by
    obtain ⟨b, hstep, -⟩ := TransGen.head'_iff.mp hcycle
    cases hstep
  owned path i hslot := by cases hslot
  asleep i := by
    rw [start, List.getElem?_map]
    cases jobs[i]? <;> rfl
  told i t path ht hblocked := by
    obtain ⟨job, -, rfl⟩ := Option.map_eq_some_iff.mp ((List.getElem?_map ..).symm.trans ht)
    cases hblocked

/-- **The pool is sound after any steps of anybody.** -/
theorem sound_after (files : Files) (mode : CacheMode) (jobs : List (Job Outcome))
    (acts : List Act) : ((start files mode jobs).after acts).Sound :=
  after_induction (sound_start files mode jobs) fun _ _ _ _ h hstep => h.step hstep

/-! ## Progress -/

/-- Who is blocked and will not be told waits for a slot that another compilation holds. -/
theorem Sound.exists_owner (h : s.Sound) (ht : s.threads[i]? = some t)
    (hblocked : t.blocked? = some path) (hdue : ¬ s.Due path) :
    ∃ other t', s.world.cache.slot? path = some (.compiling other) ∧
      s.world.cache.WaitsFor i other ∧ other ≠ i ∧ s.threads[other]? = some t' ∧
      t'.result? = none := by
  obtain ⟨other, hslot⟩ := (h.told i t path ht hblocked).resolve_right hdue
  obtain ⟨t', ht', hmem⟩ := h.owned path other hslot
  have hlookup : s.world.cache.waiting.lookup i = some path := by
    rw [h.asleep, ht]
    exact Thread.awaits?_of_blocked? hblocked
  have hwaits : s.world.cache.WaitsFor i other := Cache.waitsFor_iff.mpr ⟨path, hlookup, hslot⟩
  refine ⟨other, t', hslot, hwaits, ?_, ht', Thread.result?_of_mem_held hmem⟩
  rintro rfl
  exact h.acyclic other (.single hwaits)

/-- **As long as a compilation has not ended, some compilation can go on, or an announcement is to
be made.** -/
theorem Sound.exists_step (h : s.Sound) (hunfinished : ¬ s.Finished) :
    (∃ i, (s.step? (.move (.go i))).isSome) ∨ (s.step? .announce).isSome := by
  by_contra hnone
  push Not at hnone
  obtain ⟨hgo, hannounce⟩ := hnone
  have hstuck : ∀ (i : Nat) (t : Thread), s.threads[i]? = some t →
      t.step? i s.world = none := by
    intro i t ht
    by_contra hstep
    obtain ⟨next, hnext⟩ := Option.ne_none_iff_exists'.mp hstep
    refine hgo i ?_
    simp [step?, move?, go?, ht, hnext]
  -- nobody owes an announcement
  have hdue : ∀ path, ¬ s.Due path := by
    rintro path (hpending | ⟨i, t, ht, howes⟩)
    · obtain ⟨pending, hpending⟩ := Nat.exists_eq_add_one_of_ne_zero (Nat.ne_of_gt hpending)
      refine hannounce ?_
      simp [step?, hpending]
    · have hnext := hstuck i t ht
      match t, howes, hnext with
      | ⟨.release _ _, _⟩, _, hnext => cases hnext
      | ⟨.announce _, _⟩, _, hnext => cases hnext
  -- so the blocked lead from one to the next, and never to an end
  have hblocked : ∀ (i : Nat) (t : Thread), s.threads[i]? = some t → t.result? = none →
      ∃ path, t.blocked? = some path := by
    intro i t ht hresult
    rcases Thread.exists_of_step?_eq_none (hstuck i t ht) with hended | hblocked
    · simp [hresult] at hended
    · exact hblocked
  have hnext : ∀ (i : Nat) (t : Thread), s.threads[i]? = some t → t.result? = none →
      ∃ other t', s.world.cache.WaitsFor i other ∧ s.threads[other]? = some t' ∧
        t'.result? = none := by
    intro i t ht hresult
    obtain ⟨path, hpath⟩ := hblocked i t ht hresult
    obtain ⟨other, t', -, hwaits, -, ht', hresult'⟩ := h.exists_owner ht hpath (hdue path)
    exact ⟨other, t', hwaits, ht', hresult'⟩
  unfold Finished at hunfinished
  push Not at hunfinished
  obtain ⟨t, hmem, hresult⟩ := hunfinished
  obtain ⟨i, ht⟩ := List.getElem?_of_mem hmem
  obtain ⟨last, hreach, hfree⟩ := h.acyclic.exists_free i
  have hlast : ∃ t, s.threads[last]? = some t ∧ t.result? = none := by
    clear hfree
    induction hreach with
    | refl => exact ⟨t, ht, by simpa using hresult⟩
    | tail _ hstep ih =>
      obtain ⟨u, hu, hresult⟩ := ih
      obtain ⟨other, t', hwaits, hfound⟩ := hnext _ u hu hresult
      obtain rfl := Option.some.inj (hwaits.symm.trans hstep)
      exact ⟨t', hfound⟩
  obtain ⟨t, ht, hresult⟩ := hlast
  obtain ⟨other, -, hwaits, -⟩ := hnext last t ht hresult
  rw [Cache.WaitsFor, hfree] at hwaits
  cases hwaits

/-- When all have ended, no slot is in use and nobody is waited for. -/
theorem Sound.clean_of_finished (h : s.Sound) (hfinished : s.Finished) :
    (∀ path i, s.world.cache.slot? path ≠ some (.compiling i)) ∧ s.world.cache.waiting = [] := by
  constructor
  · intro path i hslot
    obtain ⟨t, ht, hmem⟩ := h.owned path i hslot
    have hended := hfinished t (List.mem_of_getElem? ht)
    simp [Thread.result?_of_mem_held hmem] at hended
  · cases hwaiting : s.world.cache.waiting with
    | nil => rfl
    | cons entry entries =>
      obtain ⟨i, path⟩ := entry
      have hasleep := h.asleep i
      rw [hwaiting, List.lookup_cons, beq_self_eq_true] at hasleep
      obtain ⟨t, ht, hawaits⟩ := Option.bind_eq_some_iff.mp hasleep.symm
      have hended := hfinished t (List.mem_of_getElem? ht)
      match t, hended, hawaits with
      | ⟨.sleep _ _, _⟩, hended, _ => cases hended

/-- **The cache never brings compilations to a standstill**, whatever jobs they carry out, in which
order they take their steps, and what others do in between.  Following those who are waited for
never leads back, so that the check whether a compilation would wait for itself ends, and with the
right answer.  A slot in use is one that its owner has claimed and not given up.  As long as a
compilation has not ended, some compilation can go on or an announcement is to be made, and whoever
is blocked without an announcement to come waits for a slot of another compilation that has not
ended.  When all have ended, no slot is in use and nobody waits. -/
theorem never_stuck (files : Files) (mode : CacheMode) (jobs : List (Job Outcome))
    (acts : List Act) :
    let s := (start files mode jobs).after acts
    let c := s.world.cache
    (c.Acyclic ∧ ∀ waiter owner, c.Walks waiter owner (c.closesLoop waiter owner)) ∧
    (∀ path i, c.slot? path = some (.compiling i) → ∃ t, s.threads[i]? = some t ∧ path ∈ t.held) ∧
    (¬ s.Finished → (∃ i, (s.step? (.move (.go i))).isSome) ∨ (s.step? .announce).isSome) ∧
    (∀ (i : Nat) (t : Thread) (path : String), s.threads[i]? = some t →
      t.blocked? = some path → ¬ s.Due path →
      ∃ other t', c.slot? path = some (.compiling other) ∧ other ≠ i ∧
        s.threads[other]? = some t' ∧ t'.result? = none) ∧
    (s.Finished → (∀ path i, c.slot? path ≠ some (.compiling i)) ∧ c.waiting = []) := by
  intro s c
  have h : s.Sound := sound_after files mode jobs acts
  refine ⟨⟨h.acyclic, h.acyclic.walks⟩, h.owned, h.exists_step, ?_, h.clean_of_finished⟩
  intro i t path ht hblocked hdue
  obtain ⟨other, t', hslot, -, hne, ht', hresult⟩ := h.exists_owner ht hblocked hdue
  exact ⟨other, t', hslot, hne, ht', hresult⟩

/-- Two compilations have each claimed the slot that the other one asks for: the first one to ask
waits, and the second one is refused. -/
example :
    let across (p q : String) : Job Outcome :=
      .obtain p [p] (.obtain q [p, q] (.done (.error (.cycle []))) .done) .done
    let s := (start .empty .session [across "a" "b", across "b" "a"]).after
      ([.go 0, .go 1, .go 0, .go 1, .go 1, .go 1, .go 1].map .move)
    s.result? 0 = none ∧ s.result? 1 = some (.error (.cycle ["b", "a"])) := ⟨rfl, rfl⟩

end Pool

end Stencil
