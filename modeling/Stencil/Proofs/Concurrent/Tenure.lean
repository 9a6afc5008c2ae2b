import Mathlib.Data.List.Infix
import Stencil.Proofs.Concurrent.Pool
import Stencil.Proofs.Concurrent.Waiting

/-! # What a claim does when it ends

A compilation that has made the document of a slot looks again whether the slot is its own before it
stores the document, and once more before it gives up the slot.  It compares numbers of
compilations only.  In between, the slot may have been given up from outside, and then claimed and
filled by others, or by the same compilation once more, which may meet the path again on its way.

The comparison is enough all the same.  Here a step of a run is told apart by the steps `before` it,
and what has come since by the steps `during` which the claim was held.  While a slot is its own, a
compilation cannot claim it again: it would wait for itself.  So a slot that is its own at the end
has been its own since the claim that ends, and nobody has given up, claimed or filled it.
-/
namespace Stencil

/-! ## The claims of a compilation -/

namespace Thread

/-- The slots that a compilation has claimed and not given up, the innermost first. -/
def stack (t : Thread) : List Claim :=
  match t.phase with
  | .release claim _ => claim :: t.claims
  | _ => t.claims

@[simp] theorem stack_rouse (t : Thread) : t.rouse.stack = t.stack := by
  obtain ⟨phase, claims⟩ := t
  cases phase <;> rfl

/-- What a step of a compilation can do to the slots of the cache, and to its own claims. -/
inductive Change (owner : Nat) (c : Cache) (t t' : Thread) (c' : Cache) : Prop
  /-- It leaves both alone. -/
  | quiet (hslots : ∀ path, c'.slot? path = c.slot? path) (hstack : t'.stack = t.stack)
  /-- It claims a slot on which nobody is at work. -/
  | claims (claim : Claim) (hfree : ∀ other, c.slot? claim.path ≠ some (.compiling other))
    (hslots : ∀ path, c'.slot? path =
      if path = claim.path then some (.compiling owner) else c.slot? path)
    (hstack : t'.stack = claim :: t.stack)
  /-- It stores the document that it has made for its innermost claim. -/
  | stores (claim : Claim) (rest : List Claim) (document : Document)
    (ht : t = ⟨.work (.done (.ok document)), claim :: rest⟩)
    (hcache : c' = c.store owner claim.path document) (hstack : t'.stack = t.stack)
  /-- It gives up the slot of its innermost claim. -/
  | releases (claim : Claim) (rest : List Claim) (outcome : Outcome)
    (ht : t = ⟨.release claim outcome, rest⟩)
    (hcache : c' = c.release owner claim.path) (hstack : t'.stack = rest)

variable {owner : Nat} {w w' : World} {t t' : Thread}

/-- Asking claims a slot or changes none.  What asks is `u`, which has the claims of `t` and
may have stopped waiting since. -/
theorem change_of_ask {u : Thread} {c : Cache} (hclaims : u.claims = t.stack)
    (hsame : ∀ path, w.cache.slot? path = c.slot? path) (call : Call) (stale : Option Nat) :
    Change owner c t (u.ask owner call stale w).1 (u.ask owner call stale w).2.cache := by
  unfold ask
  rcases w.cache.enter_cases owner call.path stale with ⟨document, -, henter⟩ | ⟨hfree, henter⟩ |
    ⟨other, -, -, henter⟩ | ⟨other, -, -, henter⟩
  · rw [henter]
    exact .quiet hsame hclaims
  · rw [henter]
    refine .claims ⟨call.path, call.next⟩ (fun other => ?_) (fun path => ?_)
      (congrArg (_ :: ·) hclaims)
    · rw [← hsame]
      exact hfree other
    · rw [← hsame]
      exact w.cache.slot?_fill ..
  · rw [henter]
    exact .quiet hsame hclaims
  · rw [henter]
    exact .quiet hsame hclaims

/-- What a step can do, said once for all steps. -/
theorem change_of_step? (h : t.step? owner w = some (t', w')) :
    Change owner w.cache t t' w'.cache := by
  match t, h with
  | ⟨.work (.done (.ok document)), claim :: rest⟩, h =>
    obtain ⟨rfl, rfl⟩ := Prod.mk.inj (Option.some.inj h)
    exact .stores claim rest document rfl rfl rfl
  | ⟨.work (.done (.error reason)), claim :: rest⟩, h =>
    obtain ⟨rfl, rfl⟩ := Prod.mk.inj (Option.some.inj h)
    exact .quiet (fun _ => rfl) rfl
  | ⟨.work (.read path next), claims⟩, h =>
    obtain ⟨rfl, rfl⟩ := Prod.mk.inj (Option.some.inj h)
    exact .quiet (fun _ => rfl) rfl
  | ⟨.work (.number next), claims⟩, h =>
    obtain ⟨rfl, rfl⟩ := Prod.mk.inj (Option.some.inj h)
    exact .quiet (fun _ => rfl) rfl
  | ⟨.work (.obtain path chain compile next), claims⟩, h =>
    obtain ⟨rfl, rfl⟩ := Prod.mk.inj (Option.some.inj h)
    exact change_of_ask rfl (fun _ => rfl) ⟨path, chain, compile, next⟩ none
  | ⟨.judge call document [], claims⟩, h =>
    obtain ⟨rfl, rfl⟩ := Prod.mk.inj (Option.some.inj h)
    exact .quiet (fun _ => rfl) rfl
  | ⟨.judge call document (stamp :: left), claims⟩, h =>
    rw [step?] at h
    split at h
    · obtain ⟨rfl, rfl⟩ := Prod.mk.inj (Option.some.inj h)
      exact .quiet (fun _ => rfl) rfl
    · obtain ⟨rfl, rfl⟩ := Prod.mk.inj (Option.some.inj h)
      exact .quiet (fun _ => rfl) rfl
  | ⟨.retry call stale, claims⟩, h =>
    obtain ⟨rfl, rfl⟩ := Prod.mk.inj (Option.some.inj h)
    exact change_of_ask rfl (fun _ => rfl) call (some stale)
  | ⟨.sleep call true, claims⟩, h =>
    obtain ⟨rfl, rfl⟩ := Prod.mk.inj (Option.some.inj h)
    exact change_of_ask (t := ⟨.sleep call true, claims⟩) (u := ⟨.work call.job, claims⟩)
      (w := { w with cache := w.cache.wake owner }) (c := w.cache) rfl (fun _ => rfl) call none
  | ⟨.release claim outcome, rest⟩, h =>
    obtain ⟨rfl, rfl⟩ := Prod.mk.inj (Option.some.inj h)
    exact .releases claim rest outcome rfl rfl rfl
  | ⟨.announce job, claims⟩, h =>
    obtain ⟨rfl, rfl⟩ := Prod.mk.inj (Option.some.inj h)
    exact .quiet (fun _ => rfl) rfl

end Thread

/-- The innermost of some claims that is for a path, and those below it. -/
def innermost? (path : String) : List Claim → Option (Claim × List Claim)
  | [] => none
  | claim :: rest => if claim.path = path then some (claim, rest) else innermost? path rest

theorem suffix_of_innermost? {path : String} {claim : Claim} {rest claims : List Claim}
    (h : innermost? path claims = some (claim, rest)) : claim :: rest <:+ claims := by
  induction claims with
  | nil => cases h
  | cons first claims ih =>
    rw [innermost?] at h
    split at h
    · obtain ⟨rfl, rfl⟩ := Prod.mk.inj (Option.some.inj h)
      exact List.suffix_refl _
    · exact (ih h).trans (List.suffix_cons ..)

namespace Pool

/-- The slot of a path. -/
def slot? (s : Pool) (path : String) : Option Slot := s.world.cache.slot? path

/-- The slots that a compilation has claimed and not given up, the innermost first. -/
def stack (s : Pool) (i : Nat) : List Claim := (s.threads[i]?.map Thread.stack).getD []

/-- A compilation is done with the job of its innermost claim, and its next step belongs to the end
of that claim. -/
def Ends (s : Pool) (i : Nat) (claim : Claim) (rest : List Claim) : Prop :=
  ∃ outcome, s.threads[i]? = some ⟨.work (.done outcome), claim :: rest⟩ ∨
    s.threads[i]? = some ⟨.release claim outcome, rest⟩

/-- A compilation goes on and claims a slot. -/
def Claims (s : Pool) (i : Nat) (claim : Claim) (rest : List Claim) : Prop :=
  s.stack i = rest ∧ (s.after [.move (.go i)]).stack i = claim :: rest

variable {s s' : Pool} {i j : Nat} {t t' : Thread} {w : World} {claim : Claim} {rest : List Claim}
  {path : String} {act : Act}

theorem stack_of_getElem? (h : s.threads[i]? = some t) : s.stack i = t.stack := by
  rw [stack, h]
  rfl

@[simp] theorem stack_rouse (s : Pool) (i : Nat) : s.rouse.stack i = s.stack i := by
  rw [stack, stack, rouse, List.getElem?_map]
  cases s.threads[i]? <;> simp

theorem stack_put (h : s.threads[i]? = some t) (j : Nat) :
    (s.put i t' w).stack j = if j = i then t'.stack else s.stack j := by
  rw [stack, getElem?_put h]
  by_cases hj : j = i
  · rw [if_pos hj, if_pos hj]
    rfl
  · rw [if_neg hj, if_neg hj]
    rfl

theorem Ends.stack_eq (h : s.Ends i claim rest) : s.stack i = claim :: rest := by
  obtain ⟨outcome, ht | ht⟩ := h
  · exact stack_of_getElem? ht
  · exact stack_of_getElem? ht

/-- What a step of a compilation does to the slots and to the claims of all. -/
theorem change_of_go? (h : s.go? i = some s') :
    ∃ t t', s.threads[i]? = some t ∧ t.Change i s.world.cache t' s'.world.cache ∧
      ∀ j, s'.stack j = if j = i then t'.stack else s.stack j := by
  obtain ⟨t, t', w, ht, hstep, rfl⟩ := exists_of_go? h
  have hchange := Thread.change_of_step? hstep
  refine ⟨t, t', ht, ?_, fun j => ?_⟩
  · split <;> exact hchange
  · split
    · rw [stack_rouse, stack_put ht]
    · rw [stack_put ht]

/-- A step of anybody else leaves the claims alone, and can only give up slots from outside. -/
theorem quiet_of_step? (h : s.step? act = some s') (hact : ∀ i, act ≠ .move (.go i)) :
    (∀ j, s'.stack j = s.stack j) ∧ ∀ path, s'.slot? path = s.slot? path ∨
      s'.slot? path = none ∧ (act = .invalidate path ∨ act = .clear) := by
  match act, h with
  | .move (.go i), _ => exact absurd rfl (hact i)
  | .move (.stir i), h =>
    obtain rfl := Option.some.inj h
    refine ⟨fun j => ?_, fun path => .inl rfl⟩
    rw [stack, stack, List.getElem?_modify]
    cases s.threads[j]? with
    | none => rfl
    | some t => split <;> simp
  | .invalidate path, h =>
    obtain rfl := Option.some.inj h
    refine ⟨fun j => rfl, fun q => ?_⟩
    have hdrop := s.world.cache.slot?_drop path q
    by_cases hq : q = path
    · rw [if_pos hq] at hdrop
      exact .inr ⟨hdrop, .inl (hq ▸ rfl)⟩
    · rw [if_neg hq] at hdrop
      exact .inl hdrop
  | .clear, h =>
    obtain rfl := Option.some.inj h
    exact ⟨fun j => rfl, fun q => .inr ⟨rfl, .inr rfl⟩⟩
  | .announce, h =>
    cases hpending : s.pending with
    | zero => simp [step?, hpending] at h
    | succ pending =>
      simp only [step?, hpending, Option.some.injEq] at h
      subst h
      exact ⟨s.stack_rouse, fun path => .inl rfl⟩
  | .edit files, h =>
    obtain rfl := Option.some.inj h
    exact ⟨fun j => rfl, fun path => .inl rfl⟩

/-! ## Runs -/

theorem after_append (s : Pool) (acts more : List Act) :
    s.after (acts ++ more) = (s.after acts).after more := List.foldl_append ..

/-- The last step of a run is one that was taken, or changes nothing. -/
theorem after_concat (s : Pool) (acts : List Act) (act : Act) :
    s.after (acts ++ [act]) = s.after acts ∨
      (s.after acts).step? act = some (s.after (acts ++ [act])) := by
  rw [after_append]
  show ((s.after acts).step? act).getD _ = _ ∨ _ = some (((s.after acts).step? act).getD _)
  cases (s.after acts).step? act with
  | none => exact .inl rfl
  | some s' => exact .inr rfl

/-- Between the step of compilation `i` that comes after the steps `before` and the end of the steps
`during`, the compilation holds the claim that it has made with that step. -/
structure Tenure (s : Pool) (i : Nat) (claim : Claim) (rest : List Claim)
    (before during : List Act) : Prop where
  claims : (s.after before).Claims i claim rest
  held : ∀ acts, acts <+: during →
    claim :: rest <:+ (s.after (before ++ .move (.go i) :: acts)).stack i

/-- A slot is at work for compilation `i` from its step after the steps `before` to the end of the
steps `during`. -/
def Owned (s : Pool) (i : Nat) (path : String) (before during : List Act) : Prop :=
  ∀ acts, acts <+: during →
    (s.after (before ++ .move (.go i) :: acts)).slot? path = some (.compiling i)

variable {before during before' during' : List Act}

/-- What is so now and was so before has been so all the time. -/
theorem forall_prefix_concat {P : List Act → Prop} (h : ∀ acts, acts <+: during → P acts)
    (hlast : P (during ++ [act])) : ∀ acts, acts <+: during ++ [act] → P acts := by
  intro acts hfront
  rcases List.prefix_concat_iff.mp hfront with rfl | hfront
  · exact hlast
  · exact h acts hfront

/-- A claim that is held after one more step has been held all the time. -/
theorem Tenure.concat (h : s.Tenure i claim rest before during)
    (hheld : claim :: rest <:+ (s.after ((before ++ .move (.go i) :: during) ++ [act])).stack i) :
    s.Tenure i claim rest before (during ++ [act]) where
  claims := h.claims
  held := forall_prefix_concat h.held (by simpa using hheld)

theorem Owned.concat (h : s.Owned i path before during)
    (hslot : (s.after ((before ++ .move (.go i) :: during) ++ [act])).slot? path =
      some (.compiling i)) : s.Owned i path before (during ++ [act]) :=
  forall_prefix_concat h (by simpa using hslot)

/-- A claim that has just been made is held. -/
theorem Tenure.of_claims (h : (s.after before).Claims i claim rest) :
    s.Tenure i claim rest before [] where
  claims := h
  held acts hfront := by
    obtain rfl := List.prefix_nil.mp hfront
    rw [after_append, h.2]

/-- Which step has made a claim that is held is told by the claim and those below it. -/
theorem Tenure.not_inside (h : s.Tenure i claim rest before during)
    (h' : s.Tenure i claim rest before' during') {acts : List Act} (hfront : acts <+: during)
    (hbefore : before' = before ++ .move (.go i) :: acts) : False := by
  have hheld := (h.held acts hfront).length_le
  rw [← hbefore, h'.claims.1, List.length_cons] at hheld
  omega

/-- **The step that has made a claim that is still held is determined.** -/
theorem Tenure.unique (h : s.Tenure i claim rest before during)
    (h' : s.Tenure i claim rest before' during')
    (hacts : before ++ .move (.go i) :: during = before' ++ .move (.go i) :: during') :
    before = before' ∧ during = during' := by
  rcases List.append_eq_append_iff.mp hacts with ⟨acts, hbefore, hduring⟩ |
    ⟨acts, hbefore, hduring⟩
  · cases acts with
    | nil =>
      rw [List.append_nil] at hbefore
      exact ⟨hbefore.symm, by simpa using hduring⟩
    | cons act acts =>
      obtain ⟨rfl, rfl⟩ := List.cons.inj hduring
      exact (h.not_inside h' (List.prefix_append ..) hbefore).elim
  · cases acts with
    | nil =>
      rw [List.append_nil] at hbefore
      exact ⟨hbefore, by simpa using hduring.symm⟩
    | cons act acts =>
      obtain ⟨rfl, rfl⟩ := List.cons.inj hduring
      exact (h'.not_inside h (List.prefix_append ..) hbefore).elim

/-! ## What one step changes -/

/-- The claims of a compilation grow by one that is free, or some of them come to an end. -/
theorem stack_of_step? (h : s.step? act = some s') (i : Nat) : s'.stack i <:+ s.stack i ∨
    act = .move (.go i) ∧ ∃ claim, s'.stack i = claim :: s.stack i ∧
      ∀ other, s.slot? claim.path ≠ some (.compiling other) := by
  by_cases hact : ∃ j, act = .move (.go j)
  · obtain ⟨j, rfl⟩ := hact
    obtain ⟨t, t', ht, hchange, hstack⟩ := change_of_go? h
    by_cases hj : i = j
    · subst hj
      rw [hstack i, if_pos rfl, stack_of_getElem? ht]
      cases hchange with
      | quiet _ hsame => exact .inl (hsame ▸ List.suffix_refl _)
      | claims claim hfree _ hgrown => exact .inr ⟨rfl, claim, hgrown, hfree⟩
      | stores _ _ _ _ _ hsame => exact .inl (hsame ▸ List.suffix_refl _)
      | releases claim rest _ hfrom _ hrest =>
        rw [hrest, hfrom]
        exact .inl (List.suffix_cons claim rest)
    · rw [hstack i, if_neg hj]
      exact .inl (List.suffix_refl _)
  · push Not at hact
    rw [(quiet_of_step? h hact).1 i]
    exact .inl (List.suffix_refl _)

/-- Where compilation `i` is at work after a step, it was at work before, or has claimed the slot
with this step.  In the first case, the claims that come or go with the step are for other paths. -/
theorem owner_of_step? (h : s.step? act = some s') (hslot : s'.slot? path = some (.compiling i)) :
    (act = .move (.go i) ∧ ∃ claim, claim.path = path ∧ s'.stack i = claim :: s.stack i) ∨
    (s.slot? path = some (.compiling i) ∧ (s'.stack i = s.stack i ∨ ∃ claim, claim.path ≠ path ∧
      (s'.stack i = claim :: s.stack i ∨ s.stack i = claim :: s'.stack i))) := by
  by_cases hact : ∃ j, act = .move (.go j)
  · obtain ⟨j, rfl⟩ := hact
    obtain ⟨t, t', ht, hchange, hstack⟩ := change_of_go? h
    -- the claims of `i` change with its own steps only
    have hmine := hstack i
    by_cases hj : i = j
    · subst hj
      rw [if_pos rfl] at hmine
      rw [hmine, stack_of_getElem? ht]
      cases hchange with
      | quiet hslots hsame =>
        exact .inr ⟨(hslots path).symm.trans hslot, .inl hsame⟩
      | claims claim hfree hslots hgrown =>
        by_cases hpath : path = claim.path
        · exact .inl ⟨rfl, claim, hpath.symm, hgrown⟩
        · have hkept := (hslots path).symm.trans hslot
          rw [if_neg hpath] at hkept
          exact .inr ⟨hkept, .inr ⟨claim, Ne.symm hpath, .inl hgrown⟩⟩
      | stores claim rest document hfrom hcache hsame =>
        rw [slot?, hcache, Cache.slot?_store] at hslot
        split at hslot
        · cases hslot
        · exact .inr ⟨hslot, .inl hsame⟩
      | releases claim rest outcome hfrom hcache hrest =>
        rw [slot?, hcache, Cache.slot?_release] at hslot
        split at hslot
        · cases hslot
        · rename_i hnot
          refine .inr ⟨hslot, .inr ⟨claim, ?_, .inr ?_⟩⟩
          · rintro rfl
            exact hnot ⟨rfl, Cache.isOwned_iff.mpr hslot⟩
          · rw [hfrom, hrest]
            rfl
    · rw [if_neg hj] at hmine
      refine .inr ⟨?_, .inl hmine⟩
      cases hchange with
      | quiet hslots _ => exact (hslots path).symm.trans hslot
      | claims claim _ hslots _ =>
        have hkept := (hslots path).symm.trans hslot
        split at hkept
        · exact absurd (by simpa using hkept) (Ne.symm hj)
        · exact hkept
      | stores claim rest document _ hcache _ =>
        rw [slot?, hcache, Cache.slot?_store] at hslot
        split at hslot
        · cases hslot
        · exact hslot
      | releases claim rest outcome _ hcache _ =>
        rw [slot?, hcache, Cache.slot?_release] at hslot
        split at hslot
        · cases hslot
        · exact hslot
  · push Not at hact
    obtain ⟨hstack, hslots⟩ := quiet_of_step? h hact
    rcases hslots path with hsame | ⟨hnone, -⟩
    · exact .inr ⟨hsame.symm.trans hslot, .inl (hstack i)⟩
    · rw [hnone] at hslot
      cases hslot

/-- Only a compilation that is done with the job of its innermost claim stores a document. -/
theorem stores_of_step? {document : Document} (h : s.step? act = some s')
    (hready : s'.slot? path = some (.ready document))
    (hbefore : s.slot? path ≠ some (.ready document)) :
    ∃ i claim rest, act = .move (.go i) ∧ claim.path = path ∧ document.hasGaps = false ∧
      s.threads[i]? = some ⟨.work (.done (.ok document)), claim :: rest⟩ := by
  by_cases hact : ∃ j, act = .move (.go j)
  · obtain ⟨i, rfl⟩ := hact
    obtain ⟨t, t', ht, hchange, -⟩ := change_of_go? h
    cases hchange with
    | quiet hslots _ => exact absurd ((hslots path).symm.trans hready) hbefore
    | claims claim _ hslots _ =>
      have hkept := (hslots path).symm.trans hready
      split at hkept
      · cases hkept
      · exact absurd hkept hbefore
    | stores claim rest document' hfrom hcache _ =>
      rw [slot?, hcache, Cache.slot?_store] at hready
      split at hready
      · rename_i hand
        obtain rfl : document' = document := by simpa using hready
        exact ⟨i, claim, rest, rfl, hand.1.symm, hand.2.2, hfrom ▸ ht⟩
      · exact absurd hready hbefore
    | releases claim rest outcome _ hcache _ =>
      rw [slot?, hcache, Cache.slot?_release] at hready
      split at hready
      · cases hready
      · exact absurd hready hbefore
  · push Not at hact
    rcases (quiet_of_step? h hact).2 path with hsame | ⟨hnone, -⟩
    · exact absurd (hsame.symm.trans hready) hbefore
    · rw [hnone] at hready
      cases hready

/-- A claim that ends changes its own slot only, and that only if the slot is its own. -/
theorem Ends.owns (h : s.Ends i claim rest) (hgo : s.go? i = some s')
    (hchanged : s'.slot? path ≠ s.slot? path) :
    path = claim.path ∧ s.slot? path = some (.compiling i) := by
  obtain ⟨t, t', w, ht, hstep, hs'⟩ := exists_of_go? hgo
  obtain ⟨outcome, hfrom | hfrom⟩ := h
  · obtain rfl := Option.some.inj (ht.symm.trans hfrom)
    subst hs'
    cases outcome with
    | error reason =>
      obtain ⟨rfl, rfl⟩ := Prod.mk.inj (Option.some.inj hstep)
      exact absurd rfl hchanged
    | ok document =>
      obtain ⟨rfl, rfl⟩ := Prod.mk.inj (Option.some.inj hstep)
      have hstored := s.world.cache.slot?_store i claim.path path document
      split at hstored
      · rename_i hand
        exact ⟨hand.1, hand.1 ▸ Cache.isOwned_iff.mp hand.2.1⟩
      · exact absurd hstored hchanged
  · obtain rfl := Option.some.inj (ht.symm.trans hfrom)
    subst hs'
    obtain ⟨rfl, rfl⟩ := Prod.mk.inj (Option.some.inj hstep)
    have hreleased := s.world.cache.slot?_release i claim.path path
    split at hreleased
    · rename_i hand
      exact ⟨hand.1, hand.1 ▸ Cache.isOwned_iff.mp hand.2⟩
    · exact absurd hreleased hchanged

/-! ## What a run keeps -/

section
variable {files : Files} {mode : CacheMode} {jobs : List (Job Outcome)}

/-- A compilation begins without claims. -/
theorem stack_start (i : Nat) : (start files mode jobs).stack i = [] := by
  rw [stack, start, List.getElem?_map]
  cases jobs[i]? <;> rfl

/-- **Every claim that is held was made by a step of the compilation, and has been held since.** -/
theorem exists_tenure (acts : List Act)
    (h : claim :: rest <:+ ((start files mode jobs).after acts).stack i) :
    ∃ before during, acts = before ++ .move (.go i) :: during ∧
      (start files mode jobs).Tenure i claim rest before during := by
  induction acts using List.reverseRecOn with
  | nil =>
    have hstart : ((start files mode jobs).after []).stack i = [] := stack_start i
    rw [hstart] at h
    simp at h
  | append_singleton acts act ih =>
    have hold (hheld : claim :: rest <:+ ((start files mode jobs).after acts).stack i) :
        ∃ before during, acts ++ [act] = before ++ .move (.go i) :: during ∧
          (start files mode jobs).Tenure i claim rest before during := by
      obtain ⟨before, during, rfl, htenure⟩ := ih hheld
      exact ⟨before, during ++ [act], by simp, htenure.concat h⟩
    rcases after_concat (start files mode jobs) acts act with hsame | hstep
    · rw [hsame] at h
      exact hold h
    · rcases stack_of_step? hstep i with hsuffix | ⟨rfl, claim', hgrown, -⟩
      · exact hold (h.trans hsuffix)
      · rw [hgrown] at h
        rcases List.suffix_cons_iff.mp h with hnew | hheld
        · obtain ⟨rfl, rfl⟩ := List.cons.inj hnew
          exact ⟨acts, [], rfl, .of_claims ⟨rfl, by rw [← after_append, hgrown]⟩⟩
        · exact hold hheld

/-- **A slot on which a compilation is at work is that of its innermost claim for this path, and has
been its own since it made that claim.** -/
theorem exists_owned (acts : List Act)
    (h : ((start files mode jobs).after acts).slot? path = some (.compiling i)) :
    ∃ claim rest before during,
      innermost? path (((start files mode jobs).after acts).stack i) = some (claim, rest) ∧
      acts = before ++ .move (.go i) :: during ∧
      (start files mode jobs).Tenure i claim rest before during ∧
      (start files mode jobs).Owned i path before during := by
  induction acts using List.reverseRecOn with
  | nil => cases h
  | append_singleton acts act ih =>
    -- what the last step has not claimed goes on as before
    have hold (hslot : ((start files mode jobs).after acts).slot? path = some (.compiling i))
        (hinnermost : innermost? path (((start files mode jobs).after (acts ++ [act])).stack i) =
          innermost? path (((start files mode jobs).after acts).stack i)) :
        ∃ claim rest before during,
          innermost? path (((start files mode jobs).after (acts ++ [act])).stack i) =
            some (claim, rest) ∧
          acts ++ [act] = before ++ .move (.go i) :: during ∧
          (start files mode jobs).Tenure i claim rest before during ∧
          (start files mode jobs).Owned i path before during := by
      obtain ⟨claim, rest, before, during, hfound, rfl, htenure, howned⟩ := ih hslot
      have hfound' := hinnermost.trans hfound
      exact ⟨claim, rest, before, during ++ [act], hfound', by simp,
        htenure.concat (suffix_of_innermost? hfound'), howned.concat h⟩
    rcases after_concat (start files mode jobs) acts act with hsame | hstep
    · exact hold (hsame ▸ h) (by rw [hsame])
    · rcases owner_of_step? hstep h with ⟨rfl, claim, rfl, hgrown⟩ | ⟨hslot, hstack⟩
      · refine ⟨claim, _, acts, [], ?_, rfl, .of_claims ⟨rfl, by rw [← after_append, hgrown]⟩,
          fun acts hfront => ?_⟩
        · rw [hgrown, innermost?, if_pos rfl]
        · obtain rfl := List.prefix_nil.mp hfront
          exact h
      · refine hold hslot ?_
        rcases hstack with hsame | ⟨claim, hpath, hgrown | hshrunk⟩
        · rw [hsame]
        · rw [hgrown, innermost?, if_neg hpath]
        · rw [hshrunk, innermost?, if_neg hpath]

/-! ## The end of a claim -/

/-- From the step of compilation `i` after the steps `before` to the end of the steps `during`,
nobody but the compilation has had to do with a slot, and it has not claimed the slot again. -/
structure Undisturbed (s : Pool) (i : Nat) (path : String) (before during : List Act) : Prop where
  owned : s.Owned i path before during
  not_given_up : .invalidate path ∉ during ∧ .clear ∉ during
  not_claimed : ∀ acts j claim rest, acts ++ [.move (.go j)] <+: during → claim.path = path →
    ¬ (s.after (before ++ .move (.go i) :: acts)).Claims j claim rest

/-- While a slot is at work, nobody claims it. -/
theorem Claims.free (h : s.Claims i claim rest) (other : Nat) :
    s.slot? claim.path ≠ some (.compiling other) := by
  obtain ⟨hbefore, hafter⟩ := h
  rcases after_concat s [] (.move (.go i)) with hsame | hstep
  · -- a step that is not taken makes no claim
    have hloop : rest = claim :: rest := by
      rw [← hafter, ← hbefore]
      exact congrArg (stack · i) hsame.symm
    simp at hloop
  · rcases stack_of_step? hstep i with hsuffix | ⟨-, claim', hgrown, hfree⟩
    · have hle := hsuffix.length_le
      rw [List.nil_append, hafter] at hle
      simp only [after, List.foldl_nil, hbefore, List.length_cons] at hle
      omega
    · rw [List.nil_append, hafter] at hgrown
      obtain ⟨rfl, -⟩ := List.cons.inj hgrown
      exact hfree other

/-- A slot that has been at work for a compilation all the time was given up by nobody. -/
theorem Owned.undisturbed (h : s.Owned i path before during) :
    s.Undisturbed i path before during := by
  have hkept {act : Act} (hact : act ∈ during)
      (hdrop : ∀ u : Pool, (u.after [act]).slot? path = none) : False := by
    obtain ⟨acts, more, rfl⟩ := List.append_of_mem hact
    have hslot := h (acts ++ [act]) ⟨more, by simp⟩
    rw [← List.cons_append, ← List.append_assoc, after_append, hdrop] at hslot
    cases hslot
  refine ⟨h, ⟨fun hact => hkept hact fun u => ?_, fun hact => hkept hact fun u => rfl⟩, ?_⟩
  · show (u.world.cache.drop path).slot? path = none
    rw [Cache.slot?_drop, if_pos rfl]
  · rintro acts j claim rest hfront rfl hclaims
    exact hclaims.free i (h acts ((List.prefix_append ..).trans hfront))

/-- **Only an undisturbed claim stores its document or gives up its slot.**  This holds whatever
jobs compilations carry out, in which order they take their steps, and what others do in between.

A document is stored by nobody but a compilation that is done with the job of its innermost claim,
for the path of that claim.  A compilation that ends a claim has made it with one of its steps and
has held it since.  If its next step changes any slot, this is the slot of the claim, which was its
own from the beginning: nobody has given it up, filled it or claimed it again, the compilation
itself included. -/
theorem only_undisturbed_claims_change_slots (files : Files) (mode : CacheMode)
    (jobs : List (Job Outcome)) (acts : List Act) :
    let s := (start files mode jobs).after acts
    (∀ act s' path document, s.step? act = some s' → s'.slot? path = some (.ready document) →
      s.slot? path ≠ some (.ready document) →
      ∃ i claim rest, act = .move (.go i) ∧ claim.path = path ∧ document.hasGaps = false ∧
        s.threads[i]? = some ⟨.work (.done (.ok document)), claim :: rest⟩) ∧
    ∀ i claim rest s', s.Ends i claim rest → s.step? (.move (.go i)) = some s' →
      ∃ before during, acts = before ++ .move (.go i) :: during ∧
        (start files mode jobs).Tenure i claim rest before during ∧
        ∀ path, s'.slot? path ≠ s.slot? path → path = claim.path ∧
          (start files mode jobs).Undisturbed i path before during := by
  intro s
  refine ⟨fun act s' path document => stores_of_step?, fun i claim rest s' hends hgo => ?_⟩
  have hstack := hends.stack_eq
  have hheld : claim :: rest <:+ s.stack i := hstack ▸ List.suffix_refl _
  obtain ⟨before, during, hacts, htenure⟩ := exists_tenure acts hheld
  refine ⟨before, during, hacts, htenure, fun path hchanged => ?_⟩
  obtain ⟨rfl, hslot⟩ := hends.owns hgo hchanged
  refine ⟨rfl, ?_⟩
  obtain ⟨claim', rest', before', during', hfound, hacts', htenure', howned⟩ :=
    exists_owned acts hslot
  -- the claim that ends is the innermost one for its path, so that the slot is the one it made
  rw [show ((start files mode jobs).after acts).stack i = claim :: rest from hstack, innermost?,
    if_pos rfl] at hfound
  obtain ⟨rfl, rfl⟩ := Prod.mk.inj (Option.some.inj hfound)
  obtain ⟨rfl, rfl⟩ := htenure.unique htenure' (hacts.symm.trans hacts')
  exact howned.undisturbed

/-- The slot of `a` is given up while it is at work.  The compilation meets `a` again and claims it
anew, and this claim stores its document.  The claim before it finds that document when it ends,
and leaves it there. -/
example :
    let document (n : Nat) : Document := .mk ⟨n, "a", "", []⟩ []
    let inner : Job Outcome := .done (.ok (document 1))
    let outer : Job Outcome := .obtain "a" ["a"] inner fun _ => .done (.ok (document 0))
    let s := (start .empty .session [.obtain "a" ["a"] outer .done]).after
      (.move (.go 0) :: .invalidate "a" :: List.replicate 7 (.move (.go 0)))
    s.slot? "a" = some (.ready (document 1)) ∧ s.result? 0 = some (.ok (document 0)) :=
  ⟨rfl, rfl⟩

end

end Pool

end Stencil
