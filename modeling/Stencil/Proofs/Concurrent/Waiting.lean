import Mathlib.Data.List.Chain
import Mathlib.Data.List.Nodup
import Mathlib.Data.List.Perm.Subperm
import Mathlib.Logic.Relation
import Stencil.Proofs.Cache

/-! # Who waits for whom

A compilation that waits for a slot waits for the owner of that slot, who may wait as well.  The
check that is made before anybody waits follows these steps until it meets the one who asks or
somebody who does not wait.  It has no bound of its own: it ends because nobody waits for itself,
and nobody does because of the check.
-/
namespace Stencil
open Relation (ReflTransGen TransGen)

namespace Cache

/-- A compilation waits for a slot that another one owns. -/
def WaitsFor (c : Cache) (a b : Nat) : Prop := c.waitsFor? a = some b

/-- Nobody waits for itself, directly or through others. -/
def Acyclic (c : Cache) : Prop := ∀ a, ¬ TransGen c.WaitsFor a a

/-- The walk from an owner along those that are waited for, which stops at `waiter` or at one that
does not wait, ends with an answer. -/
inductive Walks (c : Cache) (waiter : Nat) : (owner : Nat) → (answer : Bool) → Prop
  | met : Walks c waiter waiter true
  | free {owner : Nat} (hne : owner ≠ waiter) (hfree : c.waitsFor? owner = none) :
    Walks c waiter owner false
  | next {owner next : Nat} {answer : Bool} (hne : owner ≠ waiter)
    (hnext : c.WaitsFor owner next) (h : Walks c waiter next answer) :
    Walks c waiter owner answer

variable {c c' : Cache} {owner waiter a b : Nat} {path : String}

theorem waitsFor_iff :
    c.WaitsFor a b ↔
      ∃ path, c.waiting.lookup a = some path ∧ c.slot? path = some (.compiling b) := by
  unfold WaitsFor waitsFor?
  cases c.waiting.lookup a with
  | none => simp
  | some path =>
    simp only [Option.bind_some, Option.some.injEq, exists_eq_left']
    cases c.slot? path with
    | none => simp
    | some slot =>
      cases slot with
      | ready document => simp
      | compiling other => simp

theorem mem_waiting_of_waitsFor (h : c.WaitsFor a b) : a ∈ c.waiting.map Prod.fst := by
  obtain ⟨path, hpath, -⟩ := waitsFor_iff.mp h
  obtain ⟨before, after, hwaiting, -⟩ := List.lookup_eq_some_iff.mp hpath
  rw [hwaiting]
  simp

/-! ## The walk ends -/

/-- A walk meets no compilation twice, and all but its last one wait. -/
theorem Acyclic.length_le (h : c.Acyclic) {l : List Nat} (hl : (owner :: l).IsChain c.WaitsFor) :
    l.length ≤ c.waiting.length := by
  have hpairs : (owner :: l).Pairwise (TransGen c.WaitsFor) :=
    (hl.imp fun _ _ hstep => TransGen.single hstep).pairwise
  have hnodup : (owner :: l).Nodup := by
    refine hpairs.imp ?_
    rintro a b hreach rfl
    exact h a hreach
  have hwait : (owner :: l).dropLast ⊆ c.waiting.map Prod.fst := by
    clear hpairs hnodup
    induction l generalizing owner with
    | nil => simp
    | cons next l ih =>
      obtain ⟨hstep, hrest⟩ := List.isChain_cons_cons.mp hl
      rw [List.dropLast_cons_cons]
      exact List.cons_subset.mpr ⟨mem_waiting_of_waitsFor hstep, ih hrest⟩
  have hle := ((hnodup.sublist (List.dropLast_sublist _)).subperm hwait).length_le
  simpa using hle

theorem walks_leadsTo {steps : Nat}
    (h : ∀ l : List Nat, (owner :: l).IsChain c.WaitsFor → l.length ≤ steps) :
    c.Walks waiter owner (c.leadsTo waiter steps owner) := by
  induction steps generalizing owner with
  | zero =>
    rw [leadsTo]
    by_cases howner : owner = waiter
    · subst howner
      simpa using Walks.met
    · rw [beq_false_of_ne howner]
      cases hnext : c.waitsFor? owner with
      | none => exact .free howner hnext
      | some next =>
        have := h [next] (List.isChain_cons_cons.mpr ⟨hnext, .singleton _⟩)
        exact absurd this (by simp)
  | succ steps ih =>
    rw [leadsTo]
    by_cases howner : owner = waiter
    · subst howner
      simpa using Walks.met
    · rw [beq_false_of_ne howner, Bool.false_or]
      cases hnext : c.waitsFor? owner with
      | none => exact .free howner hnext
      | some next =>
        refine .next howner hnext (ih fun l hl => ?_)
        have := h (next :: l) (List.isChain_cons_cons.mpr ⟨hnext, hl⟩)
        exact Nat.le_of_succ_le_succ this

/-- **The check ends with the answer that the walk without a bound would end with.** -/
theorem Acyclic.walks (h : c.Acyclic) (waiter owner : Nat) :
    c.Walks waiter owner (c.closesLoop waiter owner) :=
  walks_leadsTo fun _ hl => h.length_le hl

theorem reaches_of_walks (h : c.Walks waiter owner true) :
    ReflTransGen c.WaitsFor owner waiter := by
  generalize hanswer : true = answer at h
  induction h with
  | met => exact .refl
  | free => cases hanswer
  | next _ hnext _ ih => exact .head hnext (ih hanswer)

theorem not_reaches_of_walks (h : c.Walks waiter owner false) :
    ¬ ReflTransGen c.WaitsFor owner waiter := by
  generalize hanswer : false = answer at h
  induction h with
  | met => cases hanswer
  | free hne hfree =>
    intro hreach
    rcases ReflTransGen.cases_head hreach with rfl | ⟨next, hnext, -⟩
    · exact hne rfl
    · rw [WaitsFor, hfree] at hnext
      cases hnext
  | next hne hnext _ ih =>
    intro hreach
    rcases ReflTransGen.cases_head hreach with rfl | ⟨next', hnext', hrest⟩
    · exact hne rfl
    · obtain rfl := Option.some.inj (hnext.symm.trans hnext')
      exact ih hanswer hrest

/-- The check says whether the owner waits for the one who asks, directly or through others. -/
theorem Acyclic.closesLoop_iff (h : c.Acyclic) :
    c.closesLoop waiter owner = true ↔ ReflTransGen c.WaitsFor owner waiter := by
  have hwalks := h.walks waiter owner
  cases hanswer : c.closesLoop waiter owner with
  | true => exact iff_of_true rfl (reaches_of_walks (hanswer ▸ hwalks))
  | false => exact iff_of_false (by simp) (not_reaches_of_walks (hanswer ▸ hwalks))

/-- From everybody one comes to somebody who does not wait for an owner. -/
theorem Acyclic.exists_free (h : c.Acyclic) (owner : Nat) :
    ∃ last, ReflTransGen c.WaitsFor owner last ∧ c.waitsFor? last = none := by
  by_contra hnone
  push Not at hnone
  -- otherwise the walk from `owner` could go on for ever
  have hlong : ∀ n, ∃ l : List Nat, l.length = n ∧ (owner :: l).IsChain c.WaitsFor := by
    intro n
    induction n with
    | zero => exact ⟨[], rfl, .singleton _⟩
    | succ n ih =>
      obtain ⟨l, hlength, hl⟩ := ih
      have hreach : ReflTransGen c.WaitsFor owner ((owner :: l).getLast (by simp)) :=
        List.relationReflTransGen_of_exists_isChain_cons l hl rfl
      obtain ⟨next, hnext⟩ := Option.ne_none_iff_exists'.mp (hnone _ hreach)
      refine ⟨l ++ [next], by simp [hlength], ?_⟩
      rw [← List.cons_append]
      refine List.isChain_append.mpr ⟨hl, .singleton _, fun x hx y hy => ?_⟩
      obtain rfl : next = y := by simpa using hy
      rw [List.getLast?_eq_some_getLast (by simp)] at hx
      obtain rfl := Option.some.inj hx
      exact hnext
  obtain ⟨l, hlength, hl⟩ := hlong (c.waiting.length + 1)
  have := h.length_le hl
  omega

/-! ## What is left acyclic -/

theorem Acyclic.of_le (h : c.Acyclic) (hle : ∀ a b, c'.WaitsFor a b → c.WaitsFor a b) :
    c'.Acyclic := fun a hcycle => h a (TransGen.mono hle a a hcycle)

/-- New steps that all lead to one who does not wait close no loop. -/
theorem Acyclic.of_sink (h : c.Acyclic) (hfree : c'.waitsFor? owner = none)
    (hle : ∀ a b, c'.WaitsFor a b → c.WaitsFor a b ∨ b = owner) : c'.Acyclic := by
  have hout : ∀ {b}, ¬ c'.WaitsFor owner b := fun {b} hstep => by
    rw [WaitsFor, hfree] at hstep
    cases hstep
  -- a way that does not end at the one who does not wait never comes to it
  have hold : ∀ {a b}, TransGen c'.WaitsFor a b → b ≠ owner → TransGen c.WaitsFor a b := by
    intro a b hreach
    induction hreach with
    | single hstep => exact fun hne => .single ((hle _ _ hstep).resolve_right hne)
    | tail _ hstep ih =>
      intro hne
      refine .tail (ih fun hmid => ?_) ((hle _ _ hstep).resolve_right hne)
      exact hout (hmid ▸ hstep)
  intro a hcycle
  refine h a (hold hcycle ?_)
  rintro rfl
  obtain ⟨b, hstep, -⟩ := TransGen.head'_iff.mp hcycle
  exact hout hstep

/-- A new step to one from whom there is no way back closes no loop. -/
theorem Acyclic.of_step {other : Nat} (h : c.Acyclic)
    (hback : ¬ ReflTransGen c.WaitsFor other owner)
    (hle : ∀ a b, c'.WaitsFor a b → c.WaitsFor a b ∨ (a = owner ∧ b = other)) : c'.Acyclic := by
  -- what is reached from `other` is reached without the new step
  have hold : ∀ {b}, ReflTransGen c'.WaitsFor other b → ReflTransGen c.WaitsFor other b := by
    intro b hreach
    induction hreach with
    | refl => exact .refl
    | tail _ hstep ih =>
      rcases hle _ _ hstep with hstep | ⟨rfl, -⟩
      · exact ih.tail hstep
      · exact absurd ih hback
  -- a way that uses the new step comes to `owner` before it and goes on from `other` behind it
  have hsplit : ∀ {a b}, TransGen c'.WaitsFor a b →
      TransGen c.WaitsFor a b ∨
        (ReflTransGen c'.WaitsFor a owner ∧ ReflTransGen c'.WaitsFor other b) := by
    intro a b hreach
    induction hreach with
    | single hstep =>
      rcases hle _ _ hstep with hstep | ⟨rfl, rfl⟩
      · exact .inl (.single hstep)
      · exact .inr ⟨.refl, .refl⟩
    | tail hreach hstep ih =>
      rcases hle _ _ hstep with hkept | ⟨rfl, rfl⟩
      · rcases ih with ih | ⟨hto, hfrom⟩
        · exact .inl (ih.tail hkept)
        · exact .inr ⟨hto, hfrom.tail hstep⟩
      · exact .inr ⟨hreach.to_reflTransGen, .refl⟩
  intro a hcycle
  rcases hsplit hcycle with hcycle | ⟨hto, hfrom⟩
  · exact h a hcycle
  · exact hback (hold (hfrom.trans hto))

/-! ## Asking -/

/-- What can come of asking for a document. -/
theorem enter_cases (c : Cache) (owner : Nat) (path : String) (stale : Option Nat) :
    (∃ document, c.slot? path = some (.ready document) ∧
      c.enter owner path stale = (c, .found document)) ∨
    ((∀ other, c.slot? path ≠ some (.compiling other)) ∧
      c.enter owner path stale = (c.fill path (.compiling owner), .claimed)) ∨
    (∃ other, c.slot? path = some (.compiling other) ∧ c.closesLoop owner other = true ∧
      c.enter owner path stale = (c, .refused)) ∨
    ∃ other, c.slot? path = some (.compiling other) ∧ c.closesLoop owner other = false ∧
      c.enter owner path stale = ({ c with waiting := (owner, path) :: c.waiting }, .waits) := by
  unfold enter
  match hslot : c.slot? path with
  | none => exact .inr (.inl ⟨by simp, rfl⟩)
  | some (.ready document) =>
    by_cases hstale : stale = some document.number
    · exact .inr (.inl ⟨by simp, by simp [hstale]⟩)
    · exact .inl ⟨document, rfl, by simp [hstale]⟩
  | some (.compiling other) =>
    cases hloop : c.closesLoop owner other with
    | true => exact .inr (.inr (.inl ⟨other, rfl, hloop, by simp [hloop]⟩))
    | false => exact .inr (.inr (.inr ⟨other, rfl, hloop, by simp [hloop]⟩))

/-- Asking closes no loop. -/
theorem Acyclic.enter (h : c.Acyclic) (hfree : c.waiting.lookup owner = none)
    (path : String) (stale : Option Nat) : (c.enter owner path stale).1.Acyclic := by
  rcases c.enter_cases owner path stale with ⟨document, -, henter⟩ | ⟨-, henter⟩ |
    ⟨other, -, -, henter⟩ | ⟨other, hslot, hloop, henter⟩
  · rw [henter]
    exact h
  -- the new owner of the slot does not wait, and whoever waits for the slot now waits for it
  · rw [henter]
    have hsink : (c.fill path (.compiling owner)).waitsFor? owner = none := by
      simp [waitsFor?, hfree]
    refine h.of_sink hsink fun a b hstep => ?_
    obtain ⟨q, hq, hslot⟩ := waitsFor_iff.mp hstep
    rw [slot?_fill] at hslot
    split at hslot
    · exact .inr (by simpa using hslot.symm)
    · exact .inl (waitsFor_iff.mpr ⟨q, hq, hslot⟩)
  · rw [henter]
    exact h
  · rw [henter]
    -- this is what the check has made sure of
    have hback : ¬ ReflTransGen c.WaitsFor other owner := fun hreach => by
      rw [h.closesLoop_iff.mpr hreach] at hloop
      cases hloop
    refine h.of_step hback fun a b hstep => ?_
    obtain ⟨q, hq, hb⟩ := waitsFor_iff.mp hstep
    rw [List.lookup_cons] at hq
    cases ha : a == owner with
    | true =>
      rw [ha] at hq
      obtain rfl := Option.some.inj hq
      have hb' : some (Slot.compiling other) = some (.compiling b) := hslot.symm.trans hb
      exact .inr ⟨eq_of_beq ha, by simpa using hb'.symm⟩
    | false =>
      rw [ha] at hq
      exact .inl (waitsFor_iff.mpr ⟨q, hq, hb⟩)

/-- Neither waking up nor giving up slots closes a loop. -/
theorem Acyclic.of_slots (h : c.Acyclic)
    (hwaiting : ∀ a path, c'.waiting.lookup a = some path → c.waiting.lookup a = some path)
    (hslot : ∀ path other, c'.slot? path = some (.compiling other) →
      c.slot? path = some (.compiling other)) : c'.Acyclic := by
  refine h.of_le fun a b hstep => ?_
  obtain ⟨path, hpath, hb⟩ := waitsFor_iff.mp hstep
  exact waitsFor_iff.mpr ⟨path, hwaiting a path hpath, hslot path b hb⟩

end Cache

end Stencil
