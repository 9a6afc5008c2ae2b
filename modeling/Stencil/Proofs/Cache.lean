import Stencil.Cache

/-! # Slots of a cache

What each operation on a cache does to the slots: those that fill or give up a slot change the one
of their own path only, and storing and releasing change it only for its owner.
-/
namespace Stencil

theorem lookup_filter_ne {α β : Type} [BEq α] [LawfulBEq α] (entries : List (α × β))
    (dropped key : α) : (entries.filter (·.1 != dropped)).lookup key =
      if key == dropped then none else entries.lookup key := by
  induction entries with
  | nil => simp
  | cons entry entries ih =>
    obtain ⟨k, v⟩ := entry
    by_cases hk : k = dropped
    · subst hk
      rw [List.filter_cons_of_neg (by simp), ih, List.lookup_cons]
      cases hkey : key == k <;> simp
    · rw [List.filter_cons_of_pos (by simpa using hk), List.lookup_cons, List.lookup_cons, ih]
      cases hkey : key == k with
      | true => simp [eq_of_beq hkey, hk]
      | false => rfl

namespace Cache

variable {c : Cache} {owner : Nat} {path p q : String}

theorem slot?_drop (c : Cache) (p q : String) :
    (c.drop p).slot? q = if q = p then none else c.slot? q := by
  rw [slot?, drop, lookup_filter_ne, slot?]
  simp only [beq_iff_eq]

theorem slot?_fill (c : Cache) (p q : String) (slot : Slot) :
    (c.fill p slot).slot? q = if q = p then some slot else c.slot? q := by
  rw [slot?, fill, List.lookup_cons]
  by_cases h : q = p
  · simp [h]
  · have hdrop := slot?_drop c p q
    rw [slot?, if_neg h] at hdrop
    rw [if_neg h, hdrop, beq_false_of_ne h]

theorem isOwned_iff : c.isOwned owner path = true ↔ c.slot? path = some (.compiling owner) := by
  unfold isOwned
  split
  · rename_i other h
    simp [h]
  · rename_i h
    refine ⟨fun hfalse => (by cases hfalse), fun hslot => absurd hslot (h owner)⟩

/-- Storing fills the slot of its owner with a document that has no gaps. -/
theorem slot?_store (c : Cache) (owner : Nat) (p q : String) (d : Document) :
    (c.store owner p d).slot? q =
      if q = p ∧ c.isOwned owner p = true ∧ d.hasGaps = false then some (.ready d)
      else c.slot? q := by
  unfold store
  simp only [Bool.and_eq_true, Bool.not_eq_true']
  by_cases h : c.isOwned owner p = true ∧ d.hasGaps = false
  · rw [if_pos h, slot?_fill]
    by_cases hq : q = p
    · rw [if_pos hq, if_pos ⟨hq, h⟩]
    · rw [if_neg hq, if_neg fun hand => hq hand.1]
  · rw [if_neg h, if_neg fun hand => h hand.2]

/-- Releasing empties the slot of its owner. -/
theorem slot?_release (c : Cache) (owner : Nat) (p q : String) :
    (c.release owner p).slot? q =
      if q = p ∧ c.isOwned owner p = true then none else c.slot? q := by
  unfold release
  by_cases h : c.isOwned owner p = true
  · rw [if_pos h, slot?_drop]
    by_cases hq : q = p
    · rw [if_pos hq, if_pos ⟨hq, h⟩]
    · rw [if_neg hq, if_neg fun hand => hq hand.1]
  · rw [if_neg h, if_neg fun hand => h hand.2]

@[simp] theorem waiting_fill (c : Cache) (p : String) (slot : Slot) :
    (c.fill p slot).waiting = c.waiting := rfl

@[simp] theorem waiting_store (c : Cache) (owner : Nat) (p : String) (d : Document) :
    (c.store owner p d).waiting = c.waiting := by
  unfold store
  split <;> rfl

@[simp] theorem waiting_release (c : Cache) (owner : Nat) (p : String) :
    (c.release owner p).waiting = c.waiting := by
  unfold release
  split <;> rfl

/-! ## Validity -/

/-- Which documents may be used depends on the mode only. -/
theorem isValid_eq {c c' : Cache} (h : c'.mode = c.mode) (files : Files) (d : Document) :
    c'.isValid files d = c.isValid files d := by
  unfold isValid
  rw [h]

@[simp] theorem mode_fill (c : Cache) (p : String) (slot : Slot) : (c.fill p slot).mode = c.mode :=
  rfl

@[simp] theorem mode_store (c : Cache) (owner : Nat) (p : String) (d : Document) :
    (c.store owner p d).mode = c.mode := by
  unfold store
  split <;> rfl

@[simp] theorem mode_release (c : Cache) (owner : Nat) (p : String) :
    (c.release owner p).mode = c.mode := by
  unfold release
  split <;> rfl

theorem mode_enter (c : Cache) (owner : Nat) (p : String) (stale : Option Nat) :
    (c.enter owner p stale).1.mode = c.mode := by
  unfold enter
  repeat' split
  all_goals rfl

end Cache

end Stencil
