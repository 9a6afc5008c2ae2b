import Stencil.Text.Position

/-! # The order of marks

Marks are ordered like the characters they belong to: the mark of a character stands before the
marks of all that follow it, and every mark of a text lies between the mark of its beginning and
the mark behind its end.
-/
namespace Stencil
namespace Mark

theorem before_iff {a b : Mark} :
    a.before b = true ↔ a.line < b.line ∨ a.line = b.line ∧ a.column < b.column := by
  simp [before]

theorem upTo_iff {a b : Mark} :
    a.upTo b = true ↔ a.line < b.line ∨ a.line = b.line ∧ a.column ≤ b.column := by
  rw [upTo, Bool.not_eq_true', ← Bool.not_eq_true, before_iff]
  omega

theorem upTo_refl (a : Mark) : a.upTo a = true :=
  upTo_iff.mpr (.inr ⟨rfl, Nat.le_refl _⟩)

theorem upTo_trans {a b c : Mark} (hab : a.upTo b = true) (hbc : b.upTo c = true) :
    a.upTo c = true := by
  rw [upTo_iff] at *
  omega

theorem upTo_of_before {a b : Mark} (h : a.before b = true) : a.upTo b = true := by
  rw [upTo_iff]
  rw [before_iff] at h
  omega

theorem before_of_before_of_upTo {a b c : Mark} (hab : a.before b = true)
    (hbc : b.upTo c = true) : a.before c = true := by
  rw [upTo_iff] at hbc
  rw [before_iff] at *
  omega

theorem not_upTo_iff {a b : Mark} : ¬ a.upTo b = true ↔ b.before a = true := by
  rw [upTo, Bool.not_eq_true', Bool.not_eq_false]

theorem not_before_iff {a b : Mark} : ¬ a.before b = true ↔ b.upTo a = true := by
  rw [upTo, Bool.not_eq_true', Bool.not_eq_true]

theorem eq_or_before_of_upTo {a b : Mark} (h : a.upTo b = true) : a = b ∨ a.before b = true := by
  obtain ⟨l, c⟩ := a
  obtain ⟨l', c'⟩ := b
  rw [upTo_iff] at h
  rw [before_iff, Mark.mk.injEq]
  dsimp only at h ⊢
  omega

theorem before_advance (m : Mark) (c : Char) : m.before (m.advance c) = true := by
  rw [before_iff, advance]
  split <;> simp

/-! ## Behind a text -/

/-- The mark behind more text. -/
def after (m : Mark) (cs : List Char) : Mark := cs.foldl advance m

@[simp] theorem after_nil (m : Mark) : m.after [] = m := rfl

@[simp] theorem after_cons (m : Mark) (c : Char) (cs : List Char) :
    m.after (c :: cs) = (m.advance c).after cs := rfl

@[simp] theorem after_append (m : Mark) (cs ds : List Char) :
    m.after (cs ++ ds) = (m.after cs).after ds :=
  List.foldl_append

theorem upTo_after (m : Mark) (cs : List Char) : m.upTo (m.after cs) = true := by
  induction cs generalizing m with
  | nil => exact m.upTo_refl
  | cons c cs ih => exact upTo_trans (upTo_of_before (m.before_advance c)) (ih _)

/-- The marks of the characters of a text that begins at a mark. -/
def along (m : Mark) : List Char → List Mark
  | [] => []
  | c :: cs => m :: (m.advance c).along cs

theorem along_append (m : Mark) (cs ds : List Char) :
    m.along (cs ++ ds) = m.along cs ++ (m.after cs).along ds := by
  induction cs generalizing m with
  | nil => rfl
  | cons c cs ih => rw [List.cons_append, along, ih, along, after_cons, List.cons_append]

@[simp] theorem length_along (m : Mark) (cs : List Char) : (m.along cs).length = cs.length := by
  induction cs generalizing m with
  | nil => rfl
  | cons c cs ih => rw [along, List.length_cons, ih, List.length_cons]

/-- The mark of a character is the one behind all characters in front of it. -/
theorem getElem_along (m : Mark) (cs : List Char) (i : Nat) (h : i < (m.along cs).length) :
    (m.along cs)[i] = m.after (cs.take i) := by
  induction cs generalizing m i with
  | nil => exact absurd h (Nat.not_lt_zero i)
  | cons c cs ih =>
    cases i with
    | zero => rfl
    | succ i => exact ih (m.advance c) i (by simpa [along] using h)

theorem mem_along {m p : Mark} {cs : List Char} (h : p ∈ m.along cs) :
    m.upTo p = true ∧ p.before (m.after cs) = true := by
  induction cs generalizing m with
  | nil => cases h
  | cons c cs ih =>
    rcases List.mem_cons.mp h with rfl | h
    · exact ⟨upTo_refl _, before_of_before_of_upTo (before_advance _ c) (upTo_after _ cs)⟩
    · obtain ⟨hle, hlt⟩ := ih h
      exact ⟨upTo_trans (upTo_of_before (m.before_advance c)) hle, hlt⟩

end Mark

theorem Position.mark_advance (p : Position) (c : Char) :
    (p.advance c).mark = p.mark.advance c := by
  rw [Position.advance, Mark.advance]
  split <;> rfl

theorem Position.mark_after (p : Position) (cs : List Char) :
    (p.after cs).mark = p.mark.after cs := by
  induction cs generalizing p with
  | nil => rfl
  | cons c cs ih => rw [Position.after_cons, ih, Position.mark_advance, Mark.after_cons]

/-! ## Positions -/

/-- Positions are ordered as their marks are. -/
instance : LE Position := ⟨fun p q => p.mark.upTo q.mark = true⟩

instance (p q : Position) : Decidable (p ≤ q) := inferInstanceAs (Decidable (_ = true))

namespace Position

theorem le_iff {p q : Position} :
    p ≤ q ↔ p.line < q.line ∨ p.line = q.line ∧ p.column ≤ q.column := by
  have hmarks : p ≤ q ↔ p.mark.upTo q.mark = true := Iff.rfl
  rw [hmarks, Mark.upTo_iff]
  simp only [mark]
  omega

theorem le_refl (p : Position) : p ≤ p := Mark.upTo_refl p.mark

theorem le_trans {p q r : Position} (hpq : p ≤ q) (hqr : q ≤ r) : p ≤ r :=
  Mark.upTo_trans hpq hqr

theorem origin_le (p : Position) : origin ≤ p := by
  rw [le_iff, origin]
  dsimp only
  omega

/-- A place does not stand behind the place that follows some more text. -/
theorem le_after (p : Position) (cs : List Char) : p ≤ p.after cs := by
  show p.mark.upTo (p.after cs).mark = true
  rw [mark_after]
  exact Mark.upTo_after p.mark cs

end Position

end Stencil
