import Mathlib.Data.List.DropRight
import Stencil.Proofs.Text.Mark
import Stencil.Proofs.Text.Offset

/-! # What a line index tells

A line index is searched, and the line that is found is read anew from its beginning.  What comes of
it depends on the text in front of the offset alone: the line breaks in it are the line, and the
characters behind the last of them are the column.  So positions are ordered like the offsets, and
none of them is told twice.
-/
namespace Stencil
namespace Position

/-! ## Strict order -/

/-- Positions are ordered strictly as their marks are. -/
instance : LT Position := ⟨fun p q => p.mark.before q.mark = true⟩

instance (p q : Position) : Decidable (p < q) := inferInstanceAs (Decidable (_ = true))

theorem lt_iff {p q : Position} :
    p < q ↔ p.line < q.line ∨ p.line = q.line ∧ p.column < q.column := by
  have hmarks : p < q ↔ p.mark.before q.mark = true := Iff.rfl
  rw [hmarks, Mark.before_iff]
  simp only [mark]
  omega

theorem lt_irrefl (p : Position) : ¬ p < p := by
  rw [lt_iff]
  omega

theorem lt_asymm {p q : Position} (h : p < q) : ¬ q < p := by
  rw [lt_iff] at *
  omega

/-- A place stands before the one that follows some more text, unless there is none. -/
theorem lt_after (p : Position) {cs : List Char} (h : cs ≠ []) : p < p.after cs := by
  obtain ⟨c, cs, rfl⟩ := List.exists_cons_of_ne_nil h
  show p.mark.before (p.after (c :: cs)).mark = true
  rw [mark_after, Mark.after_cons]
  exact Mark.before_of_before_of_upTo (Mark.before_advance p.mark c) (Mark.upTo_after _ cs)

/-! ## Counting -/

/-- The position behind a text counts its line breaks and the characters behind the last of
them. -/
theorem origin_after (cs : List Char) :
    origin.after cs = ⟨cs.count '\n', (cs.rtakeWhile (· != '\n')).length⟩ := by
  induction cs using List.reverseRecOn with
  | nil => rfl
  | append_singleton cs c ih =>
    rw [after_append, after_cons, after_nil, ih, advance, List.count_append, List.count_singleton]
    by_cases hc : c = '\n'
    · subst hc
      rw [if_pos rfl, List.rtakeWhile_concat_neg _ _ _ (by simp)]
      rfl
    · have hother : ¬ (c == '\n') = true := by simpa using hc
      rw [if_neg hc, List.rtakeWhile_concat_pos _ _ _ (by simpa using hc), if_neg hother,
        List.length_append, List.length_singleton]
      rfl

/-- Neither number is greater than the number of bytes that have been passed. -/
theorem line_add_column_le (p : Position) (cs : List Char) :
    (p.after cs).line + (p.after cs).column ≤ p.line + p.column + utf8Length cs := by
  induction cs generalizing p with
  | nil => exact Nat.le_refl _
  | cons c cs ih =>
    have hpos := c.utf8Size_pos
    have hstep : (p.advance c).line + (p.advance c).column ≤ p.line + p.column + 1 := by
      unfold advance
      split <;> dsimp only <;> omega
    have hrest := ih (p.advance c)
    rw [after_cons, utf8Length_cons]
    omega

end Position

namespace LineIndex

variable {text : String} {m n : Nat}

theorem position_of_isBoundary (h : IsBoundary text.toList n) :
    ∃ pre post, text.toList = pre ++ post ∧ utf8Length pre = n ∧
      (ofString text).position n = Position.origin.after pre := by
  obtain ⟨pre, post, htext, rfl⟩ := h
  refine ⟨pre, post, htext, rfl, ?_⟩
  rw [← position_utf8Length pre post, ← htext, String.ofList_toList]

/-- An offset behind the end is taken for the end. -/
theorem position_of_size_le (index : LineIndex) (h : index.size ≤ n) :
    index.position n = index.position index.size := by
  rw [position, position, Nat.min_eq_right h, Nat.min_self]

/-- Positions grow with the offsets. -/
theorem position_lt_position (hm : IsBoundary text.toList m) (hn : IsBoundary text.toList n)
    (h : m < n) : (ofString text).position m < (ofString text).position n := by
  obtain ⟨pre, value, post, htext, rfl, rfl⟩ := hm.exists_eq_append hn (Nat.le_of_lt h)
  have hvalue : value ≠ [] := by
    rintro rfl
    simp at h
  have hof : text = String.ofList (pre ++ value ++ post) := by rw [← htext, String.ofList_toList]
  have hstart := position_utf8Length pre (value ++ post)
  rw [← List.append_assoc, ← hof] at hstart
  have hstop := position_utf8Length (pre ++ value) post
  rw [← hof, Position.after_append] at hstop
  rw [hstart, hstop]
  exact Position.lt_after _ hvalue

/-- What the positions of an index tell about the byte offsets of a text at which a character begins
or the text ends. -/
structure Locates (index : LineIndex) (text : String) : Prop where
  /-- The line counts the line breaks in front of the offset, and the column the characters behind
  the last of them. -/
  counted : ∀ n, IsBoundary text.toList n → ∃ pre post, text.toList = pre ++ post ∧
    utf8Length pre = n ∧
    index.position n = ⟨pre.count '\n', (pre.rtakeWhile (· != '\n')).length⟩
  /-- Positions are ordered like the offsets. -/
  ordered : ∀ m n, IsBoundary text.toList m → IsBoundary text.toList n →
    (index.position m < index.position n ↔ m < n)
  /-- No position belongs to two offsets. -/
  distinct : ∀ m n, IsBoundary text.toList m → IsBoundary text.toList n →
    index.position m = index.position n → m = n
  /-- Every offset behind the text has the position of its end. -/
  clamped : ∀ n, text.utf8ByteSize ≤ n →
    index.position n = index.position text.utf8ByteSize ∧ IsBoundary text.toList text.utf8ByteSize
  /-- The numbers of a position take no more room than the offset. -/
  bounded : ∀ n, IsBoundary text.toList n →
    (index.position n).line + (index.position n).column ≤ n

/-- An accented letter takes two bytes and one column. -/
example : (ofString "é=\n\n1").position 3 = ⟨0, 2⟩ ∧ (ofString "é=\n\n1").position 99 = ⟨2, 1⟩ := by
  decide +kernel

end LineIndex
end Stencil
