import Stencil.Proofs.Text.Mark

/-! # Places beside the lines of a text

Marks are compared by line and column, and the marks of a text are those of its characters.  Between
the beginning of a text and its end there are more places than these: in front of the first column
of a line, and behind the line break at the end of a line.
-/
namespace Stencil.Mark

/-- A place that stands beside a line of a text which begins at a mark. -/
inductive Beside (start : Mark) (cs : List Char) (p : Mark) : Prop
  | front (hcolumn : p.column = 0) (hfirst : start.line < p.line)
    (hlast : p.line ≤ (start.after cs).line)
  | behind {pre post : List Char} (hcs : cs = pre ++ '\n' :: post)
    (hline : (start.after pre).line = p.line) (hcolumn : (start.after pre).column < p.column)

variable {start p : Mark} {cs : List Char}

theorem column_advance_pos {m : Mark} (h : 1 ≤ m.column) (c : Char) :
    1 ≤ (m.advance c).column := by
  rw [advance]
  split
  · exact Nat.le_refl 1
  · exact Nat.le_succ_of_le h

theorem column_after_pos {m : Mark} (h : 1 ≤ m.column) (cs : List Char) :
    1 ≤ (m.after cs).column := by
  induction cs generalizing m with
  | nil => exact h
  | cons c cs ih => exact ih (column_advance_pos h c)

theorem advance_newline (m : Mark) : m.advance '\n' = ⟨m.line + 1, 1⟩ := rfl

theorem advance_of_ne (m : Mark) {c : Char} (h : c ≠ '\n') :
    m.advance c = ⟨m.line, m.column + 1⟩ := if_neg h

/-- What stands beside a line of a text does so with one more character in front of the text. -/
theorem Beside.cons {c : Char} (h : Beside (start.advance c) cs p) : Beside start (c :: cs) p := by
  cases h with
  | front hcolumn hfirst hlast =>
    refine .front hcolumn (Nat.lt_of_le_of_lt ?_ hfirst) hlast
    rw [advance]
    split
    · exact Nat.le_succ start.line
    · exact Nat.le_refl start.line
  | @behind pre post hcs hline hcolumn =>
    have hsplit : c :: cs = (c :: pre) ++ '\n' :: post := by
      rw [hcs]
      rfl
    exact .behind hsplit hline hcolumn

/-- A place behind the mark of a character stands behind that of the next one as well, unless it
stands beside the line. -/
theorem upTo_advance_or_beside {c : Char} (hbehind : start.before p = true)
    (hlast : p.line ≤ (start.after (c :: cs)).line) :
    (start.advance c).upTo p = true ∨ Beside start (c :: cs) p := by
  rw [before_iff] at hbehind
  by_cases hc : c = '\n'
  · subst hc
    rw [advance_newline, upTo_iff]
    by_cases hline : start.line = p.line
    · have hcolumn : start.column < p.column := by omega
      exact .inr (.behind (List.nil_append _).symm hline hcolumn)
    · by_cases hcolumn : p.column = 0
      · exact .inr (.front hcolumn (by omega) hlast)
      · left
        show start.line + 1 < p.line ∨ start.line + 1 = p.line ∧ 1 ≤ p.column
        omega
  · left
    rw [advance_of_ne start hc, upTo_iff]
    show start.line < p.line ∨ start.line = p.line ∧ start.column + 1 ≤ p.column
    omega

/-- A place between the beginning of a text and its end is that of a character, or it stands beside
a line. -/
theorem mem_along_or_beside (hfirst : start.upTo p = true)
    (hlast : p.before (start.after cs) = true) : p ∈ start.along cs ∨ Beside start cs p := by
  induction cs generalizing start with
  | nil => exact absurd hfirst (not_upTo_iff.mpr hlast)
  | cons c cs ih =>
    rcases eq_or_before_of_upTo hfirst with rfl | hbehind
    · exact .inl List.mem_cons_self
    · have hline : p.line ≤ (start.after (c :: cs)).line := by
        have hle := upTo_of_before hlast
        rw [upTo_iff] at hle
        omega
      rcases upTo_advance_or_beside hbehind hline with hnext | hbeside
      · rcases ih hnext hlast with halong | hbeside
        · exact .inl (List.mem_cons_of_mem _ halong)
        · exact .inr hbeside.cons
      · exact .inr hbeside

/-- What stands beside a line stands between the beginning of the text and its end. -/
theorem Beside.between (h : Beside start cs p) (hcolumn : 1 ≤ start.column) :
    start.upTo p = true ∧ p.before (start.after cs) = true := by
  cases h with
  | front hzero hfirst hlast =>
    have hpos := column_after_pos hcolumn cs
    rw [upTo_iff, before_iff]
    omega
  | @behind pre post hcs hline hbehind =>
    have hle : (start.after pre).upTo p = true := upTo_iff.mpr (.inr ⟨hline, Nat.le_of_lt hbehind⟩)
    have hbefore : p.before ((start.after pre).advance '\n') = true := by
      rw [advance_newline, before_iff]
      exact .inl (Nat.lt_succ_of_le (Nat.le_of_eq hline.symm))
    refine ⟨upTo_trans (upTo_after start pre) hle, ?_⟩
    rw [hcs, after_append, after_cons]
    exact before_of_before_of_upTo hbefore (upTo_after _ post)

/-- **The places between the beginning of a text and its end** are those of its characters and those
beside its lines. -/
theorem between_iff (hcolumn : 1 ≤ start.column) :
    start.upTo p = true ∧ p.before (start.after cs) = true ↔
      p ∈ start.along cs ∨ Beside start cs p := by
  constructor
  · rintro ⟨hfirst, hlast⟩
    exact mem_along_or_beside hfirst hlast
  · rintro (halong | hbeside)
    · exact mem_along halong
    · exact hbeside.between hcolumn

/-- No character stands beside a line. -/
theorem Beside.not_mem_along (h : Beside start cs p) (hcolumn : 1 ≤ start.column) :
    p ∉ start.along cs := by
  intro hmem
  cases h with
  | front hzero hfirst hlast =>
    obtain ⟨i, hi, rfl⟩ := List.getElem_of_mem hmem
    have hpos := column_after_pos hcolumn (cs.take i)
    rw [getElem_along] at hzero
    omega
  | @behind pre post hcs hline hbehind =>
    rw [hcs, along_append, along, List.mem_append, List.mem_cons, advance_newline] at hmem
    rcases hmem with hmem | rfl | hmem
    · have hbefore := (mem_along hmem).2
      rw [before_iff] at hbefore
      omega
    · exact absurd hbehind (Nat.lt_irrefl _)
    · have hle := (mem_along hmem).1
      rw [upTo_iff] at hle
      have hnext : (start.after pre).line + 1 ≤ p.line := by
        rcases hle with hlt | ⟨heq, -⟩
        · exact Nat.le_of_lt hlt
        · exact Nat.le_of_eq heq
      omega

end Stencil.Mark
