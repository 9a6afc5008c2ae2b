import Mathlib.Data.String.Basic
import Stencil.Script.Token
import Stencil.Text.Escape

/-! # Script literals

A text that is written as a script literal is read back as the text, whatever characters it holds.
The characters that mean something inside a literal, and those that break a line, are written as
escapes, each of which stands for one character wherever the literal goes on; all others are read as
they stand.  There are two ways to write a text like this, and no more is asked of either.
-/
namespace Stencil.Script

/-! ## Characters -/

/-- The marks that a string literal stands between. -/
inductive QuoteMark
  | single
  | double
  deriving DecidableEq, Repr

/-- The character that a mark is. -/
def QuoteMark.char : QuoteMark → Char
  | .single => '\''
  | .double => '"'

/-- What is written for each character between two marks is read back as that character, whatever
follows it: the character stands for itself, or an escape stands for it. -/
def ReadsBack (mark : QuoteMark) (written : Char → List Char) : Prop :=
  ∀ c, (written c = [c] ∧ c ≠ '\\' ∧ c ≠ mark.char ∧ c ≠ '\n' ∧ c ≠ '\r') ∨
    ∃ tail, written c = '\\' :: tail ∧
      ∀ rest, readEscape false (tail ++ rest) = some ([c], tail.length)

theorem readsBack_literalChar : ReadsBack .double literalChar := by
  intro c
  unfold literalChar
  split
  case h_9 => exact .inl ⟨rfl, ‹c = '\\' → False›, ‹c = '"' → False›, ‹c = '\n' → False›,
    ‹c = '\r' → False›⟩
  all_goals exact .inr ⟨_, rfl, fun _ => rfl⟩

/-- Text for a script's literal may stand between marks of either kind. -/
theorem readsBack_scriptChar (mark : QuoteMark) : ReadsBack mark scriptChar := by
  intro c
  unfold scriptChar
  split
  case h_10 =>
    refine .inl ⟨rfl, ‹c = '\\' → False›, ?_, ‹c = '\n' → False›, ‹c = '\r' → False›⟩
    cases mark with
    | single => exact ‹c = '\'' → False›
    | double => exact ‹c = '"' → False›
  all_goals exact .inr ⟨_, rfl, fun _ => rfl⟩

section

variable {mark : QuoteMark} {written : Char → List Char} (h : ReadsBack mark written)
include h

theorem ReadsBack.length_le (cs : List Char) : cs.length ≤ (cs.flatMap written).length := by
  induction cs with
  | nil => exact Nat.le_refl 0
  | cons c cs ih =>
    have hone : 1 ≤ (written c).length := by
      rcases h c with ⟨hc, -⟩ | ⟨tail, hc, -⟩ <;> simp [hc]
    rw [List.flatMap_cons, List.length_append, List.length_cons]
    omega

/-- What is written for one character of a text is read as that character. -/
theorem ReadsBack.readStringFrom_char (start : Nat) (done : List Char) (fuel : Nat) (c : Char)
    (offset : Nat) (rest : List Char) (bound : Nat) :
    readStringFrom mark.char start done (fuel + 1) ⟨offset, written c ++ rest, bound⟩ =
      readStringFrom mark.char start (c :: done) fuel
        ⟨offset + (written c).length, rest, bound⟩ := by
  rcases h c with ⟨hwritten, hslash, hquote, hfeed, hreturn⟩ | ⟨tail, hwritten, hread⟩
  · rw [hwritten, List.singleton_append, readStringFrom]
    simp [hquote, hfeed, hreturn, Cursor.next]
  · rw [hwritten, List.cons_append, readStringFrom]
    simp only [hread, Cursor.skip, Nat.add_comm 1, List.drop_succ_cons, List.drop_left,
      List.length_cons, List.reverse_singleton, List.singleton_append]

/-! ## Texts -/

/-- **What is written for a text is read as the text, wherever it stands in a literal**, and the
literal goes on behind it. -/
theorem ReadsBack.readStringFrom_append (start : Nat) (cs done rest : List Char)
    (fuel offset bound : Nat) :
    readStringFrom mark.char start done (fuel + cs.length)
        ⟨offset, cs.flatMap written ++ rest, bound⟩ =
      readStringFrom mark.char start (cs.reverse ++ done) fuel
        ⟨offset + (cs.flatMap written).length, rest, bound⟩ := by
  induction cs generalizing done offset with
  | nil => rfl
  | cons c cs ih =>
    rw [List.flatMap_cons, List.append_assoc, List.length_cons, ← Nat.add_assoc,
      h.readStringFrom_char, ih]
    simp [Nat.add_assoc]

/-- The literal of a text is read back as the text. -/
theorem ReadsBack.readString_literal (text : String) (offset : Nat) (rest : List Char) {bound : Nat}
    (hbound : text.length < bound) :
    let stop := offset + 1 + (text.toList.flatMap written).length + 1
    readString mark.char
        ⟨offset, mark.char :: (text.toList.flatMap written ++ mark.char :: rest), bound⟩ =
      .ok (.string text, ⟨stop, rest, bound⟩) := by
  obtain ⟨fuel, rfl⟩ := Nat.exists_eq_add_of_lt hbound
  have hcount : text.length + fuel + 1 = fuel + 1 + text.toList.length := by
    rw [String.length_toList]
    omega
  have hclose : mark.char ≠ '\\' := by cases mark <;> decide
  show readStringFrom mark.char offset [] (text.length + fuel + 1)
    ⟨offset + 1, text.toList.flatMap written ++ mark.char :: rest, _⟩ = _
  rw [hcount, h.readStringFrom_append, readStringFrom]
  simp [Cursor.next]

end

/-- A quoted literal is one token, whose value is the text. -/
theorem ReadsBack.readToken_literal {mark : QuoteMark} {written : Char → List Char}
    (h : ReadsBack mark written) (text : String) (offset : Nat) (rest : List Char) {bound : Nat}
    (hbound : text.length < bound) :
    let stop := offset + 1 + (text.toList.flatMap written).length + 1
    readToken ⟨offset, mark.char :: (text.toList.flatMap written ++ mark.char :: rest), bound⟩ =
      .ok (.string text, ⟨stop, rest, bound⟩) := by
  cases mark with
  | single => exact h.readString_literal text offset rest hbound
  | double => exact h.readString_literal text offset rest hbound

end Stencil.Script
