import Stencil.Proofs.Include.Static
import Stencil.Proofs.Script.Lockstep
import Stencil.Proofs.Script.Writing

/-! # Texts before and during a run

An argument is evaluated to texts from the leaves on, before anything runs; a script evaluates the
same expression to values, and only the last of them becomes a text.  Both end with the same text
as long as no sum adds two numbers, which a script adds as numbers: every part of the expression is
then a text for the script too, or else a numeral, which has the text that it is given before the
run.  Calls that join segments mean nothing to a script.
-/
namespace Stencil.Include
open Script

/-- A numeral, in parentheses or not. -/
def IsNumeral : Expr → Prop
  | .number _ _ => True
  | .paren _ inner => IsNumeral inner
  | _ => False

/-- No part of an expression is a call that joins segments. -/
def JoinsNothing : Expr → Prop
  | .paren _ inner => JoinsNothing inner
  | .binary _ _ left right => JoinsNothing left ∧ JoinsNothing right
  | .call _ callee _ _ => isJoin callee = false
  | _ => True

/-- No part of an expression adds one numeral to another. -/
def AddsTexts : Expr → Prop
  | .paren _ inner => AddsTexts inner
  | .binary _ op left right =>
    AddsTexts left ∧ AddsTexts right ∧ (op = .add → ¬ (IsNumeral left ∧ IsNumeral right))
  | _ => True

/-- How deep the operands of an expression are nested. -/
def nesting : Expr → Nat
  | .paren _ inner => nesting inner + 1
  | .binary _ _ left right => max (nesting left) (nesting right) + 1
  | _ => 1

/-- The value that an expression with a text has in a script: the text, or the number of a
numeral. -/
def StandsFor (e : Expr) (text : String) (value : Value) : Prop :=
  value = .string text ∨ IsNumeral e ∧ ∃ x, value = .number x ∧ numberText x = text

variable {source : List Char} {bound scope : Nat} {m : Machine}

theorem StandsFor.text_eq {e : Expr} {text : String} {value : Value} (h : StandsFor e text value)
    (heap : Heap) : heap.text value = text := by
  rcases h with rfl | ⟨-, x, rfl, rfl⟩
  · rfl
  · rfl

/-- Where one of two values is a text, they are added as texts, if the sum is not too long. -/
theorem addValues_eq {left right : Expr} {first second : String} {a b : Value} (place : Nat)
    (ha : StandsFor left first a) (hb : StandsFor right second b)
    (hsum : ¬ (IsNumeral left ∧ IsNumeral right))
    (hsize : (first ++ second).utf8ByteSize ≤ maxStringLength) :
    addValues a b place m = .ok (.string (first ++ second)) m := by
  have htexts : (a.addsAsNumber && b.addsAsNumber) = false := by
    rcases ha with rfl | ⟨hleft, -⟩
    · rfl
    · rcases hb with rfl | ⟨hright, -⟩
      · simp [Value.addsAsNumber]
      · exact absurd ⟨hleft, hright⟩ hsum
  have hroom : ¬ maxStringLength < first.utf8ByteSize + second.utf8ByteSize := by
    rw [← String.utf8ByteSize_append]
    exact Nat.not_lt.mpr hsize
  have hadd : addValues a b place m =
      (if a.addsAsNumber && b.addsAsNumber then return .number (m.heap.number a + m.heap.number b)
      else if maxStringLength < (m.heap.text a).utf8ByteSize + (m.heap.text b).utf8ByteSize then
        raise .rangeError "Invalid string length" place
      else return .string (m.heap.text a ++ m.heap.text b) : Exec Value) m := rfl
  rw [hadd, htexts, ha.text_eq, hb.text_eq, if_neg (by simp), if_neg hroom]
  rfl

theorem one_le_nesting (e : Expr) : 1 ≤ nesting e := by
  unfold nesting
  split <;> omega

/-- Evaluating an expression with a text ends with a value of that text, and changes nothing. -/
theorem evaluates_to_text (e : Expr) (text : String) (depth : Nat) (hstatic : StaticExpr e text)
    (hjoin : JoinsNothing e) (hsum : AddsTexts e) (hdepth : nesting e ≤ depth)
    (hsize : text.utf8ByteSize ≤ maxStringLength) :
    ∃ value, (Runner.deep source bound depth).expression e scope m = .ok value m ∧
      StandsFor e text value := by
  obtain ⟨depth, rfl⟩ := Nat.exists_eq_add_of_le' (Nat.le_trans (one_le_nesting e) hdepth)
  cases hstatic with
  | string span text => exact ⟨_, rfl, .inl rfl⟩
  | number span x => exact ⟨_, rfl, .inr ⟨trivial, x, rfl, rfl⟩⟩
  | template span text => exact ⟨_, rfl, .inl rfl⟩
  | @paren span inner _ hinner =>
    exact evaluates_to_text inner text depth hinner hjoin hsum (Nat.le_of_succ_le_succ hdepth) hsize
  | @sum span left right first second hleft hright =>
    have hboth : max (nesting left) (nesting right) ≤ depth := Nat.le_of_succ_le_succ hdepth
    have hsizes : first.utf8ByteSize + second.utf8ByteSize ≤ maxStringLength := by
      rwa [String.utf8ByteSize_append] at hsize
    obtain ⟨a, hevala, ha⟩ := evaluates_to_text left first depth hleft hjoin.1 hsum.1
      (Nat.le_trans (Nat.le_max_left _ _) hboth) (by omega)
    obtain ⟨b, hevalb, hb⟩ := evaluates_to_text right second depth hright hjoin.2 hsum.2.1
      (Nat.le_trans (Nat.le_max_right _ _) hboth) (by omega)
    have hadd := addValues_eq (m := m) span.start ha hb (hsum.2.2 rfl) hsize
    refine ⟨.string (first ++ second), ?_, .inl rfl⟩
    show ((Runner.deep source bound depth).expression left scope >>= fun a => do
      let b ← (Runner.deep source bound depth).expression right scope
      addValues a b span.start) m = _
    rw [bind_apply, hevala, goOn, bind_apply, hevalb, goOn, hadd]
  | join span hcallee harguments =>
    have hjoins := hcallee.isJoin
    rw [hjoin] at hjoins
    cases hjoins

/-- **What a script makes of an argument has the text of the argument.** An argument has a text, no
part of it joins segments, none adds one numeral to another, and the text is not longer than a
string of a script may be. Then evaluating its expression in a script, from any scope and any state,
ends normally with a value that has this text, and changes nothing. -/
theorem argumentText_agrees {argument text : String} {e : Expr}
    (hread : readExpression (trimText argument) = .ok e)
    (htext : argumentText argument = .ok text) (hjoin : JoinsNothing e) (hsum : AddsTexts e)
    (hsize : text.utf8ByteSize ≤ maxStringLength) (source : List Char)
    (bound depth scope : Nat) (m : Machine) (hdepth : nesting e ≤ depth) :
    ∃ value, (Runner.deep source bound depth).expression e scope m = .ok value m ∧
      m.heap.text value = text := by
  have hstatic : StaticExpr e text := by
    obtain ⟨_, hsame, hstatic⟩ := ((judges_of_ok hread).accepts text).mp htext
    exact hsame ▸ hstatic
  obtain ⟨value, heval, hvalue⟩ := evaluates_to_text e text depth hstatic hjoin hsum hdepth hsize
  exact ⟨value, heval, hvalue.text_eq m.heap⟩

/-- An argument that adds texts in all their forms, seen from the global scope of a new run. -/
theorem argumentText_agrees_texts :
    argumentText " ('a' + `b`) + (('c'))" = .ok "abc" ∧
      ∃ e value, readExpression "('a' + `b`) + (('c'))" = .ok e ∧
        (Runner.deep [] 0 4).expression e Scopes.globalPlace (.start ⟨none⟩) =
          .ok value (.start ⟨none⟩) ∧ Heap.empty.text value = "abc" := by
  have hread : readExpression (trimText " ('a' + `b`) + (('c'))") = .ok
      (.binary ⟨0, 21⟩ .add
        (.paren ⟨0, 11⟩ (.binary ⟨1, 10⟩ .add (.string ⟨1, 4⟩ "a") (.template ⟨7, 10⟩ ["b"] [])))
        (.paren ⟨14, 21⟩ (.paren ⟨15, 20⟩ (.string ⟨16, 19⟩ "c")))) := by rfl
  have htext : argumentText " ('a' + `b`) + (('c'))" = .ok "abc" := by rfl
  obtain ⟨value, heval, hvalue⟩ := argumentText_agrees hread htext (by simp [JoinsNothing])
    (by simp [AddsTexts, IsNumeral]) (by decide) [] 0 4 Scopes.globalPlace (.start ⟨none⟩)
    (by simp [nesting])
  exact ⟨htext, _, value, hread, heval, hvalue⟩

end Stencil.Include
