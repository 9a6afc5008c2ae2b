import Stencil.Proofs.Number.Value
import Stencil.Script.Run

/-! # Bounds of slices

A slice runs from one place of an array or a text to another one.  The places are found from numbers
by a rule: the number loses its fraction, one below zero counts from the end, and none lies outside.
The bounds of slices are those of the rule but for a number between minus one and zero.  It counts
from the end before its fraction is lost, and so stands for the end instead of the beginning.
-/
namespace Stencil.Script

/-! ## The rule -/

/-- The place in something of a length that a whole number stands for. -/
def placeOf (length : ℕ) (n : ℤ) : ℕ :=
  if n < 0 then (length + n).toNat else min n.toNat length

/-- The bound that a number stands for by the rule.  What is no number stands for zero. -/
def ruledBound (length : ℕ) (b : Binary) : ℕ :=
  match b.value?, b with
  | some x, _ => placeOf length (Binary.towardZero x)
  | none, .infinite false => length
  | none, _ => 0

/-- A number between minus one and zero, which is zero without its fraction. -/
def IsFractionBelowZero (b : Binary) : Prop := ∃ x, b.value? = some x ∧ -1 < x ∧ x < 0

variable {length : ℕ} {x : ℚ} {b : Binary}

theorem ruledBound_eq (h : b.value? = some x) :
    ruledBound length b = placeOf length (Binary.towardZero x) := by
  simp only [ruledBound, h]

/-- By the rule, a number between minus one and zero stands for the beginning. -/
theorem ruledBound_of_fraction (h : IsFractionBelowZero b) : ruledBound length b = 0 := by
  obtain ⟨x, hx, hlow, hhigh⟩ := h
  have hnonneg : ¬ Binary.towardZero x < 0 := fun h => (Binary.towardZero_neg_iff.mp h).not_gt hlow
  have hnonpos : Binary.towardZero x ≤ 0 := by
    rw [Binary.towardZero, if_pos hhigh, Int.ceil_le]
    exact_mod_cast hhigh.le
  rw [ruledBound_eq hx, placeOf, if_neg hnonneg]
  omega

/-! ## The bounds of slices -/

theorem sliceBound_le (length : ℕ) (x : Float) : sliceBound length x ≤ length := by
  unfold sliceBound
  generalize Binary.ofFloat x = b
  cases b with
  | nan => exact Nat.zero_le _
  | infinite negative => cases negative <;> simp
  | finite negative m q => dsimp only; split <;> omega

/-- The bound that a finite number stands for. -/
theorem sliceBound_of_value? {x : Float} {y : ℚ} (h : (Binary.ofFloat x).value? = some y) :
    sliceBound length x =
      if y < 0 then length - (Binary.ofFloat x).wholePart
      else min (Binary.ofFloat x).wholePart length := by
  unfold sliceBound
  generalize Binary.ofFloat x = b at h ⊢
  cases b with
  | nan | infinite => cases h
  | finite negative m q => simp [Binary.value?_neg_iff h]

/-- A bound is that of the rule, but the end for a number between minus one and zero. -/
theorem sliceBound_eq (length : ℕ) (x : Float) :
    (IsFractionBelowZero (Binary.ofFloat x) → sliceBound length x = length) ∧
    (¬ IsFractionBelowZero (Binary.ofFloat x) →
      sliceBound length x = ruledBound length (Binary.ofFloat x)) := by
  cases hvalue : (Binary.ofFloat x).value? with
  | none =>
    refine ⟨fun ⟨_, h, _⟩ => by simp [hvalue] at h, fun _ => ?_⟩
    unfold sliceBound
    generalize Binary.ofFloat x = b at hvalue ⊢
    cases b with
    | nan => rfl
    | infinite negative => cases negative <;> rfl
    | finite => cases hvalue
  | some y =>
    have hwhole := Binary.towardZero_of_value? hvalue
    have hfraction : IsFractionBelowZero (Binary.ofFloat x) ↔
        ¬ Binary.towardZero y < 0 ∧ y < 0 := by
      simp [IsFractionBelowZero, hvalue, Binary.towardZero_neg_iff]
    rw [hfraction, sliceBound_of_value? hvalue, ruledBound_eq hvalue, placeOf, hwhole]
    by_cases hy : y < 0
    · simp only [hy, if_true, and_true]
      split <;> constructor <;> intro h <;> omega
    · simp only [hy, if_false, and_false, not_false_eq_true, false_imp_iff, true_imp_iff, true_and]
      split <;> omega

/-! ## Slices -/

/-- What stands from one place of a list up to another one. -/
def Between {α : Type} (list : List α) (first stop : ℕ) (part : List α) : Prop :=
  ∃ before behind, list = before ++ part ++ behind ∧ before.length = first ∧
    (before ++ part).length = stop

theorem between_drop_take {α : Type} {list : List α} {first stop : ℕ} (hfirst : first ≤ stop)
    (hstop : stop ≤ list.length) :
    Between list first stop ((list.drop first).take (stop - first)) := by
  have hdrop : list.drop stop = (list.drop first).drop (stop - first) := by
    rw [List.drop_drop, Nat.add_sub_cancel' hfirst]
  refine ⟨list.take first, list.drop stop, ?_, ?_, ?_⟩
  · rw [hdrop, List.append_assoc, List.take_append_drop, List.take_append_drop]
  · exact List.length_take_of_le (hfirst.trans hstop)
  · rw [List.length_append, List.length_take, List.length_take, List.length_drop]
    omega

/-- The bound that an argument stands for: that of the rule, but for `undefined` and for a number
between minus one and zero. -/
structure BoundOf (h : Heap) (length otherwise : ℕ) (v : Value) (bound : ℕ) : Prop where
  left (hv : v = .undefined) : bound = otherwise
  fraction (hv : v ≠ .undefined) (hx : IsFractionBelowZero (Binary.ofFloat (h.number v))) :
    bound = length
  ruled (hv : v ≠ .undefined) (hx : ¬ IsFractionBelowZero (Binary.ofFloat (h.number v))) :
    bound = ruledBound length (Binary.ofFloat (h.number v))

/-- The bound of a slice that an argument stands for. -/
def Heap.boundFor (h : Heap) (length otherwise : ℕ) : Value → ℕ
  | .undefined => otherwise
  | v => sliceBound length (h.number v)

theorem Heap.sliceBounds_eq (h : Heap) (length : ℕ) (start stop : Value) :
    h.sliceBounds length start stop = (h.boundFor length 0 start,
      max (h.boundFor length 0 start) (h.boundFor length length stop)) := rfl

theorem boundOf_boundFor (h : Heap) (length otherwise : ℕ) (v : Value) :
    BoundOf h length otherwise v (h.boundFor length otherwise v) := by
  unfold Heap.boundFor
  split
  case h_1 => exact ⟨fun _ => rfl, fun hv => absurd rfl hv, fun hv => absurd rfl hv⟩
  case h_2 v hv =>
    exact ⟨fun h => absurd h hv, fun _ hx => (sliceBound_eq length _).1 hx,
      fun _ hx => (sliceBound_eq length _).2 hx⟩

theorem boundFor_le (h : Heap) {length otherwise : ℕ} (hotherwise : otherwise ≤ length)
    (v : Value) : h.boundFor length otherwise v ≤ length := by
  unfold Heap.boundFor
  split
  · exact hotherwise
  · exact sliceBound_le length _

theorem boundOf_sliceBounds (h : Heap) (length : ℕ) (start stop : Value) :
    ∃ first last, h.sliceBounds length start stop = (first, max first last) ∧
      BoundOf h length 0 start first ∧ BoundOf h length length stop last ∧
      max first last ≤ length :=
  ⟨_, _, h.sliceBounds_eq length start stop, boundOf_boundFor h length 0 start,
    boundOf_boundFor h length length stop,
    max_le (boundFor_le h (Nat.zero_le length) start) (boundFor_le h le_rfl stop)⟩

section

variable (r : Runner) (values : List Value) (place : ℕ) (m : Machine)

theorem slice_array (array : ℕ) : r.callMethod (.array array) .slice values place m =
    let bounds := m.heap.sliceBounds (m.heap.array array).size (argument values 0)
      (argument values 1)
    newArray ((m.heap.array array).extract bounds.1 bounds.2) m := rfl

theorem slice_string (s : String) : r.callMethod (.string s) .slice values place m =
    let bounds := m.heap.sliceBounds s.length (argument values 0) (argument values 1)
    .ok (.string (String.ofList ((s.toList.drop bounds.1).take (bounds.2 - bounds.1)))) m := rfl

end

/-- A slice of an array or a text is what stands between two places of it.  The bounds are those of
the rule but for a number between minus one and zero, which stands for the end, and the second bound
is raised to the first one. -/
theorem slices_bounded (r : Runner) (m : Machine) (values : List Value) (place : ℕ) :
    (∀ length, ∃ first last,
      m.heap.sliceBounds length (argument values 0) (argument values 1) = (first, max first last) ∧
      BoundOf m.heap length 0 (argument values 0) first ∧
      BoundOf m.heap length length (argument values 1) last ∧
      max first last ≤ length) ∧
    (∀ array, ∃ first stop part,
      m.heap.sliceBounds (m.heap.array array).size (argument values 0) (argument values 1) =
        (first, stop) ∧
      Between (m.heap.array array).toList first stop part ∧
      r.callMethod (.array array) .slice values place m = newArray part.toArray m) ∧
    (∀ s, ∃ first stop part,
      m.heap.sliceBounds s.length (argument values 0) (argument values 1) = (first, stop) ∧
      Between s.toList first stop part ∧
      r.callMethod (.string s) .slice values place m = .ok (.string (String.ofList part)) m) := by
  refine ⟨fun length => boundOf_sliceBounds _ _ _ _, fun array => ?_, fun s => ?_⟩
  · obtain ⟨first, last, hbounds, -, -, hle⟩ :=
      boundOf_sliceBounds m.heap (m.heap.array array).size (argument values 0) (argument values 1)
    refine ⟨first, max first last, _, hbounds,
      between_drop_take (le_max_left first last) (by simpa using hle), ?_⟩
    rw [slice_array, hbounds, ← List.extract_eq_take_drop, ← Array.toList_extract]
  · obtain ⟨first, last, hbounds, -, -, hle⟩ :=
      boundOf_sliceBounds m.heap s.length (argument values 0) (argument values 1)
    refine ⟨first, max first last, _, hbounds, between_drop_take (le_max_left first last) hle, ?_⟩
    rw [slice_string, hbounds]

/-- This slice begins at the end of the text, and by the rule at its beginning. -/
theorem slice_from_fraction :
    Heap.empty.sliceBounds 3 (.number (-0.5)) .undefined = (3, 3) ∧
    ruledBound 3 (Binary.ofFloat (-0.5)) = 0 ∧
    runScript "write('abc'.slice(-0.5));" ⟨"/main.exp", .null⟩ ⟨none⟩ = .ok "" := by
  refine ⟨by decide +kernel, ruledBound_of_fraction ⟨-1 / 2, ?_, by norm_num, by norm_num⟩,
    by decide +kernel⟩
  have hbits : Binary.ofFloat (-0.5) = .finite true (2 ^ 52) (-53) := by decide +kernel
  simp only [hbits, Binary.value?, if_true]
  norm_num

end Stencil.Script
