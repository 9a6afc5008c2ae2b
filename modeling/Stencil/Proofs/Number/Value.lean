import Mathlib.Data.Rat.Floor
import Mathlib.Tactic.Positivity
import Stencil.Number.Binary

/-! # What doubles are worth

A finite double is a rational number.  Its whole part, and whether it is whole, are computed from
its significand and exponent; here they are shown to be those of the number.
-/
namespace Stencil.Binary

/-- The rational number that a finite double is. -/
def value? : Binary → Option ℚ
  | finite negative m q => some (if negative then -(m * 2 ^ q) else m * 2 ^ q)
  | _ => none

/-- A number without its fraction: the next whole number in the direction of zero. -/
def towardZero (x : ℚ) : ℤ := if x < 0 then ⌈x⌉ else ⌊x⌋

theorem towardZero_of_nonneg {x : ℚ} (hx : 0 ≤ x) : towardZero x = ⌊x⌋ := if_neg hx.not_gt

theorem towardZero_neg (x : ℚ) : towardZero (-x) = -towardZero x := by
  unfold towardZero
  rcases lt_trichotomy x 0 with hx | rfl | hx
  · rw [if_neg (by simpa using hx.le), if_pos hx, Int.floor_neg]
  · simp
  · rw [if_pos (by simpa using hx), if_neg hx.not_gt, Int.ceil_neg]

theorem towardZero_intCast (n : ℤ) : towardZero n = n := by
  unfold towardZero
  split
  · exact Int.ceil_intCast n
  · exact Int.floor_intCast n

/-- A number without its fraction is below zero just if the number is not above minus one. -/
theorem towardZero_neg_iff {x : ℚ} : towardZero x < 0 ↔ x ≤ -1 := by
  unfold towardZero
  split
  case isTrue hx =>
    rw [show ⌈x⌉ < 0 ↔ ⌈x⌉ ≤ -1 by omega, Int.ceil_le]
    norm_num
  case isFalse hx =>
    rw [Int.floor_lt]
    constructor <;> intro h
    · exact absurd (by simpa using h) hx
    · linarith

variable {negative : Bool} {m : ℕ} {q : ℤ} {b : Binary} {x : ℚ} {n : ℤ}

theorem magnitude_nonneg (m : ℕ) (q : ℤ) : (0 : ℚ) ≤ m * 2 ^ q :=
  mul_nonneg m.cast_nonneg (zpow_nonneg zero_le_two q)

/-- The whole part is that of the number without its sign. -/
theorem wholePart_finite (negative : Bool) (m : ℕ) (q : ℤ) :
    ((finite negative m q).wholePart : ℤ) = ⌊(m * 2 ^ q : ℚ)⌋ := by
  simp only [wholePart]
  split
  case isTrue hq =>
    obtain ⟨k, rfl⟩ := Int.eq_ofNat_of_zero_le hq
    have hcast : (m * 2 ^ (k : ℤ) : ℚ) = ((m * 2 ^ k : ℕ) : ℤ) := by push_cast; rfl
    rw [hcast, Int.floor_intCast]
    rfl
  case isFalse hq =>
    obtain ⟨k, hk⟩ := Int.eq_ofNat_of_zero_le (show 0 ≤ -q by omega)
    obtain rfl : q = -k := by omega
    have hcast : (m * 2 ^ (-k : ℤ) : ℚ) = (m : ℤ) / ((2 ^ k : ℕ) : ℚ) := by
      rw [zpow_neg, zpow_natCast, div_eq_mul_inv]
      push_cast
      rfl
    rw [hcast, Rat.floor_intCast_div_natCast, neg_neg, Int.toNat_natCast]
    rfl

/-- The number without its fraction is the whole part with the sign of the double. -/
theorem truncated_of_value? (h : b.value? = some x) : b.truncated = towardZero x := by
  cases b with
  | nan | infinite => cases h
  | finite negative m q =>
    have hwhole : ((finite negative m q).wholePart : ℤ) = towardZero (m * 2 ^ q) := by
      rw [wholePart_finite, towardZero_of_nonneg (magnitude_nonneg m q)]
    obtain rfl := Option.some.inj h
    cases negative with
    | false => exact hwhole
    | true => exact (congrArg Neg.neg hwhole).trans (towardZero_neg _).symm

/-- The numbers below zero are those with a minus sign, but for zero itself. -/
theorem value?_neg_iff (h : (finite negative m q).value? = some x) :
    x < 0 ↔ negative = true ∧ m ≠ 0 := by
  obtain rfl := Option.some.inj h
  have hnonneg := magnitude_nonneg m q
  cases negative with
  | false => simpa using hnonneg
  | true =>
    have hpow : (2 : ℚ) ^ q ≠ 0 := zpow_ne_zero q two_ne_zero
    simp only [if_true, neg_lt_zero, hnonneg.lt_iff_ne', true_and]
    simp [hpow]

/-- What is left of a number without its fraction is the whole part with the sign of the number. -/
theorem towardZero_of_value? (h : b.value? = some x) :
    towardZero x = if x < 0 then -(b.wholePart : ℤ) else b.wholePart := by
  rw [← truncated_of_value? h]
  cases b with
  | nan | infinite => cases h
  | finite negative m q =>
    simp only [value?_neg_iff h, truncated, isNegative]
    cases negative with
    | false => rfl
    | true =>
      by_cases hm : m = 0
      · simp [hm, wholePart]
      · simp [hm]

/-- A double is found to be whole if it is. -/
theorem isWhole_of_value? (h : b.value? = some (n : ℚ)) : b.isWhole = true := by
  cases b with
  | nan | infinite => cases h
  | finite negative m q =>
    simp only [isWhole, Bool.or_eq_true, decide_eq_true_eq, beq_iff_eq]
    refine or_iff_not_imp_left.mpr fun hq => ?_
    obtain ⟨k, hk⟩ := Int.eq_ofNat_of_zero_le (show 0 ≤ -q by omega)
    obtain rfl : q = -k := by omega
    have hsize : ((m : ℤ) : ℚ) * 2 ^ (-k : ℤ) = (n.natAbs : ℤ) := by
      have hvalue := Option.some.inj h
      rw [Int.natCast_natAbs, Int.cast_abs, ← hvalue]
      have hnonneg := magnitude_nonneg m (-k)
      cases negative with
      | false => exact (abs_of_nonneg hnonneg).symm
      | true => exact ((abs_neg _).trans (abs_of_nonneg hnonneg)).symm
    have hmul : (m : ℤ) = n.natAbs * 2 ^ k := by
      have hpow : (2 : ℚ) ^ k ≠ 0 := by positivity
      rw [zpow_neg, zpow_natCast, ← div_eq_mul_inv, div_eq_iff hpow] at hsize
      exact_mod_cast hsize
    rw [neg_neg, Int.toNat_natCast]
    have hnat : m = n.natAbs * 2 ^ k := by exact_mod_cast hmul
    exact hnat ▸ Nat.mul_mod_left _ _

end Stencil.Binary
