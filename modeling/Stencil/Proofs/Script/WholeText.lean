import Stencil.Proofs.Number.Value
import Stencil.Proofs.Include.Static
import Stencil.Proofs.Script.StringLength

/-! # How whole numbers are shown

A number becomes a text in one way, wherever it is written, joined to a text, used as a key or said
in an argument of a directive.  The text of a whole number is made of a number of 64 bits with
a sign.  So it has the decimal digits of the number if 64 bits can hold it; below `10 ^ 21` all
others are shown as the nearest number that 64 bits can hold.
-/
namespace Stencil

/-! ## Decimal digits -/

/-- The decimal digits of a whole number, behind a minus sign if it is negative. -/
def decimalText (n : ℤ) : String := signText (n < 0) ++ n.natAbs.repr

theorem toString_eq_decimalText (n : ℤ) : toString n = decimalText n := by
  rw [Int.toString_eq_repr, Int.repr_eq_if, decimalText, signText]
  split
  case isTrue hn =>
    rw [if_neg (by simpa using hn), String.empty_append]
    congr 1
    omega
  case isFalse hn =>
    rw [if_pos (by simpa using hn)]
    congr 2
    omega

/-- The whole number that digits behind an optional minus sign stand for. -/
def digitsNumber : List Char → ℤ
  | '-' :: digits => -(Nat.ofDigitChars 10 digits 0)
  | digits => Nat.ofDigitChars 10 digits 0

theorem digitsNumber_digits (n : ℕ) : digitsNumber (Nat.toDigits 10 n) = n := by
  unfold digitsNumber
  split
  case h_1 digits hdigits =>
    have hmark : '-' ∈ Nat.toDigits 10 n := hdigits ▸ List.mem_cons_self
    exact absurd (Nat.isDigit_of_mem_toDigits (by decide) (by decide) hmark) (by decide)
  case h_2 => rw [Nat.ofDigitChars_ten_toDigits]

/-- The digits of a number stand for it. -/
theorem digitsNumber_decimalText (n : ℤ) : digitsNumber (decimalText n).toList = n := by
  unfold decimalText signText
  rw [String.toList_append, Nat.repr_eq_ofList_toDigits, String.toList_ofList]
  by_cases hn : n < 0
  · rw [decide_eq_true hn]
    show -((Nat.ofDigitChars 10 (Nat.toDigits 10 n.natAbs) 0 : ℕ) : ℤ) = n
    rw [Nat.ofDigitChars_ten_toDigits]
    omega
  · rw [decide_eq_false hn]
    show digitsNumber (Nat.toDigits 10 n.natAbs) = n
    rw [digitsNumber_digits]
    omega

theorem decimalText_injective : Function.Injective decimalText := fun n k h => by
  rw [← digitsNumber_decimalText n, h, digitsNumber_decimalText]

/-! ## Texts of whole numbers -/

/-- A double is a whole number. -/
def IsWholeNumber (x : Float) (n : ℤ) : Prop := (Binary.ofFloat x).value? = some (n : ℚ)

variable {x : Float} {n : ℤ}

/-- The text of a whole number that is not too large is that of the nearest one that 64
bits can hold. -/
theorem numberText_of_whole (hx : IsWholeNumber x n) (hn : |n| < 10 ^ 21) :
    numberText x = decimalText (clampInt64 n) := by
  have htruncated : (Binary.ofFloat x).truncated = n :=
    (Binary.truncated_of_value? hx).trans (Binary.towardZero_intCast n)
  have hwhole := Binary.isWhole_of_value? hx
  have hpart : ((Binary.ofFloat x).wholePart : ℤ) = |n| := by
    rw [← htruncated, Binary.truncated]
    split <;> simp
  unfold IsWholeNumber at hx
  unfold numberText
  cases hbits : Binary.ofFloat x with
  | nan | infinite => rw [hbits] at hx; cases hx
  | finite negative m q =>
    rw [hbits] at hwhole hpart htruncated
    have hsmall : (Binary.finite negative m q).wholePart < Nat.pow 10 21 := by
      have hbound : ((Binary.finite negative m q).wholePart : ℤ) < 10 ^ 21 := hpart ▸ hn
      exact_mod_cast hbound
    simp only [hwhole, htruncated, hsmall, Bool.true_and, decide_true, if_true, beq_iff_eq]
    split
    case isTrue hm =>
      have hzero : (Binary.finite negative m q).wholePart = 0 := by
        simp [hm, Binary.wholePart]
      obtain rfl : n = 0 := by simpa [hzero] using hpart.symm
      rfl
    case isFalse hm => exact toString_eq_decimalText _

/-- A whole number that 64 bits with a sign can hold. -/
def IsInt64 (n : ℤ) : Prop := -2 ^ 63 ≤ n ∧ n < 2 ^ 63

theorem IsInt64.clampInt64_eq (h : IsInt64 n) : clampInt64 n = n := by
  unfold IsInt64 at h
  unfold clampInt64
  omega

theorem IsInt64.abs_small (h : IsInt64 n) : |n| < 10 ^ 21 := by
  unfold IsInt64 at h
  rw [abs_lt]
  omega

namespace Script

/-! ## Where numbers are shown -/

/-- Wherever a number becomes a text, it becomes this one. -/
structure ShownAs (x : Float) (text : String) : Prop where
  converted (h : Heap) : h.text (.number x) = text
  written (m : Machine) :
    callNative .write [.number x] m = .ok .undefined { m with output := m.output ++ text }
  joinedLeft (s : String) : addValues (.number x) (.string s) = addValues (.string text) (.string s)
  joinedRight (s : String) :
    addValues (.string s) (.number x) = addValues (.string s) (.string text)
  /-- A computed key is read as the member of that name. -/
  key (r : Runner) (owner key : Expr) (scope : Nat) (v : Value) (m m' m'' : Machine) :
    r.expression owner scope m = .ok v m' → r.expression key scope m' = .ok (.number x) m'' →
      r.index owner key false scope m = getMember v text key.span.start m''
  /-- A field of an object literal with a computed key has that name. -/
  field (r : Runner) (key e : Expr) (scope : Nat) (v : Value) (m m' m'' : Machine) :
    r.expression key scope m = .ok (.number x) m' → r.expression e scope m' = .ok v m'' →
      r.members scope [] [.field key e] m = .ok [(text, v)] m''
  /-- A numeral is an argument of a directive. -/
  stated (argument : String) (span : Span) :
    readExpression (trimText argument) = .ok (.number span x) →
      Include.argumentText argument = .ok text

/-- An expression with a number as its value has the text of the number. -/
theorem Runner.textOf_number {r : Runner} {e : Expr} {scope : Nat} {x : Float} {m m' : Machine}
    (h : r.expression e scope m = .ok (.number x) m') :
    r.textOf e scope m = .ok (numberText x) m' := by
  rw [Runner.textOf, bind_apply, h]
  rfl

/-- Sums that are made of the same texts are the same. -/
theorem addValues_congr {a b c d : Value} (h : (TextOperation.sum a b).Applies)
    (h' : (TextOperation.sum c d).Applies) (hleft : ∀ heap : Heap, heap.text a = heap.text c)
    (hright : ∀ heap : Heap, heap.text b = heap.text d) : addValues a b = addValues c d := by
  funext place m
  rw [addValues_apply h, addValues_apply h', hleft, hright]

theorem shownAs_numberText (x : Float) : ShownAs x (numberText x) where
  converted _ := rfl
  written _ := rfl
  joinedLeft _ := addValues_congr rfl rfl (fun _ => rfl) fun _ => rfl
  joinedRight _ := addValues_congr rfl rfl (fun _ => rfl) fun _ => rfl
  key r owner key scope v m m' m'' howner hkey := by
    rw [Runner.index, bind_apply, howner]
    show ((r.textOf key scope >>= fun name => getMember v name key.span.start) : Exec Value) m' = _
    rw [bind_apply, Runner.textOf_number hkey]
    rfl
  field r key e scope v m m' m'' hkey he := by
    rw [Runner.members, bind_apply, Runner.textOf_number hkey]
    show ((r.expression e scope >>= fun value =>
      r.members scope (Fields.set (numberText x) value []) []) : Exec Fields) m' = _
    rw [bind_apply, he]
    rfl
  stated argument span h := by
    have hne : trimText argument ≠ "" := fun hempty =>
      Include.readExpression_empty _ (hempty ▸ h)
    simp only [Include.argumentText, String.isEmpty_iff, hne, h, if_false]
    rfl

/-- Whole numbers below `10 ^ 21` are shown by their decimal digits, and different ones differently,
if 64 bits can hold them.  The others are all shown as the nearest number that 64 bits can hold. -/
theorem whole_numbers_shown (x : Float) (n : ℤ) (hx : IsWholeNumber x n) (hn : |n| < 10 ^ 21) :
    (IsInt64 n → ShownAs x (decimalText n) ∧
      ∀ y k, IsWholeNumber y k → IsInt64 k → numberText x = numberText y → n = k) ∧
    (n < -2 ^ 63 → ShownAs x (decimalText (-2 ^ 63))) ∧
    (2 ^ 63 ≤ n → ShownAs x (decimalText (2 ^ 63 - 1))) := by
  have hshown : ShownAs x (decimalText (clampInt64 n)) :=
    numberText_of_whole hx hn ▸ shownAs_numberText x
  refine ⟨fun hword => ⟨?_, fun y k hy hk h => ?_⟩, fun hlow => ?_, fun hhigh => ?_⟩
  · rwa [hword.clampInt64_eq] at hshown
  · rw [numberText_of_whole hx hn, numberText_of_whole hy hk.abs_small, hword.clampInt64_eq,
      hk.clampInt64_eq] at h
    exact decimalText_injective h
  · rwa [show clampInt64 n = -2 ^ 63 by unfold clampInt64; omega] at hshown
  · rwa [show clampInt64 n = 2 ^ 63 - 1 by unfold clampInt64; omega] at hshown

/-- The least number that 64 bits can hold is written as it is. -/
theorem whole_numbers_shown_least :
    IsWholeNumber (-9223372036854775808.0) (-9223372036854775808) ∧
    ShownAs (-9223372036854775808.0) "-9223372036854775808" := by
  have hx : IsWholeNumber (-9223372036854775808.0) (-9223372036854775808) := by
    have hbits : Binary.ofFloat (-9223372036854775808.0) = .finite true (2 ^ 52) 11 := by
      decide +kernel
    simp only [IsWholeNumber, hbits, Binary.value?, if_true]
    norm_num
  exact ⟨hx, ((whole_numbers_shown _ _ hx (by norm_num)).1 ⟨by norm_num, by norm_num⟩).1⟩

/-- A script writes the digits of a number below `10 ^ 21`, and others are written. -/
theorem large_number_misprinted :
    IsWholeNumber 10000000000000000000.0 10000000000000000000 ∧
    |(10000000000000000000 : ℤ)| < 10 ^ 21 ∧
    runScript "write(10000000000000000000);" ⟨"/main.exp", .null⟩ ⟨none⟩ =
      .ok "9223372036854775807" ∧
    numberText 10000000000000000000.0 = numberText 20000000000000000000.0 := by
  refine ⟨?_, by norm_num, by decide +kernel, by decide +kernel⟩
  have hbits : Binary.ofFloat 10000000000000000000.0 =
      .finite false 4882812500000000 11 := by
    decide +kernel
  simp only [IsWholeNumber, hbits, Binary.value?, if_false, Bool.false_eq_true]
  norm_num

end Script

end Stencil
