import Mathlib
import Stencil.Proofs.Number.Value

/-! # Small whole numbers as doubles

Lengths and offsets are counted by doubles.  Below `2 ^ 53` nothing is lost: the double of a natural
number is worth that number, sums are exact, and comparisons are those of natural numbers.
-/
namespace Stencil

open Float.Model Float.Model.UnpackedFloat

/-! ## The bits of a double -/

/-- What an unpacked double is. -/
def Binary.ofUnpacked : UnpackedFloat → Binary
  | .infinity sign => .infinite (sign == .negative)
  | .notANumber => .nan
  | .zero sign => .finite (sign == .negative) 0 (-1074)
  | .finite sign m e _ => .finite (sign == .negative) m e

section

variable (b : BitVec Format.binary64.numBits)

theorem toNat_unpackExponent : (unpackExponent b).toNat = b.toNat / 2 ^ 52 % 2 ^ 11 := by
  simp [unpackExponent, Nat.shiftRight_eq_div_pow]

theorem toNat_unpackMantissa : (unpackMantissa b).toNat = b.toNat % 2 ^ 52 := by
  simp [unpackMantissa]

theorem unpackSign_eq : (Sign.ofBitVec (unpackSign b) == .negative) = (b.toNat / 2 ^ 63 == 1) := by
  have hsign : (unpackSign b).toNat = b.toNat / 2 ^ 63 := by
    have hb : b.toNat < 2 ^ 64 := b.isLt
    simp only [unpackSign, BitVec.toNat_cast, BitVec.extractLsb_toNat, Nat.shiftRight_eq_div_pow]
    omega
  rw [← hsign]
  generalize unpackSign b = sign
  revert sign
  decide

theorem toNat_implicit (fraction : BitVec 52) :
    (1#1 ++ fraction).toNat = fraction.toNat + 2 ^ 52 := by
  rw [BitVec.toNat_append, ← Nat.shiftLeft_add_eq_or_of_lt fraction.isLt, Nat.add_comm]
  rfl

/-- What bits are unpacked to, read off their number. -/
theorem ofUnpacked_unpack :
    Binary.ofUnpacked (UnpackedFloat.unpack .binary64 b) =
      if b.toNat / 2 ^ 52 % 2 ^ 11 = 2047 then
        if b.toNat % 2 ^ 52 = 0 then .infinite (b.toNat / 2 ^ 63 == 1) else .nan
      else if b.toNat / 2 ^ 52 % 2 ^ 11 = 0 then
        .finite (b.toNat / 2 ^ 63 == 1) (b.toNat % 2 ^ 52) (-1074)
      else
        .finite (b.toNat / 2 ^ 63 == 1) (b.toNat % 2 ^ 52 + 2 ^ 52)
          ((b.toNat / 2 ^ 52 % 2 ^ 11 : ℕ) - 1075) := by
  have hspecial : unpackExponent b = -1#_ ↔ (unpackExponent b).toNat = 2047 := by
    rw [← BitVec.toNat_inj]
    rfl
  have hsmall : unpackExponent b = 0#_ ↔ (unpackExponent b).toNat = 0 := by
    rw [← BitVec.toNat_inj]
    rfl
  have hwhole : unpackMantissa b = 0#_ ↔ (unpackMantissa b).toNat = 0 := by
    rw [← BitVec.toNat_inj]
    rfl
  have hbias : (Format.binary64.exponentBias : ℤ) + (52 : ℕ) = 1075 := rfl
  rw [← toNat_unpackExponent, ← toNat_unpackMantissa, ← unpackSign_eq]
  unfold UnpackedFloat.unpack
  simp only [hspecial, hsmall, hwhole, hbias]
  split
  · split <;> rfl
  · split
    case isTrue hzero =>
      split
      case isTrue hfraction => simp [Binary.ofUnpacked, hfraction]
      case isFalse => simp [Binary.ofUnpacked, hzero]
    case isFalse => simp only [Binary.ofUnpacked, toNat_implicit]

end

/-- The bits of a double spell what the double is unpacked to. -/
theorem Binary.ofFloat_eq_ofUnpacked (x : Float) :
    Binary.ofFloat x = Binary.ofUnpacked x.toModel.unpack := by
  rw [Float.Model.unpack, ofUnpacked_unpack]
  unfold Binary.ofFloat
  simp only [beq_iff_eq]
  rfl

/-- A double with all bits of its significand is unpacked to what it was packed from. -/
theorem unpack_pack_finite {sign : Sign} {m : ℕ} {e : ℤ} (hpos : 0 < m) (hm : m.log2 = 52)
    (hlow : -1074 ≤ e) (hhigh : e ≤ 971) :
    (Float.Model.pack (.finite sign m e hpos)).unpack = .finite sign m e hpos := by
  have hbounds := (Nat.log2_eq_iff hpos.ne').mp hm
  have hexponent : (BitVec.ofNat 11 (e + 1075).toNat).toNat = (e + 1075).toNat := by
    rw [BitVec.toNat_ofNat, Nat.mod_eq_of_lt (by omega)]
  have hfraction : (BitVec.ofNat 52 m).toNat = m - 2 ^ 52 := by
    rw [BitVec.toNat_ofNat]
    omega
  have hpack : UnpackedFloat.pack .binary64 (.finite sign m e hpos) =
      packComponents .binary64 sign (BitVec.ofNat 11 (e + 1075).toNat) (BitVec.ofNat 52 m) := by
    have hbias : e + Format.binary64.exponentBias + Format.binary64.mantissaBitsWithoutImplicit =
        e + 1075 := by
      show e + 1023 + 52 = e + 1075
      omega
    simp only [UnpackedFloat.pack, hbias, hm]
    rw [if_neg (by omega), if_pos (show 52 + 1 = Format.binary64.mantissaBits from rfl)]
  have hspecial : BitVec.ofNat 11 (e + 1075).toNat ≠ -1#11 := fun h => by
    have hones : (e + 1075).toNat = 2047 := hexponent.symm.trans (congrArg BitVec.toNat h)
    omega
  have hsmall : BitVec.ofNat 11 (e + 1075).toNat ≠ 0#11 := fun h => by
    have hnone : (e + 1075).toNat = 0 := hexponent.symm.trans (congrArg BitVec.toNat h)
    omega
  have hvalue : ((e + 1075).toNat : ℤ) - (Format.binary64.exponentBias + (52 : ℕ)) = e := by
    show ((e + 1075).toNat : ℤ) - 1075 = e
    omega
  show UnpackedFloat.unpack .binary64 (UnpackedFloat.pack .binary64 (.finite sign m e hpos)) = _
  rw [hpack]
  unfold UnpackedFloat.unpack
  simp only [unpackMantissa_packComponents, unpackExponent_packComponents,
    unpackSign_packComponents, Sign.ofBitVec_toBitVec, hspecial, hsmall, if_false, toNat_implicit,
    hexponent, hfraction, hvalue]
  congr 1
  omega

/-! ## Rounding what needs no rounding -/

theorem repeat_shiftRightOne (m k : ℕ) :
    Nat.repeat ExtendedMantissa.shiftRightOne k ⟨m * 2 ^ k, false, false⟩ = ⟨m, false, false⟩ := by
  induction k generalizing m with
  | zero => simp [Nat.repeat]
  | succ k ih =>
    have hm : m * 2 ^ (k + 1) = m * 2 * 2 ^ k := by ring
    rw [Nat.repeat, hm, ih]
    simp [ExtendedMantissa.shiftRightOne]

theorem log2_mul_two_pow {n : ℕ} (hn : n ≠ 0) (k : ℕ) : (n * 2 ^ k).log2 = n.log2 + k := by
  induction k with
  | zero => simp
  | succ k ih =>
    have hne : n * 2 ^ k ≠ 0 := by positivity
    rw [show n * 2 ^ (k + 1) = 2 * (n * 2 ^ k) by ring, Nat.log2_two_mul hne, ih]
    rfl

/-- Bits below the significand are dropped without loss if there are none. -/
theorem shiftToTargetExponent_eq {n k j : ℕ} {e : ℤ}
    (h : (Format.binary64.targetExponent (totalExponent (n * 2 ^ (k + j)) e) - e).toNat = j) :
    shiftToTargetExponent .binary64 (n * 2 ^ (k + j)) e .exact =
      (⟨n * 2 ^ k, false, false⟩, e + j) := by
  unfold shiftToTargetExponent shiftToExponent
  simp only [h]
  show (Nat.repeat ExtendedMantissa.shiftRightOne j ⟨n * 2 ^ (k + j), false, false⟩, _) = _
  rw [show n * 2 ^ (k + j) = n * 2 ^ k * 2 ^ j by ring, repeat_shiftRightOne]

/-- A number that fits into a significand is not rounded. -/
theorem roundWithAccuracy_eq {n k j : ℕ} {e : ℤ} (sign : Sign) (hn : n ≠ 0)
    (hk : n.log2 + k = 52) (hlow : -1074 ≤ e + j) :
    roundWithAccuracy .binary64 sign (n * 2 ^ (k + j)) e .exact =
      .finite sign (n * 2 ^ k) (e + j)
        (Nat.mul_pos (Nat.pos_of_ne_zero hn) (Nat.two_pow_pos k)) := by
  have htarget : ∀ total : ℤ, Format.binary64.targetExponent total = max (total - 53) (-1074) :=
    fun _ => rfl
  have hfirst : (Format.binary64.targetExponent (totalExponent (n * 2 ^ (k + j)) e) - e).toNat =
      j := by
    rw [htarget, totalExponent, log2_mul_two_pow hn]
    push_cast
    omega
  have hsecond : (Format.binary64.targetExponent (totalExponent (n * 2 ^ (k + 0)) (e + j)) -
      (e + j)).toNat = 0 := by
    rw [htarget, totalExponent, log2_mul_two_pow hn]
    push_cast
    omega
  unfold roundWithAccuracy
  rw [shiftToTargetExponent_eq hfirst]
  show (match shiftToTargetExponent .binary64 (n * 2 ^ (k + 0)) (e + j) .exact with
    | (em, e') => if h : em.mantissa = 0 then UnpackedFloat.zero sign else
      UnpackedFloat.finite sign em.mantissa e' (Nat.pos_of_ne_zero h)) = _
  rw [shiftToTargetExponent_eq hsecond]
  have hne : n * 2 ^ k ≠ 0 := by positivity
  simp [hne]

/-! ## Doubles of natural numbers -/

/-- The natural number `n` as a double that is unpacked, if it is less than `2 ^ 53`. -/
def unpackedNat (n : ℕ) : UnpackedFloat :=
  if h : n = 0 then .zero .positive
  else .finite .positive (n * 2 ^ (52 - n.log2)) (n.log2 - 52)
    (Nat.mul_pos (Nat.pos_of_ne_zero h) (Nat.two_pow_pos _))

section

variable {n a b : ℕ}

theorem log2_le_of_lt (hn : n < 2 ^ 53) : n.log2 ≤ 52 := by
  by_cases h : n = 0
  · simp [h]
  · exact Nat.le_of_lt_succ ((Nat.log2_lt h).mpr hn)

theorem unpack_pack_unpackedNat (hn : n < 2 ^ 53) :
    (Float.Model.pack (unpackedNat n)).unpack = unpackedNat n := by
  have hlog := log2_le_of_lt hn
  unfold unpackedNat
  split
  case isTrue => rfl
  case isFalse h =>
    refine unpack_pack_finite _ ?_ (by omega) (by omega)
    rw [log2_mul_two_pow h]
    omega

/-- A natural number in units of a power of two is rounded to its double. -/
theorem round_eq_unpackedNat (hn : n ≠ 0) (hlt : n < 2 ^ 53) (k : ℕ) :
    UnpackedFloat.round .binary64 .positive (n * 2 ^ k) (-k) = unpackedNat n := by
  have hlog := log2_le_of_lt hlt
  have htarget : Format.binary64.targetExponent (totalExponent (n * 2 ^ k) (-k)) =
      n.log2 - 52 := by
    show max ((((n * 2 ^ k).log2 + 1 : ℕ) : ℤ) + -k - 53) (-1074) = _
    rw [log2_mul_two_pow hn]
    push_cast
    omega
  -- the significand gets `52 - n.log2` bits more; `k` of them are there, or some too many
  have hshift : (-(k : ℤ) - (n.log2 - 52)).toNat = 52 - n.log2 - k := by omega
  have hbits : (n * 2 ^ k) <<< (52 - n.log2 - k) = n * 2 ^ (52 - n.log2 + (k - (52 - n.log2))) := by
    rw [Nat.shiftLeft_eq, Nat.mul_assoc, ← Nat.pow_add]
    congr 2
    omega
  unfold UnpackedFloat.round unpackedNat decreaseExponent
  rw [dif_neg hn]
  simp only [htarget, hshift, hbits]
  rw [roundWithAccuracy_eq _ hn (by omega) (by omega)]
  congr 1
  omega

theorem normalize_eq_unpackedNat (hn : n < 2 ^ 53) (k : ℕ) :
    UnpackedFloat.normalize .binary64 (n * 2 ^ k : ℕ) (-k) .positive = unpackedNat n := by
  by_cases h : n = 0
  · simp [h, UnpackedFloat.normalize, unpackedNat]
  · have hpos : 0 < n * 2 ^ k := by positivity
    have hcompare : compare ((n * 2 ^ k : ℕ) : ℤ) 0 = .gt := by
      rw [compare_gt_iff_gt]
      exact_mod_cast hpos
    simp only [UnpackedFloat.normalize, hcompare, Int.toNat_natCast]
    exact round_eq_unpackedNat h hn k

/-- Multiplying by one changes nothing. -/
theorem mul_one_unpackedNat (hn : n < 2 ^ 53) :
    UnpackedFloat.mul .binary64 (unpackedNat n) (unpackedNat 1) = unpackedNat n := by
  have hlog := log2_le_of_lt hn
  have hone : unpackedNat 1 = .finite .positive (2 ^ 52) (-52) (by positivity) := rfl
  rw [hone]
  unfold unpackedNat
  split
  case isTrue => rfl
  case isFalse h =>
    have hmantissa : n * 2 ^ (52 - n.log2) * 2 ^ 52 = n * 2 ^ (52 - n.log2 + 52) := by ring
    show roundWithAccuracy .binary64 .positive (n * 2 ^ (52 - n.log2) * 2 ^ 52)
      (n.log2 - 52 + -52) .exact = _
    rw [hmantissa, roundWithAccuracy_eq _ h (by omega) (by omega)]
    congr 1
    omega

/-- The double of a natural number below `2 ^ 53` is the number itself. -/
theorem ofNat_eq_pack (hn : n < 2 ^ 53) :
    Float.ofNat n = .ofModel (Float.Model.pack (unpackedNat n)) := by
  have hofNat : Float.ofNat n = n.toUInt64.toFloat * Float.ofBits 0x3FF0000000000000 := by
    show Float.ofScientific n false 0 = _
    unfold Float.ofScientific
    rw [dif_pos ⟨hn, by omega⟩]
    rfl
  have hword : n.toUInt64.toNat = n := by
    show n % 2 ^ 64 = n
    omega
  have hleft : n.toUInt64.toFloat.toModel.unpack = unpackedNat n := by
    show (Float.Model.pack
      (UnpackedFloat.normalize .binary64 (n.toUInt64.toNat : ℕ) 0 .positive)).unpack = _
    have hnormal : UnpackedFloat.normalize .binary64 n 0 .positive = unpackedNat n := by
      simpa using normalize_eq_unpackedNat hn 0
    rw [hword, hnormal, unpack_pack_unpackedNat hn]
  have hone : (Float.ofBits 0x3FF0000000000000).toModel.unpack = unpackedNat 1 := rfl
  rw [hofNat]
  show Float.ofModel (Float.Model.pack (UnpackedFloat.mul .binary64
    n.toUInt64.toFloat.toModel.unpack (Float.ofBits 0x3FF0000000000000).toModel.unpack)) = _
  rw [hleft, hone, mul_one_unpackedNat hn]

theorem unpack_ofNat (hn : n < 2 ^ 53) : (Float.ofNat n).toModel.unpack = unpackedNat n := by
  rw [ofNat_eq_pack hn]
  exact unpack_pack_unpackedNat hn

theorem decreaseExponent_eq {k : ℕ} (hlog : n.log2 ≤ 52) (hk : -(k : ℤ) ≤ n.log2 - 52) :
    decreaseExponent (n * 2 ^ (52 - n.log2)) (n.log2 - 52) (-k) = (n * 2 ^ k, -(k : ℤ)) := by
  have hshift : ((n.log2 : ℤ) - 52 - -k).toNat = k - (52 - n.log2) := by omega
  have hbits : (n * 2 ^ (52 - n.log2)) <<< (k - (52 - n.log2)) = n * 2 ^ k := by
    rw [Nat.shiftLeft_eq, Nat.mul_assoc, ← Nat.pow_add, Nat.add_sub_cancel' (by omega)]
  unfold decreaseExponent
  simp only [hshift, hbits]
  congr 1
  omega

/-- Two numbers are added in units of the smaller one of their last bits. -/
theorem add_unpackedNat (h : a + b < 2 ^ 53) :
    UnpackedFloat.add .binary64 (unpackedNat a) (unpackedNat b) = unpackedNat (a + b) := by
  by_cases ha : a = 0
  · subst ha
    rw [Nat.zero_add]
    by_cases hb : b = 0
    · subst hb
      rfl
    · simp [unpackedNat, hb, UnpackedFloat.add]
  by_cases hb : b = 0
  · subst hb
    simp [unpackedNat, ha, UnpackedFloat.add]
  have hloga := log2_le_of_lt (show a < 2 ^ 53 by omega)
  have hlogb := log2_le_of_lt (show b < 2 ^ 53 by omega)
  obtain ⟨k, hk⟩ : ∃ k : ℕ, min ((a.log2 : ℤ) - 52) (b.log2 - 52) = -k :=
    ⟨52 - min a.log2 b.log2, by omega⟩
  have hsum : Sign.positive.apply ((a * 2 ^ k : ℕ) : ℤ) +
      Sign.positive.apply ((b * 2 ^ k : ℕ) : ℤ) = (((a + b) * 2 ^ k : ℕ) : ℤ) := by
    rw [Nat.add_mul]
    rfl
  rw [unpackedNat, unpackedNat, dif_neg ha, dif_neg hb]
  simp only [UnpackedFloat.add, hk]
  rw [decreaseExponent_eq hloga (by omega), decreaseExponent_eq hlogb (by omega)]
  simp only [hsum]
  exact normalize_eq_unpackedNat h k

theorem ofNat_add_ofNat (h : a + b < 2 ^ 53) :
    Float.ofNat a + Float.ofNat b = Float.ofNat (a + b) := by
  show Float.ofModel (Float.Model.pack (UnpackedFloat.add .binary64 (Float.ofNat a).toModel.unpack
    (Float.ofNat b).toModel.unpack)) = _
  rw [unpack_ofNat (by omega), unpack_ofNat (by omega), add_unpackedNat h, ofNat_eq_pack h]

/-- The double of a natural number is worth that number. -/
theorem value?_ofNat (hn : n < 2 ^ 53) :
    (Binary.ofFloat (Float.ofNat n)).value? = some (n : ℚ) := by
  have hlog := log2_le_of_lt hn
  rw [Binary.ofFloat_eq_ofUnpacked, unpack_ofNat hn]
  unfold unpackedNat
  split
  case isTrue h => simp [h, Binary.ofUnpacked, Binary.value?]
  case isFalse h =>
    have hscale : (2 : ℚ) ^ (52 - n.log2) * 2 ^ ((n.log2 : ℤ) - 52) = 1 := by
      rw [← zpow_natCast, ← zpow_add₀ two_ne_zero, Nat.cast_sub hlog]
      norm_num
    show some (((n * 2 ^ (52 - n.log2) : ℕ) : ℚ) * 2 ^ ((n.log2 : ℤ) - 52)) = some (n : ℚ)
    rw [Nat.cast_mul, Nat.cast_pow, Nat.cast_ofNat, mul_assoc, hscale, mul_one]

theorem lt_of_log2_lt (hb : b ≠ 0) (h : a.log2 < b.log2) : a < b :=
  calc
    a < 2 ^ (a.log2 + 1) := Nat.lt_log2_self
    _ ≤ 2 ^ b.log2 := Nat.pow_le_pow_right two_pos h
    _ ≤ b := Nat.log2_self_le hb

/-- The order of unpacked doubles is that of the natural numbers. -/
theorem compare_unpackedNat : (unpackedNat a).compare (unpackedNat b) = some (compare a b) := by
  by_cases ha : a = 0
  · subst ha
    by_cases hb : b = 0
    · subst hb
      rfl
    · simp [unpackedNat, hb, UnpackedFloat.compare, compare_lt_iff_lt.mpr (Nat.pos_of_ne_zero hb)]
  by_cases hb : b = 0
  · subst hb
    simp [unpackedNat, ha, UnpackedFloat.compare, compare_gt_iff_gt.mpr (Nat.pos_of_ne_zero ha)]
  rw [unpackedNat, unpackedNat, dif_neg ha, dif_neg hb]
  simp only [UnpackedFloat.compare, Option.some.injEq]
  rcases lt_trichotomy a.log2 b.log2 with h | h | h
  · rw [compare_lt_iff_lt.mpr (show (a.log2 : ℤ) - 52 < b.log2 - 52 by omega),
      compare_lt_iff_lt.mpr (lt_of_log2_lt hb h)]
    rfl
  · rw [h, compare_eq_iff_eq.mpr rfl]
    have hpos : 0 < 2 ^ (52 - b.log2) := by positivity
    show compare (a * 2 ^ (52 - b.log2)) (b * 2 ^ (52 - b.log2)) = compare a b
    rcases lt_trichotomy a b with hab | hab | hab
    · rw [compare_lt_iff_lt.mpr hab, compare_lt_iff_lt]
      exact Nat.mul_lt_mul_of_pos_right hab hpos
    · rw [hab]
      simp
    · rw [compare_gt_iff_gt.mpr hab, compare_gt_iff_gt]
      exact Nat.mul_lt_mul_of_pos_right hab hpos
  · rw [compare_gt_iff_gt.mpr (show (b.log2 : ℤ) - 52 < a.log2 - 52 by omega),
      compare_gt_iff_gt.mpr (lt_of_log2_lt ha h)]
    rfl

theorem float_lt_iff (x y : Float) :
    x < y ↔ x.toModel.unpack.compare y.toModel.unpack = some .lt := by
  show decide (UnpackedFloat.lt x.toModel.unpack y.toModel.unpack = true) = true ↔ _
  rw [decide_eq_true_eq, UnpackedFloat.lt, beq_iff_eq]

theorem float_beq_iff (x y : Float) :
    (x == y) = true ↔ x.toModel.unpack.compare y.toModel.unpack = some .eq := by
  show UnpackedFloat.beq x.toModel.unpack y.toModel.unpack = true ↔ _
  rw [UnpackedFloat.beq, beq_iff_eq]

theorem ofNat_lt_ofNat (ha : a < 2 ^ 53) (hb : b < 2 ^ 53) :
    Float.ofNat a < Float.ofNat b ↔ a < b := by
  rw [float_lt_iff, unpack_ofNat ha, unpack_ofNat hb, compare_unpackedNat, Option.some_inj,
    compare_lt_iff_lt]

theorem ofNat_beq_ofNat (ha : a < 2 ^ 53) (hb : b < 2 ^ 53) :
    (Float.ofNat a == Float.ofNat b) = true ↔ a = b := by
  rw [float_beq_iff, unpack_ofNat ha, unpack_ofNat hb, compare_unpackedNat, Option.some_inj,
    compare_eq_iff_eq]

end

/-! ## Negative numbers -/

/-- The opposite of what is unpacked is worth the opposite. -/
theorem Binary.value?_ofUnpacked_neg (u : UnpackedFloat) :
    (ofUnpacked u.neg).value? = (ofUnpacked u).value?.map fun x => -x := by
  have hpositive : ((-Sign.positive) == Sign.negative) = true := rfl
  have hnegative : ((-Sign.negative) == Sign.negative) = false := rfl
  cases u with
  | infinity sign => rfl
  | notANumber => rfl
  | zero sign => cases sign <;> simp [UnpackedFloat.neg, ofUnpacked, value?]
  | finite sign m e hm =>
    cases sign <;> simp only [UnpackedFloat.neg, ofUnpacked, value?, hpositive, hnegative] <;> simp

theorem unpack_neg_ofNat {n : ℕ} (hn : n < 2 ^ 53) :
    (Float.ofNat n).neg.toModel.unpack = (unpackedNat n).neg := by
  have hlog := log2_le_of_lt hn
  show (Float.Model.pack (Float.ofNat n).toModel.unpack.neg).unpack = _
  rw [unpack_ofNat hn]
  unfold unpackedNat
  split
  case isTrue => rfl
  case isFalse h =>
    refine unpack_pack_finite _ ?_ (by omega) (by omega)
    rw [log2_mul_two_pow h]
    omega

/-- The double of a whole number is worth that number. -/
theorem value?_ofInt {n : ℤ} (hn : n.natAbs < 2 ^ 53) :
    (Binary.ofFloat (Float.ofInt n)).value? = some (n : ℚ) := by
  cases n with
  | ofNat n => exact value?_ofNat hn
  | negSucc n =>
    have hn : n + 1 < 2 ^ 53 := hn
    have hvalue := value?_ofNat hn
    rw [Binary.ofFloat_eq_ofUnpacked, unpack_ofNat hn] at hvalue
    show (Binary.ofFloat (Float.ofNat (n + 1)).neg).value? = _
    rw [Binary.ofFloat_eq_ofUnpacked, unpack_neg_ofNat hn, Binary.value?_ofUnpacked_neg, hvalue]
    simp [Int.negSucc_eq, add_comm]

end Stencil
