import BeginCode.Number.Decimal
import Mathlib.Algebra.Order.Ring.Nat

/-!
# Decimals as doubles

A decimal is rounded to a double as `Float.ofScientific` rounds it. Decimals beyond the doubles are
settled by their size, without computing a power of ten, and this changes nothing: less than half
the least double is rounded to zero, and an exponent out of range gives an infinity.
-/

namespace BeginCode.Number

open Float.Model Float.Model.UnpackedFloat

/-! ### Cutting down a mantissa -/

theorem mantissa_shiftRight (mantissa : ExtendedMantissa) (count : Nat) :
    (mantissa >>> count).mantissa = mantissa.mantissa / 2 ^ count := by
  induction count with
  | zero => exact (Nat.div_one _).symm
  | succ count ih =>
      have hstep : (mantissa >>> (count + 1)).mantissa = (mantissa >>> count).mantissa / 2 := rfl
      rw [hstep, ih, Nat.div_div_eq_div_mul, Nat.pow_succ]

theorem mantissa_le_roundedMantissa (mantissa : ExtendedMantissa) :
    mantissa.mantissa ≤ mantissa.roundedMantissa := by
  obtain ⟨m, roundBit, stickyBit⟩ := mantissa
  cases roundBit <;> cases stickyBit <;>
    simp [ExtendedMantissa.roundedMantissa, ExtendedMantissa.accuracy,
      Accuracy.roundToNearestEven]

theorem mantissa_ofMantissaAndAccuracy (m : Nat) (accuracy : Accuracy) :
    (ExtendedMantissa.ofMantissaAndAccuracy m accuracy).mantissa = m := by
  cases accuracy with
  | exact => rfl
  | inexact place => cases place <;> rfl

theorem targetExponent_eq (total : Int) :
    Format.binary64.targetExponent total = max (total - 53) (-1074) := rfl

variable {m n : Nat} {e : Int}

theorem ne_zero_of_le_log2 {count : Nat} (hcount : 0 < count) (hlog : count ≤ n.log2) : n ≠ 0 := by
  rintro rfl
  rw [Nat.log2_zero] at hlog
  omega

/-- A mantissa of at least 53 bits is cut down to 53. -/
theorem shiftToTargetExponent_full (hm : 52 ≤ m.log2) (he : -1074 ≤ e) (accuracy : Accuracy) :
    (shiftToTargetExponent Format.binary64 m e accuracy).1.mantissa = m / 2 ^ (m.log2 - 52) ∧
      (shiftToTargetExponent Format.binary64 m e accuracy).2 = e + (m.log2 - 52 : Nat) := by
  have hcount : (Format.binary64.targetExponent (totalExponent m e) - e).toNat = m.log2 - 52 := by
    rw [targetExponent_eq, totalExponent]
    omega
  rw [shiftToTargetExponent, shiftToExponent, hcount]
  refine ⟨?_, rfl⟩
  rw [mantissa_shiftRight, mantissa_ofMantissaAndAccuracy]

theorem two_pow_le_shifted (hm : 52 ≤ m.log2) : 2 ^ 52 ≤ m / 2 ^ (m.log2 - 52) := by
  have hpos := ne_zero_of_le_log2 (by decide) hm
  rw [Nat.le_div_iff_mul_le (Nat.two_pow_pos _), ← Nat.pow_add, Nat.add_sub_cancel' hm]
  exact Nat.log2_self_le hpos

/-- Rounding up can add a bit, so the mantissa is cut down once more. -/
theorem roundWithAccuracy_of_ne_zero {accuracy : Accuracy} {first second : ExtendedMantissa × Int}
    (hfirst : shiftToTargetExponent Format.binary64 m e accuracy = first)
    (hsecond : shiftToTargetExponent Format.binary64 first.1.roundedMantissa first.2 .exact =
      second)
    (hsome : second.1.mantissa ≠ 0) :
    roundWithAccuracy Format.binary64 .positive m e accuracy =
      .finite .positive second.1.mantissa second.2 (Nat.pos_of_ne_zero hsome) := by
  subst hfirst hsecond
  exact dif_neg hsome

/-- Rounding does not lower the exponent that the mantissa is cut down to. -/
theorem exists_roundWithAccuracy (hm : 52 ≤ m.log2) (he : -1074 ≤ e) (accuracy : Accuracy) :
    ∃ mantissa exponent hpos, m.log2 + e - 52 ≤ exponent ∧
      roundWithAccuracy Format.binary64 .positive m e accuracy =
        .finite .positive mantissa exponent hpos := by
  obtain ⟨hmantissa, hexponent⟩ := shiftToTargetExponent_full hm he accuracy
  generalize hfirst : shiftToTargetExponent Format.binary64 m e accuracy = first
    at hmantissa hexponent
  have hfull : 2 ^ 52 ≤ first.1.roundedMantissa :=
    ((two_pow_le_shifted hm).trans_eq hmantissa.symm).trans (mantissa_le_roundedMantissa first.1)
  have hlog : 52 ≤ first.1.roundedMantissa.log2 := (Nat.le_log2 (by omega)).mpr hfull
  have hbound : -1074 ≤ first.2 := by omega
  obtain ⟨hmantissa, hlast⟩ := shiftToTargetExponent_full hlog hbound .exact
  have hsome := (two_pow_le_shifted hlog).trans_eq hmantissa.symm
  exact ⟨_, _, _, by omega, roundWithAccuracy_of_ne_zero hfirst rfl (by omega)⟩

/-! ### Results out of range -/

theorem pack_congr {one other : UnpackedFloat}
    (hbits : one.pack Format.binary64 = other.pack Format.binary64) :
    Float.Model.pack one = Float.Model.pack other :=
  Eq.mpr (Float.Model.mk.injEq _ _ _ _) (congrArg UInt64.ofBitVec hbits)

/-- The largest exponent that fits is 971. -/
theorem pack_finite_large (hm : 0 < m) (he : 972 ≤ e) :
    Float.Model.pack (.finite .positive m e hm) = Float.Model.pack (.infinity .positive) := by
  have hbits : 2 ^ Format.binary64.exponentBits = 2048 := rfl
  have hbias : Format.binary64.exponentBias = 1023 := rfl
  have hwidth : Format.binary64.mantissaBitsWithoutImplicit = 52 := rfl
  have hbiased : 2 ^ Format.binary64.exponentBits ≤
      (e + Format.binary64.exponentBias +
        Format.binary64.mantissaBitsWithoutImplicit).toNat + 1 := by
    rw [hbits, hbias, hwidth]
    omega
  exact pack_congr (if_pos hbiased)

theorem pack_roundWithAccuracy_large (hm : 52 ≤ m.log2) (he : -1074 ≤ e)
    (hlarge : 1024 ≤ m.log2 + e) (accuracy : Accuracy) :
    Float.Model.pack (roundWithAccuracy Format.binary64 .positive m e accuracy) =
      Float.Model.pack (.infinity .positive) := by
  obtain ⟨mantissa, exponent, hpos, hexponent, hround⟩ := exists_roundWithAccuracy hm he accuracy
  rw [hround]
  exact pack_finite_large hpos (by omega)

theorem log2_add_le {count : Nat} (hm : m ≠ 0) (hle : m <<< count ≤ n) :
    m.log2 + count ≤ n.log2 := by
  rw [Nat.shiftLeft_eq] at hle
  have hpow : 2 ^ (m.log2 + count) ≤ n := by
    rw [Nat.pow_add]
    exact (Nat.mul_le_mul_right _ (Nat.log2_self_le hm)).trans hle
  exact (Nat.le_log2 ((Nat.two_pow_pos _).trans_le hpow).ne').mpr hpow

theorem div_finite (hm : 0 < m) (hn : 0 < n) :
    UnpackedFloat.div Format.binary64 (.finite .positive m 0 hm) (.finite .positive n 0 hn) =
      roundWithAccuracy Format.binary64 .positive (divCore Format.binary64 m 0 n 0).1
        (divCore Format.binary64 m 0 n 0).2.1 (divCore Format.binary64 m 0 n 0).2.2 := (rfl)

/-- A quotient of less than half the least double. -/
theorem divCore_tiny (hm : m ≠ 0) (htiny : 2 * (m <<< 1074) < n) :
    divCore Format.binary64 m 0 n 0 = (0, -1074, .inexact .lt) := by
  have hlt : m <<< 1074 < n := by omega
  have hlog : m.log2 + 1074 ≤ n.log2 := log2_add_le hm hlt.le
  have htarget : min (0 - 0) (Format.binary64.targetExponent
      (totalExponent m 0 - totalExponent n 0)) = -1074 := by
    rw [targetExponent_eq, totalExponent, totalExponent]
    omega
  have hcount : ((0 : Int) - 0 - -1074).toNat = 1074 := rfl
  have hsome : m <<< 1074 ≠ 0 := mt (Nat.shiftLeft_eq_zero_iff).mp hm
  unfold divCore
  simp only [htarget, hcount]
  rw [Nat.div_eq_of_lt hlt, Nat.mod_eq_of_lt hlt, accuracyOfFraction, if_neg hsome,
    Nat.compare_eq_lt.mpr htiny]

/-- A quotient with enough bits before its point. -/
theorem divCore_large (hlarge : n.log2 + 53 ≤ m.log2) :
    ∃ accuracy, divCore Format.binary64 m 0 n 0 = (m / n, 0, accuracy) := by
  have htarget : min (0 - 0) (Format.binary64.targetExponent
      (totalExponent m 0 - totalExponent n 0)) = 0 := by
    rw [targetExponent_eq, totalExponent, totalExponent]
    omega
  have hcount : ((0 : Int) - 0 - 0).toNat = 0 := rfl
  unfold divCore
  simp only [htarget, hcount, Nat.shiftLeft_zero]
  exact ⟨_, rfl⟩

/-! ### Scientific notation -/

section Scientific

variable {digits exponent : Nat}

theorem finite_congr (hmn : m = n) (hm : 0 < m) (hn : 0 < n) :
    UnpackedFloat.finite .positive m e hm = .finite .positive n e hn := by
  subst hmn
  rfl

theorem unpacked_ofScientific_neg (hdigits : digits ≠ 0) (hexponent : exponent ≠ 0) :
    UnpackedFloat.ofScientific Format.binary64 digits (-exponent) =
      if 2048 + digits.log2 < exponent then .zero .positive
      else UnpackedFloat.div Format.binary64
        (.finite .positive digits 0 (Nat.pos_of_ne_zero hdigits))
        (.finite .positive (10 ^ exponent) 0 (Nat.pow_pos (by decide))) := by
  have hpower : (- -(exponent : Int)).toNat = exponent := by omega
  rw [UnpackedFloat.ofScientific, dif_neg hdigits,
    if_neg (by dsimp only [Format.binary64]; omega)]
  by_cases htiny : 2048 + digits.log2 < exponent
  · rw [if_pos (by dsimp only [Format.binary64]; omega), if_pos htiny]
  · rw [if_neg (by dsimp only [Format.binary64]; omega), if_neg htiny, if_neg (by omega)]
    exact congrArg (UnpackedFloat.div Format.binary64 _)
      (finite_congr (congrArg (10 ^ ·) hpower) _ _)

theorem unpacked_ofScientific_ofNat (hdigits : digits ≠ 0) (exponent : Nat) :
    UnpackedFloat.ofScientific Format.binary64 digits exponent =
      if 2048 < exponent then .infinity .positive
      else roundWithAccuracy Format.binary64 .positive (digits <<< 53 * 10 ^ exponent) (-53)
        .exact := by
  rw [UnpackedFloat.ofScientific, dif_neg hdigits]
  by_cases hlarge : 2048 < exponent
  · rw [if_pos (by dsimp only [Format.binary64]; omega), if_pos hlarge]
  · rw [if_neg (by dsimp only [Format.binary64]; omega), if_neg hlarge,
      if_neg (by dsimp only [Format.binary64]; omega), if_pos (by omega)]
    rfl

/-- Digits and a power of ten that are not both doubles themselves. -/
theorem ofScientific_of_not_exact (negative : Bool)
    (hexact : ¬(digits < 2 ^ 53 ∧ exponent ≤ 22)) :
    Float.ofScientific digits negative exponent =
      .ofModel (.pack (UnpackedFloat.ofScientific Format.binary64 digits
        (if negative then -exponent else exponent))) := by
  rw [Float.ofScientific, dif_neg hexact, Int.negOfNat_eq]
  rfl

theorem ofScientific_zero (negative : Bool) (exponent : Nat) :
    Float.ofScientific 0 negative exponent = 0 := by
  by_cases hexponent : exponent ≤ 22
  · have hexact : ∀ negative, ∀ exponent ≤ 22, Float.ofScientific 0 negative exponent = 0 := by
      decide +kernel
    exact hexact negative exponent hexponent
  · rw [ofScientific_of_not_exact negative fun hboth => hexponent hboth.2,
      UnpackedFloat.ofScientific, dif_pos rfl]
    rfl

theorem ofScientific_tiny (hdigits : digits ≠ 0) (hexponent : 22 < exponent)
    (htiny : 2 * (digits <<< 1074) < 10 ^ exponent) :
    Float.ofScientific digits true exponent = 0 := by
  have hexact : ¬(digits < 2 ^ 53 ∧ exponent ≤ 22) := by
    rintro ⟨-, hsmall⟩
    omega
  rw [ofScientific_of_not_exact true hexact, if_pos rfl,
    unpacked_ofScientific_neg hdigits (by omega)]
  by_cases hrange : 2048 + digits.log2 < exponent
  · rw [if_pos hrange]
    rfl
  · rw [if_neg hrange, div_finite, divCore_tiny hdigits htiny]
    rfl

theorem ofScientific_true_large (hexponent : exponent ≠ 0)
    (hlarge : 1024 ≤ (digits / 10 ^ exponent).log2) :
    Float.ofScientific digits true exponent = 1 / 0 := by
  have hpower : 10 ^ exponent ≠ 0 := (Nat.pow_pos (by decide)).ne'
  have hquotient := ne_zero_of_le_log2 (by decide) hlarge
  have hlog : (10 ^ exponent).log2 + (digits / 10 ^ exponent).log2 ≤ digits.log2 := by
    refine log2_add_le hpower ?_
    rw [Nat.shiftLeft_eq]
    exact (Nat.mul_le_mul_left _ (Nat.log2_self_le hquotient)).trans (Nat.mul_div_le digits _)
  have hrange : exponent ≤ (10 ^ exponent).log2 :=
    (Nat.le_log2 hpower).mpr (Nat.pow_le_pow_left (by decide) exponent)
  have hdigits := ne_zero_of_le_log2 (by omega) hlog
  have hexact : ¬(digits < 2 ^ 53 ∧ exponent ≤ 22) := by
    rintro ⟨hsmall, -⟩
    have hlog := (Nat.log2_lt hdigits).mpr hsmall
    omega
  obtain ⟨accuracy, hdivision⟩ := divCore_large (m := digits) (n := 10 ^ exponent) (by omega)
  rw [ofScientific_of_not_exact true hexact, if_pos rfl,
    unpacked_ofScientific_neg hdigits hexponent, if_neg (by omega), div_finite, hdivision]
  dsimp only
  rw [pack_roundWithAccuracy_large (by omega) (by decide) (by omega)]
  rfl

theorem ofScientific_false_large (hlarge : 1024 ≤ (digits * 10 ^ exponent).log2) :
    Float.ofScientific digits false exponent = 1 / 0 := by
  have hproduct := ne_zero_of_le_log2 (by decide) hlarge
  have hdigits : digits ≠ 0 := Nat.ne_zero_of_mul_ne_zero_left hproduct
  have hexact : ¬(digits < 2 ^ 53 ∧ exponent ≤ 22) := by
    rintro ⟨hsmall, hexponent⟩
    have hbound : digits * 10 ^ exponent < 2 ^ 53 * 10 ^ 22 :=
      Nat.mul_lt_mul_of_lt_of_le hsmall (Nat.pow_le_pow_right (by decide) hexponent) (by decide)
    have hlimit : 2 ^ 53 * 10 ^ 22 ≤ 2 ^ 128 := by decide
    have hlog := (Nat.log2_lt hproduct).mpr (hbound.trans_le hlimit)
    omega
  have hsize : (digits * 10 ^ exponent).log2 + 53 ≤ (digits <<< 53 * 10 ^ exponent).log2 := by
    refine log2_add_le hproduct (Nat.le_of_eq ?_)
    rw [Nat.shiftLeft_eq, Nat.shiftLeft_eq, Nat.mul_right_comm]
  rw [ofScientific_of_not_exact false hexact, if_neg Bool.false_ne_true,
    unpacked_ofScientific_ofNat hdigits]
  by_cases hrange : 2048 < exponent
  · rw [if_pos hrange]
    rfl
  · rw [if_neg hrange, pack_roundWithAccuracy_large (by omega) (by decide) (by omega)]
    rfl

end Scientific

/-! ### Decimals -/

theorem lt_pow_length (n : Nat) : n < 10 ^ (toDigits n).length :=
  (Nat.length_toDigits_le_iff (by decide) Nat.length_toDigits_pos).mp (Nat.le_refl _)

theorem pow_le_of_lt_length {length : Nat} (hn : n ≠ 0) (hlength : length < (toDigits n).length) :
    10 ^ length ≤ n := by
  cases length with
  | zero => exact Nat.pos_of_ne_zero hn
  | succ length =>
      rw [← Nat.not_lt, ← Nat.length_toDigits_le_iff (by decide) (Nat.succ_pos length)]
      exact Nat.not_le.mpr hlength

theorem pow_le_mul_pow {power tens : Nat} (hn : n ≠ 0)
    (htens : tens < (toDigits n).length + power) : 10 ^ tens ≤ n * 10 ^ power := by
  have hlength : (toDigits n).length ≠ 0 := Nat.length_toDigits_pos.ne'
  calc 10 ^ tens
    _ ≤ 10 ^ ((toDigits n).length - 1 + power) := Nat.pow_le_pow_right (by decide) (by omega)
    _ = 10 ^ ((toDigits n).length - 1) * 10 ^ power := Nat.pow_add 10 _ power
    _ ≤ n * 10 ^ power := Nat.mul_le_mul_right _ (pow_le_of_lt_length hn (Nat.pred_lt hlength))

theorem two_mul_shiftLeft_lt {length count tens : Nat} (hcount : 2 * 2 ^ count ≤ 10 ^ tens)
    (hn : n < 10 ^ length) : 2 * (n <<< count) < 10 ^ (length + tens) := by
  calc 2 * (n <<< count)
    _ = n * (2 * 2 ^ count) := by rw [Nat.shiftLeft_eq, Nat.mul_left_comm]
    _ ≤ n * 10 ^ tens := Nat.mul_le_mul_left n hcount
    _ < 10 ^ length * 10 ^ tens := Nat.mul_lt_mul_of_pos_right hn (Nat.pow_pos (by decide))
    _ = 10 ^ (length + tens) := (Nat.pow_add 10 length tens).symm

theorem le_log2_of_pow_le {count tens : Nat} (hcount : 2 ^ count ≤ 10 ^ tens)
    (hn : 10 ^ tens ≤ n) : count ≤ n.log2 := by
  have hn := hcount.trans hn
  exact (Nat.le_log2 ((Nat.two_pow_pos count).trans_le hn).ne').mpr hn

theorem ofScientific_tiny_of_length {digits : Nat} {exponent : Int} (hdigits : digits ≠ 0)
    (htiny : (toDigits digits).length + exponent ≤ -324) :
    Float.ofScientific digits true exponent.natAbs = 0 := by
  have hleast : 2 * 2 ^ 1074 ≤ 10 ^ 324 := by decide +kernel
  refine ofScientific_tiny hdigits (by omega) ?_
  refine (two_mul_shiftLeft_lt hleast (lt_pow_length digits)).trans_le ?_
  exact Nat.pow_le_pow_right (by decide) (by omega)

theorem ofScientific_large_of_length {digits : Nat} {exponent : Int} (hdigits : digits ≠ 0)
    (hlarge : 310 ≤ (toDigits digits).length + exponent) :
    Float.ofScientific digits (decide (exponent < 0)) exponent.natAbs = 1 / 0 := by
  have hgreatest : 2 ^ 1024 ≤ 10 ^ 309 := by decide +kernel
  by_cases hneg : exponent < 0
  · rw [decide_eq_true hneg]
    refine ofScientific_true_large (by omega) (le_log2_of_pow_le hgreatest ?_)
    rw [Nat.le_div_iff_mul_le (Nat.pow_pos (by decide)), ← Nat.pow_add]
    exact pow_le_of_lt_length hdigits (by omega)
  · rw [decide_eq_false hneg]
    refine ofScientific_false_large (le_log2_of_pow_le hgreatest ?_)
    exact pow_le_mul_pow hdigits (by omega)

/-- The shortcuts for decimals beyond the doubles do not change what a decimal is rounded to. -/
theorem Decimal.magnitude_eq_ofScientific (decimal : Decimal) :
    decimal.magnitude = Float.ofScientific decimal.digits (decide (decimal.exponent < 0))
      decimal.exponent.natAbs := by
  obtain ⟨digits, exponent⟩ := decimal
  unfold magnitude
  dsimp only
  by_cases hzero : digits = 0
  · rw [if_pos (by simp [hzero]), hzero, ofScientific_zero]
  by_cases htiny : (toDigits digits).length + exponent ≤ -324
  · rw [if_pos (by simp [htiny]), decide_eq_true (by omega),
      ofScientific_tiny_of_length hzero htiny]
  rw [if_neg (by simp [hzero, htiny])]
  by_cases hlarge : 310 ≤ (toDigits digits).length + exponent
  · rw [if_pos hlarge, ofScientific_large_of_length hzero hlarge]
  rw [if_neg hlarge]
  by_cases hneg : exponent < 0
  · rw [if_pos hneg, decide_eq_true hneg]
  · rw [if_neg hneg, decide_eq_false hneg]

end BeginCode.Number
