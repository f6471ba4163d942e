import Mathlib.Tactic.ByContra
import BeginCode.Operator.Apply
import BeginCode.Proofs.Integers

/-!
# Arithmetic on integers

On two 64-bit integers an arithmetic operator yields the exact result or reports why there is none:
the divisor is zero, or the result does not fit. The remainder has a result exactly where the
quotient has one, so the least integer has no remainder by minus one, although that would be zero.
-/

namespace BeginCode

/-! ### Truncated division -/

/-- Quotient and remainder of a division that truncates toward zero. -/
structure Truncated (dividend divisor quotient remainder : Int) : Prop where
  split : dividend = quotient * divisor + remainder
  small : remainder.natAbs < divisor.natAbs
  sign : remainder = 0 ∨ remainder.sign = dividend.sign

theorem truncated_tdiv_tmod {b : Int} (a : Int) (hb : b ≠ 0) :
    Truncated a b (a.tdiv b) (a.tmod b) := by
  refine ⟨?_, ?_, ?_⟩
  · rw [Int.mul_comm, Int.mul_tdiv_add_tmod]
  · rw [Int.natAbs_tmod]
    exact Nat.mod_lt _ (Int.natAbs_pos.mpr hb)
  · have hsign := Int.sign_tmod a b
    by_cases hdvd : b ∣ a
    · rw [if_pos hdvd, Int.sign_eq_zero_iff_zero] at hsign
      exact .inl hsign
    · rw [if_neg hdvd] at hsign
      exact .inr hsign

namespace Truncated

variable {a b q r : Int}

theorem ne_zero (htruncated : Truncated a b q r) : b ≠ 0 := by
  have := htruncated.small
  omega

theorem nonneg (htruncated : Truncated a b q r) (ha : 0 ≤ a) : 0 ≤ r := by
  rcases htruncated.sign with hzero | hsign
  · exact Int.le_of_eq hzero.symm
  · rwa [← Int.sign_nonneg_iff, hsign, Int.sign_nonneg_iff]

theorem nonpos (htruncated : Truncated a b q r) (ha : a ≤ 0) : r ≤ 0 := by
  rcases htruncated.sign with hzero | hsign
  · exact Int.le_of_eq hzero
  · rwa [← Int.sign_nonpos_iff, hsign, Int.sign_nonpos_iff]

/-- Quotient and remainder are determined by the dividend and the divisor. -/
theorem eq_tdiv_tmod (htruncated : Truncated a b q r) : a.tdiv b = q ∧ a.tmod b = r := by
  have hb := htruncated.ne_zero
  have hsmall := htruncated.small
  have hsum : r + b * q = a := by rw [htruncated.split, Int.mul_comm, Int.add_comm]
  rcases Int.le_total 0 a with ha | ha
  · exact (Int.tdiv_tmod_unique ha hb).mpr ⟨hsum, htruncated.nonneg ha, by omega⟩
  · exact (Int.tdiv_tmod_unique' ha hb).mpr ⟨hsum, by omega, htruncated.nonpos ha⟩

end Truncated

/-! ### Results that fit -/

namespace Number

/-- A quotient fits, except for that of the least integer by minus one. -/
theorem fitsInt64_tdiv_iff {a b : Int} (ha : FitsInt64 a) (hb : b ≠ 0) :
    FitsInt64 (a.tdiv b) ↔ ¬(a = -9223372036854775808 ∧ b = -1) := by
  rw [fitsInt64_iff] at ha ⊢
  by_cases hminus : b = -1
  · subst hminus
    rw [Int.tdiv_neg, Int.tdiv_one]
    omega
  by_cases hone : b = 1
  · subst hone
    rw [Int.tdiv_one]
    omega
  · -- A divisor of at least two halves the dividend.
    have hhalf : (a.tdiv b).natAbs ≤ a.natAbs / 2 := by
      rw [Int.natAbs_tdiv]
      exact Nat.div_le_div_left (by omega) (by decide)
    omega

/-- A remainder lies between zero and its dividend. -/
theorem fitsInt64_tmod {a b : Int} (ha : FitsInt64 a) (hb : b ≠ 0) : FitsInt64 (a.tmod b) := by
  rw [fitsInt64_iff] at ha ⊢
  have htruncated := truncated_tdiv_tmod a hb
  have hsmall : (a.tmod b).natAbs ≤ a.natAbs := by
    rw [Int.natAbs_tmod]
    exact Nat.mod_le _ _
  rcases Int.le_total 0 a with hsign | hsign
  · have := htruncated.nonneg hsign
    omega
  · have := htruncated.nonpos hsign
    omega

end Number

/-! ### Operators -/

namespace ArithmeticOp

/-- What an operator yields on integers of any size. -/
def IsExact : ArithmeticOp → Int → Int → Int → Prop
  | .add, a, b, result => result = a + b
  | .sub, a, b, result => result = a - b
  | .mul, a, b, result => result = a * b
  | .div, a, b, result => ∃ remainder, Truncated a b result remainder
  | .mod, a, b, result => ∃ quotient, Truncated a b quotient result

def DividesByZero (op : ArithmeticOp) (b : Int) : Prop := (op = .div ∨ op = .mod) ∧ b = 0

/-- The exact result does not fit in 64 bits, or it is the remainder of the least integer by minus
one. -/
def Exceeds (op : ArithmeticOp) (a b : Int) : Prop :=
  (∃ result, op.IsExact a b result ∧
      ¬(-9223372036854775808 ≤ result ∧ result ≤ 9223372036854775807)) ∨
    op = .mod ∧ a = -9223372036854775808 ∧ b = -1

theorem isExact_iff {op : ArithmeticOp} {b : Int} (hzero : ¬op.DividesByZero b) (a result : Int) :
    op.IsExact a b result ↔ result = op.exact a b := by
  cases op with
  | div =>
      have hb : b ≠ 0 := fun hb => hzero ⟨.inl rfl, hb⟩
      constructor
      · rintro ⟨remainder, htruncated⟩
        exact htruncated.eq_tdiv_tmod.1.symm
      · rintro rfl
        exact ⟨_, truncated_tdiv_tmod a hb⟩
  | mod =>
      have hb : b ≠ 0 := fun hb => hzero ⟨.inr rfl, hb⟩
      constructor
      · rintro ⟨quotient, htruncated⟩
        exact htruncated.eq_tdiv_tmod.2.symm
      · rintro rfl
        exact ⟨_, truncated_tdiv_tmod a hb⟩
  | _ => rfl

theorem exceeds_iff {op : ArithmeticOp} {a b : Int} (ha : Number.FitsInt64 a)
    (hzero : ¬op.DividesByZero b) : op.Exceeds a b ↔ ¬Number.FitsInt64 (op.extent a b) := by
  rw [Exceeds]
  simp only [isExact_iff hzero, exists_eq_left, ← Number.fitsInt64_iff]
  cases op with
  | mod =>
      have hb : b ≠ 0 := fun hb => hzero ⟨.inr rfl, hb⟩
      have hremainder : Number.FitsInt64 (exact .mod a b) := Number.fitsInt64_tmod ha hb
      have hquotient : Number.FitsInt64 (extent .mod a b) ↔ ¬(a = -9223372036854775808 ∧ b = -1) :=
        Number.fitsInt64_tdiv_iff ha hb
      rw [hquotient]
      simp [hremainder]
  | _ => simp [extent]

theorem divides_iff {op : ArithmeticOp} {b : Int64} :
    (op.divides && b == 0) = true ↔ op.DividesByZero b.toInt := by
  rw [Bool.and_eq_true, beq_iff_eq, ← Int64.toInt_inj, Int64.toInt_zero, DividesByZero]
  cases op <;> simp [divides]

/-- How an operator ends on two integers. The three ways exclude each other. -/
inductive Ends (op : ArithmeticOp) (a b : Int) : Except RuntimeCause Value → Prop where
  | divisionByZero (hzero : op.DividesByZero b) : Ends op a b (.error .divisionByZero)
  | overflow (hzero : ¬op.DividesByZero b) (hexceeds : op.Exceeds a b) :
      Ends op a b (.error .overflow)
  | result {n : Int64} (hzero : ¬op.DividesByZero b) (hexceeds : ¬op.Exceeds a b)
      (hexact : op.IsExact a b n.toInt) : Ends op a b (.ok (.integer n))

theorem ends_apply (op : ArithmeticOp) (a b : Int64) :
    op.Ends a.toInt b.toInt (BinaryOp.apply (.arithmetic op) (.integer a) (.integer b)) := by
  rw [BinaryOp.apply, apply, onIntegers]
  by_cases hzero : op.DividesByZero b.toInt
  · rw [if_pos (divides_iff.mpr hzero)]
    exact .divisionByZero hzero
  rw [if_neg (mt divides_iff.mp hzero)]
  have hextent := exceeds_iff (Number.fitsInt64_toInt a) hzero
  by_cases hexceeds : op.Exceeds a.toInt b.toInt
  · rw [if_neg (hextent.mp hexceeds)]
    exact .overflow hzero hexceeds
  · rw [if_pos (Decidable.not_not.mp (mt hextent.mpr hexceeds))]
    have hexact := (isExact_iff hzero a.toInt _).mpr rfl
    have hfits : Number.FitsInt64 (op.exact a.toInt b.toInt) := by
      rw [Number.fitsInt64_iff]
      exact Decidable.not_not.mp fun hlarge => hexceeds (.inl ⟨_, hexact, hlarge⟩)
    exact .result hzero hexceeds ((Number.toInt_ofInt hfits).symm ▸ hexact)

namespace Ends

variable {op : ArithmeticOp} {a b : Int} {outcome : Except RuntimeCause Value}

theorem eq_divisionByZero_iff (hends : op.Ends a b outcome) :
    outcome = .error .divisionByZero ↔ op.DividesByZero b := by
  cases hends with
  | divisionByZero hzero => exact iff_of_true rfl hzero
  | overflow hzero _ => exact iff_of_false (by simp) hzero
  | result hzero _ _ => exact iff_of_false (by simp) hzero

theorem eq_overflow_iff (hends : op.Ends a b outcome) :
    outcome = .error .overflow ↔ ¬op.DividesByZero b ∧ op.Exceeds a b := by
  cases hends with
  | divisionByZero hzero => exact iff_of_false (by simp) fun hboth => hboth.1 hzero
  | overflow hzero hexceeds => exact iff_of_true rfl ⟨hzero, hexceeds⟩
  | result _ hexceeds _ => exact iff_of_false (by simp) fun hboth => hexceeds hboth.2

theorem exists_result (hends : op.Ends a b outcome) (hzero : ¬op.DividesByZero b)
    (hexceeds : ¬op.Exceeds a b) :
    ∃ n : Int64, outcome = .ok (.integer n) ∧ op.IsExact a b n.toInt := by
  cases hends with
  | divisionByZero hdivides => exact absurd hdivides hzero
  | overflow _ hlarge => exact absurd hlarge hexceeds
  | result _ _ hexact => exact ⟨_, rfl, hexact⟩

theorem isExact {n : Int64} (hends : op.Ends a b (.ok (.integer n))) :
    op.IsExact a b n.toInt := by
  cases hends with
  | result _ _ hexact => exact hexact

end Ends

end ArithmeticOp

/-! ### Comparisons -/

def OrderOp.Holds : OrderOp → Int → Int → Prop
  | .less, a, b => a < b
  | .lessEqual, a, b => a ≤ b
  | .greater, a, b => a > b
  | .greaterEqual, a, b => a ≥ b

def EqualityOp.Holds : EqualityOp → Int → Int → Prop
  | .equal, a, b => a = b
  | .notEqual, a, b => a ≠ b

theorem OrderOp.onIntegers_iff {op : OrderOp} {a b : Int64} :
    op.onIntegers a b = true ↔ op.Holds a.toInt b.toInt := by
  cases op <;> simp [onIntegers, Holds, Int64.lt_iff_toInt_lt, Int64.le_iff_toInt_le]

theorem EqualityOp.exists_apply (op : EqualityOp) (a b : Int64) :
    ∃ answer, op.apply (.integer a) (.integer b) = .bool answer ∧
      (answer = true ↔ op.Holds a.toInt b.toInt) := by
  cases op with
  | equal => exact ⟨a == b, rfl, by rw [beq_iff_eq, Holds, Int64.toInt_inj]⟩
  | notEqual =>
      refine ⟨!(a == b), rfl, ?_⟩
      rw [Bool.not_eq_true', beq_eq_false_iff_ne, Holds, Ne, Ne, Int64.toInt_inj]

/-! ### Negation -/

theorem UnaryOp.apply_negate_least {a : Int64} (ha : a.toInt = -9223372036854775808) :
    UnaryOp.negate.apply (.integer a) = .error .overflow := by
  have hlarge : ¬Number.FitsInt64 (-a.toInt) := by
    rw [Number.fitsInt64_iff, ha]
    decide
  rw [apply, Number.int64?, if_neg hlarge]

theorem UnaryOp.exists_apply_negate {a : Int64} (ha : a.toInt ≠ -9223372036854775808) :
    ∃ n, UnaryOp.negate.apply (.integer a) = .ok (.integer n) ∧ n.toInt = -a.toInt := by
  have hrange := Number.fitsInt64_iff.mp (Number.fitsInt64_toInt a)
  have hfits : Number.FitsInt64 (-a.toInt) := by
    rw [Number.fitsInt64_iff]
    omega
  refine ⟨_, ?_, Number.toInt_ofInt hfits⟩
  rw [apply, Number.int64?, if_pos hfits]

/-! ### All operators -/

namespace BinaryOp

/-- On two integers an arithmetic operator reports a division by zero, or otherwise an overflow, or
otherwise yields the exact result; so does negation. A quotient and a remainder that are both there
belong together. Comparisons agree with the order of the integers. No operator is without a rule. -/
theorem apply_integers (a b : Int64) :
    (∀ op : ArithmeticOp,
      (apply (.arithmetic op) (.integer a) (.integer b) = .error .divisionByZero ↔
        op.DividesByZero b.toInt) ∧
      (apply (.arithmetic op) (.integer a) (.integer b) = .error .overflow ↔
        ¬op.DividesByZero b.toInt ∧ op.Exceeds a.toInt b.toInt) ∧
      (¬op.DividesByZero b.toInt → ¬op.Exceeds a.toInt b.toInt →
        ∃ n : Int64, apply (.arithmetic op) (.integer a) (.integer b) = .ok (.integer n) ∧
          op.IsExact a.toInt b.toInt n.toInt) ∧
      asArithmetic? (.arithmetic op) (.integer a) (.integer b) =
        some (apply (.arithmetic op) (.integer a) (.integer b))) ∧
    (UnaryOp.apply .negate (.integer a) = .error .overflow ↔ a.toInt = -9223372036854775808) ∧
    (a.toInt ≠ -9223372036854775808 →
      ∃ n : Int64, UnaryOp.apply .negate (.integer a) = .ok (.integer n) ∧ n.toInt = -a.toInt) ∧
    (∀ q r : Int64,
      apply (.arithmetic .div) (.integer a) (.integer b) = .ok (.integer q) →
      apply (.arithmetic .mod) (.integer a) (.integer b) = .ok (.integer r) →
        Truncated a.toInt b.toInt q.toInt r.toInt) ∧
    (∀ op : OrderOp, ∃ answer,
      apply (.order op) (.integer a) (.integer b) = .ok (.bool answer) ∧
      asComparison? (.order op) (.integer a) (.integer b) = some (.ok (.bool answer)) ∧
      (answer = true ↔ op.Holds a.toInt b.toInt)) ∧
    ∀ op : EqualityOp, ∃ answer,
      apply (.equality op) (.integer a) (.integer b) = .ok (.bool answer) ∧
      asComparison? (.equality op) (.integer a) (.integer b) = some (.ok (.bool answer)) ∧
      (answer = true ↔ op.Holds a.toInt b.toInt) := by
  refine ⟨fun op => ?_, ?_, UnaryOp.exists_apply_negate, fun q r hquotient hremainder => ?_,
    fun op => ⟨op.onIntegers a b, rfl, rfl, OrderOp.onIntegers_iff⟩, fun op => ?_⟩
  · have hends := op.ends_apply a b
    exact ⟨hends.eq_divisionByZero_iff, hends.eq_overflow_iff, hends.exists_result, rfl⟩
  · refine ⟨fun hoverflow => ?_, UnaryOp.apply_negate_least⟩
    by_contra hleast
    obtain ⟨n, hn, -⟩ := UnaryOp.exists_apply_negate hleast
    rw [hn] at hoverflow
    cases hoverflow
  · have hdiv := ArithmeticOp.div.ends_apply a b
    have hmod := ArithmeticOp.mod.ends_apply a b
    rw [hquotient] at hdiv
    rw [hremainder] at hmod
    obtain ⟨remainder, htruncated⟩ := hdiv.isExact
    obtain ⟨quotient, hother⟩ := hmod.isExact
    have hsame : remainder = r.toInt :=
      htruncated.eq_tdiv_tmod.2.symm.trans hother.eq_tdiv_tmod.2
    rwa [hsame] at htruncated
  · obtain ⟨answer, hanswer, hholds⟩ := op.exists_apply a b
    exact ⟨answer, congrArg Except.ok hanswer, congrArg (some ∘ Except.ok) hanswer, hholds⟩

/-- The least integer by seven. Both results are negative, and by minus one there is none. -/
theorem apply_integers_least :
    apply (.arithmetic .div) (.integer Int64.minValue) (.integer 7) =
        .ok (.integer (-1317624576693539401)) ∧
      apply (.arithmetic .mod) (.integer Int64.minValue) (.integer 7) = .ok (.integer (-1)) ∧
      Truncated (-9223372036854775808) 7 (-1317624576693539401) (-1) ∧
      apply (.arithmetic .mod) (.integer Int64.minValue) (.integer (-1)) = .error .overflow := by
  have hquotient : apply (.arithmetic .div) (.integer Int64.minValue) (.integer 7) =
      .ok (.integer (-1317624576693539401)) := rfl
  have hremainder : apply (.arithmetic .mod) (.integer Int64.minValue) (.integer 7) =
      .ok (.integer (-1)) := rfl
  obtain ⟨-, -, -, htruncated, -⟩ := apply_integers Int64.minValue 7
  obtain ⟨hoperators, -⟩ := apply_integers Int64.minValue (-1)
  refine ⟨hquotient, hremainder, htruncated _ _ hquotient hremainder, ?_⟩
  refine (hoperators .mod).2.1.mpr ⟨?_, .inr ⟨rfl, rfl, rfl⟩⟩
  rintro ⟨-, hzero⟩
  exact absurd hzero (by decide)

end BinaryOp

end BeginCode
