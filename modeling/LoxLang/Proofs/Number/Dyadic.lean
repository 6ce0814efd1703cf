import LoxLang.Number.Binary64
import Mathlib.Algebra.Order.Field.Rat
import Mathlib.Algebra.Order.Group.Int
import Mathlib.Tactic.Positivity
import Mathlib.Tactic.Ring
import Mathlib.Tactic.FieldSimp
import Mathlib.Data.Rat.Cast.Order
import Mathlib.Data.Rat.Floor

/-!
# The numbers that dyadics denote

A dyadic denotes a rational number, its value. What the whole part and the test for whole numbers
compute is said of this value.
-/

namespace LoxLang.Number

/-- A number without its fraction. -/
def towardZero (q : ℚ) : Int :=
  if 0 ≤ q then ⌊q⌋ else ⌈q⌉

namespace Dyadic

/-- The number that is denoted. -/
def value (x : Dyadic) : ℚ :=
  (signed x.negative x.mantissa : ℚ) * 2 ^ x.exponent

/-- The number can be written with a mantissa of 53 bits and an exponent of the binary64 format.
There is no upper bound on the exponent. -/
structure Fits (x : Dyadic) : Prop where
  mantissa : x.mantissa < 2 ^ 53
  exponent : -1074 ≤ x.exponent

/-- The exponent is the least one that is possible. -/
structure Reduced (x : Dyadic) : Prop extends x.Fits where
  normal : 2 ^ 52 ≤ x.mantissa ∨ x.exponent = -1074

/-- The form in which the binary64 format has its numbers. -/
structure Canonical (x : Dyadic) : Prop extends x.Reduced where
  exponent_le : x.exponent ≤ 971

variable {x y : Dyadic}

theorem signed_neg (negative : Bool) (n : Nat) : signed (!negative) n = -signed negative n := by
  cases negative
  · rfl
  · exact (neg_neg _).symm

theorem natAbs_signed (negative : Bool) (n : Nat) : (signed negative n).natAbs = n := by
  cases negative
  · exact Int.natAbs_natCast n
  · exact (Int.natAbs_neg _).trans (Int.natAbs_natCast n)

theorem signed_mul (negative : Bool) (m n : Nat) :
    signed negative (m * n) = signed negative m * n := by
  cases negative
  · exact Int.natCast_mul m n
  · simp [signed]

theorem value_of_nonneg (h : 0 ≤ x.exponent) :
    x.value = signed x.negative (x.mantissa <<< x.exponent.toNat) := by
  obtain ⟨k, hk⟩ := Int.eq_ofNat_of_zero_le h
  rw [value, hk, Int.toNat_natCast, Nat.shiftLeft_eq, signed_mul, zpow_natCast]
  push_cast
  rfl

theorem value_of_neg (h : x.exponent < 0) :
    x.value * 2 ^ (-x.exponent).toNat = signed x.negative x.mantissa := by
  obtain ⟨k, hk⟩ := Int.eq_ofNat_of_zero_le (Int.neg_nonneg_of_nonpos h.le)
  rw [value, hk, Int.toNat_natCast, ← zpow_natCast, mul_assoc, ← zpow_add₀ two_ne_zero]
  simp [← hk]

/-- Just where the value is an integer, the test for whole numbers succeeds, and truncation gives
it. -/
theorem whole_iff {n : Int} : x.isWhole = true ∧ x.truncate = n ↔ x.value = n := by
  unfold isWhole truncate
  split
  · next h =>
    rw [value_of_nonneg h, Int.cast_inj]
    exact and_iff_right rfl
  · next h =>
    have hvalue := value_of_neg (not_le.mp h)
    generalize (-x.exponent).toNat = k at hvalue
    have hpos : (2 : ℚ) ^ k ≠ 0 := pow_ne_zero k two_ne_zero
    rw [beq_iff_eq, Nat.one_shiftLeft, Nat.shiftRight_eq_div_pow]
    -- both sides say what the mantissa is
    have hscaled : x.value = n ↔ signed x.negative x.mantissa = n * 2 ^ k := by
      rw [← mul_left_inj' hpos, hvalue]
      exact_mod_cast Iff.rfl
    rw [hscaled]
    constructor
    · rintro ⟨hrest, rfl⟩
      have hmantissa : x.mantissa = x.mantissa / 2 ^ k * 2 ^ k :=
        (Nat.div_mul_cancel (Nat.dvd_of_mod_eq_zero hrest)).symm
      have hsigned := signed_mul x.negative (x.mantissa / 2 ^ k) (2 ^ k)
      rw [← hmantissa] at hsigned
      exact_mod_cast hsigned
    · intro heq
      have habs : x.mantissa = n.natAbs * 2 ^ k := by
        have hnatAbs := congrArg Int.natAbs heq
        rwa [natAbs_signed, Int.natAbs_mul, Int.natAbs_pow] at hnatAbs
      rw [habs, Nat.mul_mod_left, Nat.mul_div_cancel _ (Nat.two_pow_pos k)]
      refine ⟨rfl, ?_⟩
      rw [habs, signed_mul] at heq
      have hne : (2 : Int) ^ k ≠ 0 := pow_ne_zero k two_ne_zero
      push_cast at heq
      exact mul_right_cancel₀ hne heq

/-! ## Sizes -/

theorem abs_value (x : Dyadic) : |x.value| = x.mantissa * 2 ^ x.exponent := by
  have hpos : (0 : ℚ) < 2 ^ x.exponent := zpow_pos two_pos _
  rw [value, abs_mul, abs_of_pos hpos, ← Int.cast_abs, Int.abs_eq_natAbs, natAbs_signed]
  rfl

theorem value_zero (negative : Bool) (e : Int) : value ⟨negative, 0, e⟩ = 0 := by
  rw [← abs_eq_zero, abs_value, Nat.cast_zero, zero_mul]

theorem value_of_positive {m : Nat} {e : Int} : value ⟨false, m, e⟩ = m * 2 ^ e := rfl

theorem value_negated (negative : Bool) (m : Nat) (e : Int) :
    value ⟨!negative, m, e⟩ = -value ⟨negative, m, e⟩ := by
  rw [value, value, signed_neg]
  push_cast
  rw [neg_mul]

theorem value_of_negative {m : Nat} {e : Int} : value ⟨true, m, e⟩ = -(m * 2 ^ e) :=
  value_negated false m e

/-- A smaller exponent makes a smaller number. -/
theorem mul_zpow_lt {m n : Nat} {d e : Int} (hm : m < 2 ^ 53) (hn : 2 ^ 52 ≤ n)
    (h : d < e) : (m : ℚ) * 2 ^ d < n * 2 ^ e := by
  have hstep : (2 : ℚ) ^ (d + 1) ≤ 2 ^ e := zpow_le_zpow_right₀ one_le_two h
  have hpos {d : Int} : (0 : ℚ) < 2 ^ d := zpow_pos two_pos d
  have hm' : (m : ℚ) < 2 ^ 53 := by exact_mod_cast hm
  have hn' : (2 : ℚ) ^ 52 ≤ n := by exact_mod_cast hn
  calc (m : ℚ) * 2 ^ d < 2 ^ 53 * 2 ^ d := mul_lt_mul_of_pos_right hm' hpos
    _ = 2 ^ 52 * 2 ^ (d + 1) := by rw [zpow_add_one₀ two_ne_zero]; ring
    _ ≤ n * 2 ^ e := mul_le_mul hn' hstep hpos.le (Nat.cast_nonneg n)

/-! ## Whole parts -/

/-- A fraction needs bits of the mantissa, so a number with a fraction is small. -/
theorem Fits.isWhole_of_large (h : x.Fits) (hlarge : 2 ^ 53 ≤ |x.value|) : x.isWhole = true := by
  rw [isWhole]
  split
  · rfl
  · next hexponent =>
    have hsmall : |x.value| < 2 ^ 53 :=
      calc |x.value| = x.mantissa * 2 ^ x.exponent := abs_value x
        _ ≤ x.mantissa * 1 :=
          mul_le_mul_of_nonneg_left
            (zpow_le_one_of_nonpos₀ one_le_two (not_le.mp hexponent).le) (Nat.cast_nonneg _)
        _ < 2 ^ 53 := by
          rw [mul_one]
          exact_mod_cast h.mantissa
    exact absurd hlarge hsmall.not_ge

/-- The size without its fraction. -/
theorem floor_abs_value (x : Dyadic) : ⌊|x.value|⌋ =
    if 0 ≤ x.exponent then x.mantissa <<< x.exponent.toNat
    else x.mantissa >>> (-x.exponent).toNat := by
  rw [abs_value]
  split
  · next h =>
    obtain ⟨k, hk⟩ := Int.eq_ofNat_of_zero_le h
    rw [hk, zpow_natCast, Int.toNat_natCast, Nat.shiftLeft_eq]
    exact_mod_cast Int.floor_natCast (R := ℚ) (x.mantissa * 2 ^ k)
  · next h =>
    obtain ⟨k, hk⟩ := Int.eq_ofNat_of_zero_le (Int.neg_nonneg_of_nonpos (not_le.mp h).le)
    rw [hk, Int.toNat_natCast, Nat.shiftRight_eq_div_pow, ← neg_neg x.exponent, hk, zpow_neg,
      zpow_natCast, ← div_eq_mul_inv]
    exact_mod_cast Rat.floor_natCast_div_natCast x.mantissa (2 ^ k)

theorem truncate_eq_signed (x : Dyadic) : x.truncate = signed x.negative ⌊|x.value|⌋.toNat := by
  rw [floor_abs_value, truncate]
  split <;> rfl

/-- Truncation rounds up below zero and down above it. -/
theorem truncate_eq_ite (x : Dyadic) :
    x.truncate = if x.negative then ⌈x.value⌉ else ⌊x.value⌋ := by
  have hsize : (⌊|x.value|⌋.toNat : Int) = ⌊|x.value|⌋ :=
    Int.toNat_of_nonneg (Int.floor_nonneg.mpr (abs_nonneg _))
  rw [truncate_eq_signed, signed, hsize, abs_value]
  obtain ⟨negative, m, e⟩ := x
  cases negative with
  | false => rfl
  | true => exact ((congrArg _ value_of_negative).trans Int.ceil_neg).symm

theorem truncate_eq (x : Dyadic) : x.truncate = towardZero x.value := by
  rw [truncate_eq_ite]
  obtain ⟨negative, m, e⟩ := x
  have hsize : (0 : ℚ) ≤ m * 2 ^ e := mul_nonneg (Nat.cast_nonneg m) (zpow_pos two_pos e).le
  cases negative with
  | false => exact (if_pos hsize).symm
  | true =>
    rw [value_of_negative, towardZero, if_pos rfl]
    split
    · next hzero =>
      rw [le_antisymm (neg_nonneg.mp hzero) hsize, neg_zero, Int.ceil_zero, Int.floor_zero]
    · rfl

theorem isWhole_iff : x.isWhole = true ↔ x.value ∈ Set.range Int.cast :=
  ⟨fun h => ⟨_, (whole_iff.mp ⟨h, rfl⟩).symm⟩, fun ⟨_, h⟩ => (whole_iff.mpr h.symm).1⟩

theorem floor_eq (x : Dyadic) : x.floor = ⌊x.value⌋ := by
  rw [floor]
  cases hwhole : x.isWhole with
  | true =>
    have hvalue := whole_iff.mp ⟨hwhole, rfl⟩
    rw [hvalue, Int.floor_intCast, Bool.not_true, Bool.and_false]
    rfl
  | false =>
    rw [← Bool.not_eq_true, isWhole_iff, ← Int.ceil_eq_floor_add_one_iff_notMem] at hwhole
    rw [truncate_eq_ite, Bool.not_false, Bool.and_true]
    cases x.negative with
    | false => rfl
    | true =>
      rw [if_pos rfl, if_pos rfl, hwhole]
      exact Int.add_sub_cancel ..

end Dyadic

end LoxLang.Number
