import LoxLang.Proofs.Number.Rounding

/-!
# One nearest number

A positive number is written in one way in reduced form, and the next number of the format is one
unit above it. So there is only one number that another one is rounded to (`Dyadic.Rounds.unique`),
and rounding keeps the order with the numbers of the format.
-/

namespace LoxLang.Number.Dyadic

variable {x y : Dyadic} {q : ℚ}

theorem eq_of_value_pos (h : 0 < x.value) : x = ⟨false, x.mantissa, x.exponent⟩ := by
  obtain ⟨negative, m, e⟩ := x
  cases negative with
  | false => rfl
  | true =>
    have hneg : value ⟨true, m, e⟩ = -(m * 2 ^ e) := value_of_negative
    have hpos : (0 : ℚ) ≤ m * 2 ^ e := mul_nonneg (Nat.cast_nonneg m) (zpow_pos two_pos e).le
    linarith

theorem value_eq_of_pos (h : 0 < x.value) : x.value = x.mantissa * 2 ^ x.exponent := by
  conv_lhs => rw [eq_of_value_pos h, value_of_positive]

/-- A positive number is written in one way. -/
theorem Reduced.eq_of_value (hx : x.Reduced) (hy : y.Reduced) (hpos : 0 < x.value)
    (h : x.value = y.value) : x = y := by
  have hxform := eq_of_value_pos hpos
  have hyform := eq_of_value_pos (h ▸ hpos)
  have horder := compare_fields (hxform ▸ hx) (hyform ▸ hy)
  rw [hxform, hyform, value_of_positive, value_of_positive] at h
  rw [h, cmp_self_eq_eq, Ordering.then_eq_eq, compare_eq_iff_eq, compare_eq_iff_eq] at horder
  rw [hxform, hyform, horder.1, horder.2]

/-- A number of the format above a reduced one is a whole number of units of that one. -/
theorem Reduced.exists_units (hx : x.Reduced) (hy : y.Fits) (hpos : 0 < x.value)
    (h : x.value < y.value) : ∃ n : Int, x.mantissa < n ∧ y.value = n * 2 ^ x.exponent := by
  have hunit : (0 : ℚ) < 2 ^ x.exponent := zpow_pos two_pos _
  rcases hy.multiple_or_small x.exponent with ⟨n, hn⟩ | ⟨hne, hsmall⟩
  · refine ⟨n, ?_, hn⟩
    rw [value_eq_of_pos hpos, hn, mul_lt_mul_iff_left₀ hunit] at h
    exact_mod_cast h
  · -- below the least normal mantissa there is no greater number
    have hnormal : (2 : ℚ) ^ 52 ≤ x.mantissa := by exact_mod_cast hx.normal.resolve_right hne
    have hle : 2 ^ 52 * 2 ^ x.exponent ≤ x.value := by
      rw [value_eq_of_pos hpos]
      exact mul_le_mul_of_nonneg_right hnormal hunit.le
    linarith [le_abs_self y.value]

/-- The next number of the format is one unit above. -/
theorem Reduced.next_le (hx : x.Reduced) (hy : y.Fits) (hpos : 0 < x.value)
    (h : x.value < y.value) : x.value + 2 ^ x.exponent ≤ y.value := by
  obtain ⟨n, hn, hvalue⟩ := hx.exists_units hy hpos h
  have hcast : (x.mantissa : ℚ) + 1 ≤ n := by exact_mod_cast hn
  rw [hvalue, value_eq_of_pos hpos, ← add_one_mul]
  exact mul_le_mul_of_nonneg_right hcast (zpow_pos two_pos _).le

/-- One unit above a reduced number there is one. -/
theorem Reduced.reduced_next (hx : x.Reduced) : (carried (x.mantissa + 1) x.exponent).Reduced :=
  reduced_carried hx.mantissa hx.exponent
    (hx.normal.symm.imp_right fun hnormal => hnormal.trans (Nat.le_succ _))

theorem value_next (hpos : 0 < x.value) :
    (carried (x.mantissa + 1) x.exponent).value = x.value + 2 ^ x.exponent := by
  rw [value_carried, value_eq_of_pos hpos]
  push_cast
  ring

/-! ## Rounding to a number -/

theorem Reduced.rounds (h : x.Reduced) : x.Rounds x.value where
  reduced := h
  nearest _ := by
    rw [sub_self, abs_zero]
    exact abs_nonneg _
  even _ htie := by
    rw [sub_self, abs_zero, abs_eq_zero, sub_eq_zero] at htie
    exact .inl htie.symm

/-- A number of the format that is not above a number is not above the one it is rounded to. -/
theorem Rounds.le_value (h : x.Rounds q) (hy : y.Fits) (hle : y.value ≤ q) : y.value ≤ x.value := by
  by_contra hlt
  have hnear := h.nearest hy
  rw [abs_of_nonneg (sub_nonneg.mpr hle), abs_of_nonneg (by linarith)] at hnear
  linarith

/-- Two numbers cannot both be the even one of the nearest two. -/
theorem Rounds.not_value_lt (hx : x.Rounds q) (hy : y.Rounds q) (hpos : 0 < x.value) :
    ¬x.value < y.value := by
  intro hlt
  have htie : |q - x.value| = |q - y.value| :=
    le_antisymm (hx.nearest hy.reduced.toFits) (hy.nearest hx.reduced.toFits)
  have hmiddle : q - x.value = y.value - q := by
    rcases abs_eq_abs.mp htie with heq | heq <;> linarith
  have hxeven := (hx.even hy.reduced.toFits htie.symm).resolve_left hlt.ne'
  have hyeven := (hy.even hx.reduced.toFits htie).resolve_left hlt.ne
  have hunit : (0 : ℚ) < 2 ^ x.exponent := zpow_pos two_pos _
  have hreduced := hx.reduced.reduced_next
  have hnext := value_next hpos
  -- the next number is not nearer, so it is the other one
  have hbeyond : y.value ≤ x.value + 2 ^ x.exponent := by
    by_contra hbetween
    have hnear := hx.nearest hreduced.toFits
    rw [hnext, abs_of_nonneg (by linarith)] at hnear
    rcases abs_cases (q - (x.value + 2 ^ x.exponent)) with ⟨habs, -⟩ | ⟨habs, -⟩
    all_goals
      rw [habs] at hnear
      linarith
  have hsame : y.value = (carried (x.mantissa + 1) x.exponent).value :=
    hnext ▸ le_antisymm hbeyond (hx.reduced.next_le hy.reduced.toFits hpos hlt)
  -- and it is odd
  obtain rfl := hy.reduced.eq_of_value hreduced (hpos.trans hlt) hsame
  have hshort : x.mantissa + 1 ≠ 2 ^ 53 := by omega
  rw [carried, if_neg hshort] at hyeven
  dsimp only at hyeven
  omega

/-- There is only one number that a positive one is rounded to. -/
theorem Rounds.unique (hx : x.Rounds q) (hy : y.Rounds q) (hpos : 0 < x.value)
    (hpos' : 0 < y.value) : x = y :=
  hx.reduced.eq_of_value hy.reduced hpos
    (le_antisymm (le_of_not_gt (hy.not_value_lt hx hpos')) (le_of_not_gt (hx.not_value_lt hy hpos)))

end LoxLang.Number.Dyadic
