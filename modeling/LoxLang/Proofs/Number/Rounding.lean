import LoxLang.Proofs.Number.Order

/-!
# Rounding

Rounding drops bits of a mantissa and keeps of them only what decides about the last one: whether
half a unit or more is lost, and whether anything else is (`Bracket`). So the result is as near to
the exact number as any number that the format has (`Dyadic.Rounds`).
-/

namespace LoxLang.Number

open Float.Model Float.Model.UnpackedFloat

/-! ## Mantissas -/

/-- Two integers around a number are the same if they are close enough to it. -/
theorem eq_of_abs_sub_lt {x : ℚ} {m n : Int} (h : |x - m| + |x - n| < 1) : m = n := by
  have htriangle := abs_sub_le (m : ℚ) x n
  rw [abs_sub_comm (m : ℚ) x] at htriangle
  have hgap : |((m - n : Int) : ℚ)| < 1 := by
    push_cast
    linarith
  rw [← Int.cast_abs, ← Int.cast_one, Int.cast_lt] at hgap
  exact sub_eq_zero.mp (Int.abs_lt_one_iff.mp hgap)

/-- A mantissa with its two residual bits, against the number that it has been cut from. -/
structure Bracket (em : ExtendedMantissa) (x : ℚ) : Prop where
  lower : em.mantissa ≤ x
  upper : x < em.mantissa + 1
  round : em.roundBit = true ↔ em.mantissa + 1 / 2 ≤ x
  sticky : em.stickyBit = true ↔ x ≠ em.mantissa ∧ x ≠ em.mantissa + 1 / 2

namespace Bracket

variable {em : ExtendedMantissa} {x : ℚ}

theorem exact (m : Nat) : Bracket (.ofMantissaAndAccuracy m .exact) m where
  lower := le_refl _
  upper := lt_add_one _
  round := by simp [ExtendedMantissa.ofMantissaAndAccuracy]
  sticky := by simp [ExtendedMantissa.ofMantissaAndAccuracy]

/-- One of the residual bits is set unless nothing was lost. -/
theorem residue_iff (h : Bracket em x) :
    (em.roundBit || em.stickyBit) = true ↔ x ≠ em.mantissa := by
  rw [Bool.or_eq_true, h.round, h.sticky]
  constructor
  · rintro (hhalf | ⟨hne, -⟩)
    · intro heq
      linarith
    · exact hne
  · intro hne
    by_cases heq : x = em.mantissa + 1 / 2
    · exact .inl heq.ge
    · exact .inr ⟨hne, heq⟩

theorem shiftRightOne (h : Bracket em x) : Bracket em.shiftRightOne (x / 2) := by
  have hlower := h.lower
  have hupper := h.upper
  have hresidue := h.residue_iff
  have hsticky : em.shiftRightOne.stickyBit = true ↔ x ≠ em.mantissa := hresidue
  obtain ⟨half, heven | hodd⟩ : ∃ half, em.mantissa = 2 * half ∨ em.mantissa = 2 * half + 1 :=
    ⟨em.mantissa / 2, by omega⟩
  · have hmantissa : em.shiftRightOne.mantissa = half := by
      simp [ExtendedMantissa.shiftRightOne, heven]
    have hround : em.shiftRightOne.roundBit = false := by
      simp [ExtendedMantissa.shiftRightOne, heven]
    have hcast : (em.mantissa : ℚ) = 2 * half := by exact_mod_cast heven
    rw [hcast] at hlower hupper hsticky
    refine ⟨?_, ?_, ?_, ?_⟩
    all_goals rw [hmantissa]
    · linarith
    · linarith
    · refine ⟨fun h => absurd (hround.symm.trans h) Bool.false_ne_true, fun h => ?_⟩
      linarith
    · rw [hsticky]
      refine ⟨fun hne => ⟨fun h => hne ?_, fun h => ?_⟩, fun h heq => h.1 ?_⟩ <;> linarith
  · have hmantissa : em.shiftRightOne.mantissa = half := by
      simp only [ExtendedMantissa.shiftRightOne, hodd]
      omega
    have hround : em.shiftRightOne.roundBit = true := by
      simp [ExtendedMantissa.shiftRightOne, hodd]
    have hcast : (em.mantissa : ℚ) = 2 * half + 1 := by exact_mod_cast hodd
    rw [hcast] at hlower hupper hsticky
    refine ⟨?_, ?_, ?_, ?_⟩
    all_goals rw [hmantissa]
    · linarith
    · linarith
    · refine ⟨fun _ => ?_, fun _ => hround⟩
      linarith
    · rw [hsticky]
      refine ⟨fun hne => ⟨fun h => ?_, fun h => hne ?_⟩, fun h heq => h.2 ?_⟩ <;> linarith

theorem shiftRight (h : Bracket em x) (k : Nat) : Bracket (em >>> k) (x / 2 ^ k) := by
  induction k with
  | zero =>
    rw [pow_zero, div_one]
    exact h
  | succ k ih =>
    rw [pow_succ, ← div_div]
    exact ih.shiftRightOne

/-- Below the middle of its unit a number is rounded down, -/
theorem rounded_down (h : Bracket em x) (hx : x < em.mantissa + 1 / 2) :
    em.roundedMantissa = em.mantissa := by
  have hround := h.round
  obtain ⟨m, round, sticky⟩ := em
  cases round with
  | false => cases sticky <;> rfl
  | true => exact absurd (hround.mp rfl) hx.not_ge

/-- above the middle it is rounded up, -/
theorem rounded_up (h : Bracket em x) (hx : em.mantissa + 1 / 2 < x) :
    em.roundedMantissa = em.mantissa + 1 := by
  have hround := h.round.mpr hx.le
  have hsticky := h.sticky.mpr ⟨by linarith, hx.ne'⟩
  obtain ⟨m, round, sticky⟩ := em
  cases hround
  cases hsticky
  rfl

/-- and in the middle it is rounded to the even end. -/
theorem rounded_half (h : Bracket em x) (hx : x = em.mantissa + 1 / 2) :
    em.roundedMantissa = em.mantissa + em.mantissa % 2 := by
  have hround := h.round.mpr hx.ge
  have hsticky : em.stickyBit = false := Bool.eq_false_iff.mpr fun hset => (h.sticky.mp hset).2 hx
  obtain ⟨m, round, sticky⟩ := em
  cases hround
  cases hsticky
  rfl

/-- The rounded mantissa is at most half a unit off; if it is just half a unit, it is even. -/
theorem roundedMantissa (h : Bracket em x) :
    |x - em.roundedMantissa| ≤ 1 / 2 ∧
      (|x - em.roundedMantissa| = 1 / 2 → em.roundedMantissa % 2 = 0) := by
  have hlower := h.lower
  have hupper := h.upper
  rcases lt_trichotomy x (em.mantissa + 1 / 2) with hbelow | hhalf | habove
  · rw [h.rounded_down hbelow, abs_of_nonneg (sub_nonneg.mpr hlower)]
    exact ⟨by linarith, fun heq => by linarith⟩
  · rw [h.rounded_half hhalf, hhalf]
    refine ⟨?_, fun _ => by omega⟩
    rcases Nat.mod_two_eq_zero_or_one em.mantissa with hbit | hbit
    all_goals
      rw [hbit]
      push_cast
      rw [abs_le]
      constructor <;> linarith
  · rw [h.rounded_up habove]
    push_cast
    rw [abs_of_nonpos (by linarith)]
    exact ⟨by linarith, fun heq => by linarith⟩

/-- No integer is nearer than the rounded mantissa. -/
theorem abs_sub_roundedMantissa_le (h : Bracket em x) (n : Int) :
    |x - em.roundedMantissa| ≤ |x - n| := by
  have hclose := h.roundedMantissa.1
  by_contra hnearer
  have hsame : n = em.roundedMantissa := eq_of_abs_sub_lt (x := x) (by push_cast; linarith)
  rw [hsame] at hnearer
  exact hnearer le_rfl

end Bracket

/-- A number of the format is a multiple of a unit, or it is small against the unit. -/
theorem Dyadic.Fits.multiple_or_small {y : Dyadic} (hy : y.Fits) (t : Int) :
    (∃ n : Int, y.value = n * 2 ^ t) ∨ (t ≠ -1074 ∧ |y.value| < 2 ^ 52 * 2 ^ t) := by
  rcases le_or_gt t y.exponent with hle | hlt
  · obtain ⟨k, hk⟩ := Int.eq_ofNat_of_zero_le (sub_nonneg.mpr hle)
    refine .inl ⟨signed y.negative y.mantissa * 2 ^ k, ?_⟩
    rw [value, ← sub_add_cancel y.exponent t, zpow_add₀ two_ne_zero, hk]
    push_cast
    rw [zpow_natCast, mul_assoc]
  · refine .inr ⟨fun heq => ?_, ?_⟩
    · have hexponent := hy.exponent
      omega
    · rw [abs_value]
      exact_mod_cast mul_zpow_lt hy.mantissa le_rfl hlt

/-- No number of the format is nearer than the rounded mantissa. Another one is as near only if the
mantissa is even. -/
theorem Bracket.nearest {em : ExtendedMantissa} {x : ℚ} {t : Int} (h : Bracket em x)
    (hlarge : t = -1074 ∨ 2 ^ 52 ≤ x) {y : Dyadic} (hy : y.Fits) :
    |x * 2 ^ t - em.roundedMantissa * 2 ^ t| ≤ |x * 2 ^ t - y.value| ∧
      (|x * 2 ^ t - y.value| = |x * 2 ^ t - em.roundedMantissa * 2 ^ t| →
        y.value = em.roundedMantissa * 2 ^ t ∨ em.roundedMantissa % 2 = 0) := by
  have hunit : (0 : ℚ) < 2 ^ t := zpow_pos two_pos t
  rw [← sub_mul, abs_mul, abs_of_pos hunit]
  rcases hy.multiple_or_small t with ⟨n, hn⟩ | ⟨hne, hsmall⟩
  · rw [hn, ← sub_mul, abs_mul, abs_of_pos hunit]
    refine ⟨mul_le_mul_of_nonneg_right (h.abs_sub_roundedMantissa_le n) hunit.le, fun htie => ?_⟩
    have hsame := mul_right_cancel₀ hunit.ne' htie
    obtain ⟨hclose, heven⟩ := h.roundedMantissa
    by_cases heq : n = em.roundedMantissa
    · exact .inl (by rw [heq, Int.cast_natCast])
    · refine .inr (heven (le_antisymm hclose ?_))
      by_contra hnear
      exact heq (eq_of_abs_sub_lt (x := x) (by push_cast; linarith))
  · have hbound : 2 ^ 52 ≤ x := hlarge.resolve_left hne
    have hnear := h.abs_sub_roundedMantissa_le (2 ^ 52)
    rw [Int.cast_pow, Int.cast_ofNat, abs_of_nonneg (sub_nonneg.mpr hbound)] at hnear
    have hstrict : |x - em.roundedMantissa| * 2 ^ t < |x * 2 ^ t - y.value| :=
      calc |x - em.roundedMantissa| * 2 ^ t ≤ (x - 2 ^ 52) * 2 ^ t :=
            mul_le_mul_of_nonneg_right hnear hunit.le
        _ = x * 2 ^ t - 2 ^ 52 * 2 ^ t := sub_mul ..
        _ < x * 2 ^ t - |y.value| := sub_lt_sub_left hsmall _
        _ ≤ x * 2 ^ t - y.value := sub_le_sub_left (le_abs_self _) _
        _ ≤ |x * 2 ^ t - y.value| := le_abs_self _
    exact ⟨hstrict.le, fun htie => absurd htie hstrict.ne'⟩

/-! ## Shifting to the exponent of the format -/

/-- The exponent of the last bit that the format keeps of a number. -/
def lastExponent (m : Nat) (e : Int) : Int :=
  Format.binary64.targetExponent (totalExponent m e)

theorem lastExponent_eq (m : Nat) (e : Int) :
    lastExponent m e = max (m.log2 + 1 + e - 53) (-1074) := rfl

/-- The mantissa in which the last bit that is kept is the unit. -/
theorem bracket_shiftToTargetExponent {m : Nat} {e : Int} (h : e ≤ lastExponent m e) :
    Bracket (shiftToTargetExponent .binary64 m e .exact).1 (m * 2 ^ (e - lastExponent m e)) ∧
      (shiftToTargetExponent .binary64 m e .exact).2 = lastExponent m e := by
  have hamount : ((lastExponent m e - e).toNat : Int) = lastExponent m e - e :=
    Int.toNat_of_nonneg (sub_nonneg.mpr h)
  constructor
  · have hbracket := (Bracket.exact m).shiftRight (lastExponent m e - e).toNat
    rwa [div_eq_mul_inv, ← zpow_natCast, hamount, ← zpow_neg, neg_sub] at hbracket
  · change e + ((lastExponent m e - e).toNat : Int) = _
    rw [hamount, add_sub_cancel]

/-- In that unit the number has 53 bits, or fewer only where the exponent can be no less. -/
theorem scaled_bounds {m : Nat} (hm : 0 < m) (e : Int) :
    (m : ℚ) * 2 ^ (e - lastExponent m e) < 2 ^ 53 ∧
      (lastExponent m e = -1074 ∨ 2 ^ 52 ≤ (m : ℚ) * 2 ^ (e - lastExponent m e)) := by
  have hupper : (m : ℚ) < 2 ^ (m.log2 + 1) := by exact_mod_cast Nat.lt_log2_self
  have hlower : (2 : ℚ) ^ m.log2 ≤ m := by exact_mod_cast Nat.log2_self_le hm.ne'
  have hexponent := lastExponent_eq m e
  generalize lastExponent m e = t at hexponent
  have hunit : (0 : ℚ) < 2 ^ (e - t) := zpow_pos two_pos _
  constructor
  · calc (m : ℚ) * 2 ^ (e - t) < 2 ^ (m.log2 + 1) * 2 ^ (e - t) :=
          mul_lt_mul_of_pos_right hupper hunit
      _ = 2 ^ ((m.log2 + 1 : Nat) + (e - t)) := by rw [zpow_add₀ two_ne_zero, zpow_natCast]
      _ ≤ 2 ^ (53 : Int) := zpow_le_zpow_right₀ one_le_two (by push_cast; omega)
  · rcases eq_or_ne t (-1074) with hmin | hmin
    · exact .inl hmin
    · refine .inr ?_
      calc (2 : ℚ) ^ 52 = 2 ^ ((m.log2 : Int) + (e - t)) := by
            rw [show (m.log2 : Int) + (e - t) = (52 : Nat) by omega, zpow_natCast]
        _ = 2 ^ m.log2 * 2 ^ (e - t) := by rw [zpow_add₀ two_ne_zero, zpow_natCast]
        _ ≤ m * 2 ^ (e - t) := mul_le_mul_of_nonneg_right hlower hunit.le

/-- A mantissa that rounding has made one bit too long is shifted once more. Nothing is lost. -/
theorem shiftToTargetExponent_rounded {q : Nat} (hq : q ≤ 2 ^ 53) {t : Int} (ht : -1074 ≤ t) :
    shiftToTargetExponent .binary64 q t .exact =
      if q = 2 ^ 53 then (⟨2 ^ 52, false, false⟩, t + 1) else (⟨q, false, false⟩, t) := by
  have hshift (k : Nat) (hk : (lastExponent q t - t).toNat = k) :
      shiftToTargetExponent .binary64 q t .exact =
        (ExtendedMantissa.ofMantissaAndAccuracy q .exact >>> k, t + k) := by
    rw [← hk]
    rfl
  split
  · next heq =>
    have hlast : lastExponent q t = t + 1 := by
      rw [lastExponent_eq, heq, Nat.log2_two_pow]
      omega
    rw [hshift 1 (by omega), heq]
    rfl
  · next hne =>
    have hlog : q.log2 ≤ 52 := by
      rcases Nat.eq_zero_or_pos q with rfl | hpos
      · simp
      · have hlt := (@Nat.log2_lt q 53 hpos.ne').mpr (by omega)
        omega
    have hlast : lastExponent q t ≤ t := by
      rw [lastExponent_eq]
      omega
    rw [hshift 0 (by omega), Nat.cast_zero, add_zero]
    rfl

/-- A reduced number that is as near to another one as any number of the format, and even if there
are two such numbers. -/
structure Dyadic.Rounds (x : Dyadic) (q : ℚ) : Prop where
  reduced : x.Reduced
  nearest : ∀ {y : Dyadic}, y.Fits → |q - x.value| ≤ |q - y.value|
  even : ∀ {y : Dyadic}, y.Fits → |q - y.value| = |q - x.value| →
    y.value = x.value ∨ x.mantissa % 2 = 0

namespace Dyadic

theorem Fits.neg {x : Dyadic} (h : x.Fits) : Fits ⟨!x.negative, x.mantissa, x.exponent⟩ :=
  ⟨h.mantissa, h.exponent⟩

/-- Rounding does the same on both sides of zero. -/
theorem Rounds.neg {negative : Bool} {m : Nat} {e : Int} {q : ℚ}
    (h : Rounds ⟨negative, m, e⟩ q) : Rounds ⟨!negative, m, e⟩ (-q) := by
  have hflip (y : Dyadic) :
      |-q - y.value| = |q - value ⟨!y.negative, y.mantissa, y.exponent⟩| := by
    rw [value_negated, abs_sub_comm, sub_neg_eq_add, sub_neg_eq_add, add_comm]
  have hsame : value ⟨!!negative, m, e⟩ = value ⟨negative, m, e⟩ := by rw [Bool.not_not]
  refine ⟨⟨⟨h.reduced.mantissa, h.reduced.exponent⟩, h.reduced.normal⟩, fun {y} hy => ?_,
    fun {y} hy htie => ?_⟩
  · rw [hflip, hflip, hsame]
    exact h.nearest hy.neg
  · rw [hflip, hflip, hsame] at htie
    refine (h.even hy.neg htie).imp_left fun heq => ?_
    rw [value_negated] at heq ⊢
    rw [← heq, neg_neg]

end Dyadic

/-! ## Rounded numbers -/

/-- The number with this mantissa of 53 bits and this exponent. A mantissa that rounding has made
one bit too long is shifted. -/
def carried (q : Nat) (t : Int) : Dyadic :=
  if q = 2 ^ 53 then ⟨false, 2 ^ 52, t + 1⟩ else ⟨false, q, t⟩

theorem value_carried (q : Nat) (t : Int) : (carried q t).value = q * 2 ^ t := by
  unfold carried
  split
  · next hfull =>
    rw [Dyadic.value_of_positive, hfull, zpow_add_one₀ two_ne_zero]
    push_cast
    ring
  · rfl

theorem negative_carried (q : Nat) (t : Int) : (carried q t).negative = false := by
  unfold carried
  split <;> rfl

theorem even_carried {q : Nat} (t : Int) (h : q % 2 = 0) : (carried q t).mantissa % 2 = 0 := by
  unfold carried
  split
  · exact show 2 ^ 52 % 2 = 0 by decide
  · exact h

theorem reduced_carried {q : Nat} (hq : q ≤ 2 ^ 53) {t : Int} (ht : -1074 ≤ t)
    (hnormal : t = -1074 ∨ 2 ^ 52 ≤ q) : (carried q t).Reduced := by
  unfold carried
  split
  · exact ⟨⟨show 2 ^ 52 < 2 ^ 53 by decide, ht.trans (Int.le_add_one le_rfl)⟩, .inl le_rfl⟩
  · next hfull => exact ⟨⟨lt_of_le_of_ne hq hfull, ht⟩, hnormal.symm⟩

/-- A number is cut to a mantissa of 53 bits, or of fewer only where the exponent can be no less. -/
structure Cut (em : ExtendedMantissa) (x : ℚ) (t : Int) : Prop extends Bracket em x where
  lt : x < 2 ^ 53
  large : t = -1074 ∨ 2 ^ 52 ≤ x
  exponent : -1074 ≤ t

namespace Cut

variable {em : ExtendedMantissa} {x : ℚ} {t : Int}

theorem roundedMantissa_le (h : Cut em x t) : em.roundedMantissa ≤ 2 ^ 53 := by
  have hnear := h.abs_sub_roundedMantissa_le (2 ^ 53)
  rw [Int.cast_pow, Int.cast_ofNat, abs_sub_comm x (2 ^ 53), abs_of_pos (sub_pos.mpr h.lt)] at hnear
  have hcast : (em.roundedMantissa : ℚ) ≤ 2 ^ 53 := by
    linarith [neg_abs_le (x - em.roundedMantissa)]
  exact_mod_cast hcast

theorem normal (h : Cut em x t) : t = -1074 ∨ 2 ^ 52 ≤ em.roundedMantissa :=
  h.large.imp_right fun hlarge => by
    have hnear := h.abs_sub_roundedMantissa_le (2 ^ 52)
    rw [Int.cast_pow, Int.cast_ofNat, abs_of_nonneg (sub_nonneg.mpr hlarge)] at hnear
    have hcast : (2 : ℚ) ^ 52 ≤ em.roundedMantissa := by
      linarith [le_abs_self (x - em.roundedMantissa)]
    exact_mod_cast hcast

/-- The rounded mantissa makes the number that is rounded to. -/
theorem rounds (h : Cut em x t) : (carried em.roundedMantissa t).Rounds (x * 2 ^ t) where
  reduced := reduced_carried h.roundedMantissa_le h.exponent h.normal
  nearest hy := by
    rw [value_carried]
    exact (h.nearest h.large hy).1
  even hy htie := by
    rw [value_carried] at htie ⊢
    exact ((h.nearest h.large hy).2 htie).imp_right (even_carried t)

end Cut

/-- What rounding gives: the same size with either sign, as near to the size of the exact number as
any other. -/
theorem exists_roundWithAccuracy {m : Nat} (hm : 0 < m) {e : Int} (he : e ≤ lastExponent m e) :
    ∃ d : Dyadic, d.Rounds (m * 2 ^ e) ∧ d.negative = false ∧ ∀ sign,
      Binary64.ofUnpacked (roundWithAccuracy .binary64 sign m e .exact) =
        .finite { d with negative := Binary64.isNegative sign } := by
  obtain ⟨hbracket, hexponent⟩ := bracket_shiftToTargetExponent he
  obtain ⟨hbelow, hlarge⟩ := scaled_bounds hm e
  have hcut : Cut _ _ (lastExponent m e) := ⟨hbracket, hbelow, hlarge, le_max_right _ _⟩
  have hexact : (m : ℚ) * 2 ^ (e - lastExponent m e) * 2 ^ lastExponent m e = m * 2 ^ e := by
    rw [mul_assoc, ← zpow_add₀ two_ne_zero, sub_add_cancel]
  refine ⟨_, hexact ▸ hcut.rounds, negative_carried _ _, fun sign => ?_⟩
  have hle := hcut.roundedMantissa_le
  have hnormal := hcut.normal
  unfold roundWithAccuracy carried
  dsimp only
  rw [hexponent]
  generalize (shiftToTargetExponent .binary64 m e .exact).1.roundedMantissa = q at hle hnormal ⊢
  rw [shiftToTargetExponent_rounded hle hcut.exponent]
  by_cases hfull : q = 2 ^ 53
  · rw [if_pos hfull, if_pos hfull]
    rfl
  · rw [if_neg hfull, if_neg hfull]
    split
    · next hzero =>
      obtain rfl : q = 0 := hzero
      rw [hnormal.resolve_right (by decide)]
      rfl
    · rfl

end LoxLang.Number
