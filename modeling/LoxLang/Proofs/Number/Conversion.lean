import LoxLang.Proofs.Number.Nearest

/-!
# The nearest float

Integers, sums and products are rounded once. No number of the format is nearer than the float that
comes out, and where rounding leads beyond the bound of the format an infinity comes out
(`IsNearest`). A number from one on has only one nearest float (`IsNearest.unique`).
-/

namespace LoxLang.Number

open Float.Model Float.Model.UnpackedFloat

/-- The float denotes a number to which another one is rounded. -/
def RoundsTo (q : ℚ) (x : Float) : Prop :=
  ∃ d, Binary64.ofFloat x = .finite d ∧ d.Rounds q

/-- What the format has for a reduced number. Beyond its bound it has the infinities. -/
def Binary64.bounded (d : Dyadic) : Binary64 :=
  if d.exponent ≤ 971 then .finite d else .infinite d.negative

/-- The float is the one to which a number is rounded, an infinity if the format has no number that
large. -/
def IsNearest (q : ℚ) (x : Float) : Prop :=
  ∃ d : Dyadic, d.Rounds q ∧ Binary64.ofFloat x = .bounded d

/-! ## Packing what has been rounded -/

theorem Binary64.ofFloat_pack_bounded {u : UnpackedFloat} {d : Dyadic}
    (h : ofUnpacked u = .finite d) (hd : d.Reduced) : ofFloat (.ofModel (.pack u)) = bounded d := by
  unfold bounded
  split
  · next hle =>
    rw [ofFloat_pack, h]
    intro d' hd'
    cases h.symm.trans hd'
    exact ⟨hd, hle⟩
  · next hlarge =>
    cases u with
    | infinity | notANumber => cases h
    | zero s =>
      cases h
      exact absurd (show (-1074 : Int) ≤ 971 by decide) hlarge
    | finite s m e hm =>
      cases h
      exact ofFloat_pack_infinite (not_le.mp hlarge)

/-- A reduced number with its sign, from its size. -/
theorem Dyadic.Rounds.signed {d : Dyadic} {m : Nat} {e : Int} (h : d.Rounds (m * 2 ^ e))
    (hd : d.negative = false) (sign : Sign) :
    Rounds { d with negative := Binary64.isNegative sign }
      (value ⟨Binary64.isNegative sign, m, e⟩) := by
  obtain ⟨negative, n, f⟩ := d
  cases hd
  cases sign with
  | positive => exact h
  | negative =>
    rw [show Binary64.isNegative .negative = true from rfl, value_of_negative]
    exact h.neg

theorem isNearest_roundWithAccuracy (sign : Sign) {m : Nat} (hm : 0 < m) {e : Int}
    (he : e ≤ lastExponent m e) : IsNearest (Dyadic.value ⟨Binary64.isNegative sign, m, e⟩)
      (.ofModel (.pack (roundWithAccuracy .binary64 sign m e .exact))) := by
  obtain ⟨d, hrounds, hd, hform⟩ := exists_roundWithAccuracy hm he
  have hsigned := hrounds.signed hd sign
  exact ⟨_, hsigned, Binary64.ofFloat_pack_bounded (hform sign) hsigned.reduced⟩

theorem Dyadic.reduced_zero (negative : Bool) : Reduced ⟨negative, 0, -1074⟩ :=
  ⟨⟨Nat.two_pow_pos 53, le_rfl⟩, .inr rfl⟩

theorem isNearest_zero (sign : Sign) : IsNearest 0 (.ofModel (.pack (.zero sign))) := by
  have hreduced := Dyadic.reduced_zero (Binary64.isNegative sign)
  have hrounds := hreduced.rounds
  rw [Dyadic.value_zero] at hrounds
  exact ⟨_, hrounds, Binary64.ofFloat_pack_bounded rfl hreduced⟩

/-! ## Lengthening a mantissa -/

theorem log2_shiftLeft {m : Nat} (hm : 0 < m) (k : Nat) : (m <<< k).log2 = m.log2 + k := by
  rw [Nat.shiftLeft_eq]
  refine (Nat.log2_eq_iff (Nat.mul_pos hm (Nat.two_pow_pos k)).ne').mpr ⟨?_, ?_⟩
  · rw [pow_add]
    exact Nat.mul_le_mul_right _ (Nat.log2_self_le hm.ne')
  · rw [Nat.add_right_comm, pow_add]
    exact Nat.mul_lt_mul_of_pos_right Nat.lt_log2_self (Nat.two_pow_pos k)

theorem lastExponent_shiftLeft {m : Nat} (hm : 0 < m) (e : Int) (k : Nat) :
    lastExponent (m <<< k) (e - k) = lastExponent m e := by
  rw [lastExponent_eq, lastExponent_eq, log2_shiftLeft hm]
  congr 1
  omega

theorem Dyadic.value_shiftLeft (negative : Bool) (m k : Nat) (e : Int) :
    value ⟨negative, m <<< k, e - k⟩ = value ⟨negative, m, e⟩ := by
  have hsigned : signed negative (m <<< k) = signed negative m * 2 ^ k := by
    rw [Nat.shiftLeft_eq, signed_mul]
    push_cast
    rfl
  rw [value, value, hsigned, zpow_sub₀ two_ne_zero, zpow_natCast]
  push_cast
  field_simp

theorem isNearest_round (sign : Sign) {m : Nat} (hm : 0 < m) (e : Int) :
    IsNearest (Dyadic.value ⟨Binary64.isNegative sign, m, e⟩)
      (.ofModel (.pack (UnpackedFloat.round .binary64 sign m e))) := by
  have hlast := lastExponent_shiftLeft hm e (e - lastExponent m e).toNat
  have hnearest := isNearest_roundWithAccuracy sign
    (m := m <<< (e - lastExponent m e).toNat) (e := e - (e - lastExponent m e).toNat)
    (by rw [Nat.shiftLeft_eq]; exact Nat.mul_pos hm (Nat.two_pow_pos _)) (by rw [hlast]; omega)
  rwa [Dyadic.value_shiftLeft] at hnearest

/-- An integer times a power of two is rounded. -/
theorem isNearest_normalize (n e : Int) (sign : Sign) : IsNearest (n * 2 ^ e)
    (.ofModel (.pack (UnpackedFloat.normalize .binary64 n e sign))) := by
  unfold UnpackedFloat.normalize
  rcases lt_trichotomy n 0 with hneg | rfl | hpos
  · have hsize : ((-n).toNat : ℚ) = -n := by
      exact_mod_cast Int.toNat_of_nonneg (neg_nonneg.mpr hneg.le)
    rw [compare_lt_iff_lt.mpr hneg]
    have hnearest := isNearest_round .negative (show 0 < (-n).toNat by omega) e
    rwa [show Binary64.isNegative .negative = true from rfl, Dyadic.value_of_negative, hsize,
      neg_mul, neg_neg] at hnearest
  · rw [compare_eq_iff_eq.mpr rfl, Int.cast_zero, zero_mul]
    exact isNearest_zero sign
  · have hsize : (n.toNat : ℚ) = n := by exact_mod_cast Int.toNat_of_nonneg hpos.le
    rw [compare_gt_iff_gt.mpr hpos]
    have hnearest := isNearest_round .positive (show 0 < n.toNat by omega) e
    rwa [Binary64.isNegative, Dyadic.value_of_positive, hsize] at hnearest

/-- A 64-bit natural number is rounded. -/
theorem isNearest_toFloat (n : UInt64) : IsNearest n.toNat n.toFloat := by
  have hnearest := isNearest_normalize n.toNat 0 .positive
  rwa [Int.cast_natCast, zpow_zero, mul_one] at hnearest

/-! ## Products -/

theorem Dyadic.value_mul (s s' : Sign) (m m' : Nat) (e e' : Int) :
    value ⟨Binary64.isNegative (s * s'), m * m', e + e'⟩ =
      value ⟨Binary64.isNegative s, m, e⟩ * value ⟨Binary64.isNegative s', m', e'⟩ := by
  have hsigned : signed (Binary64.isNegative (s * s')) (m * m') =
      signed (Binary64.isNegative s) m * signed (Binary64.isNegative s') m' := by
    cases s <;> cases s'
    · change ((m * m' : Nat) : Int) = -m * -m'
      rw [Int.natCast_mul, neg_mul_neg]
    · change -((m * m' : Nat) : Int) = -m * m'
      rw [Int.natCast_mul, neg_mul]
    · change -((m * m' : Nat) : Int) = m * -m'
      rw [Int.natCast_mul, mul_neg]
    · exact Int.natCast_mul m m'
  rw [value, value, value, hsigned, zpow_add₀ two_ne_zero]
  push_cast
  ring

/-- A product of reduced numbers has bits enough. -/
theorem le_lastExponent_mul {m n : Nat} {d e : Int} (hm : 0 < m) (hn : 0 < n)
    (h : Dyadic.Reduced ⟨false, m, d⟩) (h' : Dyadic.Reduced ⟨false, n, e⟩) :
    d + e ≤ lastExponent (m * n) (d + e) := by
  have hpos := Nat.mul_pos hm hn
  have hnormal := h.normal
  have hnormal' := h'.normal
  dsimp only at hnormal hnormal'
  rw [lastExponent_eq]
  by_cases hlong : 2 ^ 52 ≤ m * n
  · have hlog := (@Nat.le_log2 (m * n) 52 hpos.ne').mpr hlong
    omega
  · have hleft : m ≤ m * n := Nat.le_mul_of_pos_right m hn
    have hright : n ≤ m * n := Nat.le_mul_of_pos_left n hm
    omega

/-- A product is rounded. -/
theorem isNearest_mul {x y : Float} {a b : Dyadic} (hx : Binary64.ofFloat x = .finite a)
    (hy : Binary64.ofFloat y = .finite b) : IsNearest (a.value * b.value) (x * y) := by
  have ha := (Binary64.canonical_of_ofFloat hx).toReduced
  have hb := (Binary64.canonical_of_ofFloat hy).toReduced
  rw [Binary64.ofFloat_eq] at hx hy
  change IsNearest _
    (.ofModel (.pack (UnpackedFloat.mul .binary64 x.toModel.unpack y.toModel.unpack)))
  generalize x.toModel.unpack = u at hx ⊢
  generalize y.toModel.unpack = v at hy ⊢
  cases u with
  | infinity | notANumber => cases hx
  | zero s =>
    cases hx
    rw [Dyadic.value_zero, zero_mul]
    cases v with
    | infinity | notANumber => cases hy
    | zero s' => exact isNearest_zero (s * s')
    | finite s' n e hn => exact isNearest_zero (s * s')
  | finite s m d hm =>
    cases hx
    cases v with
    | infinity | notANumber => cases hy
    | zero s' =>
      cases hy
      rw [Dyadic.value_zero, mul_zero]
      exact isNearest_zero (s * s')
    | finite s' n e hn =>
      cases hy
      rw [← Dyadic.value_mul]
      have hbits := le_lastExponent_mul hm hn ⟨⟨ha.mantissa, ha.exponent⟩, ha.normal⟩
        ⟨⟨hb.mantissa, hb.exponent⟩, hb.normal⟩
      exact isNearest_roundWithAccuracy (s * s') (Nat.mul_pos hm hn) hbits

/-! ## Sums -/

/-- A number of the format is the nearest one to itself. -/
theorem isNearest_pack {u : UnpackedFloat} {d : Dyadic} (h : Binary64.ofUnpacked u = .finite d)
    (hd : d.Reduced) : IsNearest d.value (.ofModel (.pack u)) :=
  ⟨d, hd.rounds, Binary64.ofFloat_pack_bounded h hd⟩

theorem Dyadic.value_decreaseExponent (s : Sign) (m : Nat) {e t : Int} (h : t ≤ e) :
    value ⟨Binary64.isNegative s, m, e⟩ = s.apply (decreaseExponent m e t).1 * 2 ^ t := by
  have hexponent : e - (e - t).toNat = t := by omega
  have hvalue := value_shiftLeft (Binary64.isNegative s) m (e - t).toNat e
  rw [hexponent] at hvalue
  rw [← hvalue]
  cases s <;> rfl

/-- A sum is rounded. -/
theorem isNearest_add {x y : Float} {a b : Dyadic} (hx : Binary64.ofFloat x = .finite a)
    (hy : Binary64.ofFloat y = .finite b) : IsNearest (a.value + b.value) (x + y) := by
  have ha := (Binary64.canonical_of_ofFloat hx).toReduced
  have hb := (Binary64.canonical_of_ofFloat hy).toReduced
  rw [Binary64.ofFloat_eq] at hx hy
  change IsNearest _
    (.ofModel (.pack (UnpackedFloat.add .binary64 x.toModel.unpack y.toModel.unpack)))
  generalize x.toModel.unpack = u at hx ⊢
  generalize y.toModel.unpack = v at hy ⊢
  cases u with
  | infinity | notANumber => cases hx
  | zero s =>
    cases hx
    rw [Dyadic.value_zero, zero_add]
    cases v with
    | infinity | notANumber => cases hy
    | zero s' =>
      cases hy
      rw [Dyadic.value_zero, UnpackedFloat.add]
      split <;> exact isNearest_zero _
    | finite s' n e hn => exact isNearest_pack hy hb
  | finite s m d hm =>
    cases v with
    | infinity | notANumber => cases hy
    | zero s' =>
      cases hy
      rw [Dyadic.value_zero, add_zero]
      exact isNearest_pack hx ha
    | finite s' n e hn =>
      cases hx
      cases hy
      rw [Dyadic.value_decreaseExponent s m (min_le_left d e),
        Dyadic.value_decreaseExponent s' n (min_le_right d e), ← add_mul]
      exact_mod_cast isNearest_normalize _ (min d e) .positive

/-! ## Nearest floats -/

namespace IsNearest

variable {x y : Float} {q : ℚ}

/-- A number that is not near the bound of the format has a finite nearest float. -/
theorem roundsTo (h : IsNearest q x) (hsmall : |q| < 2 ^ 1023) : RoundsTo q x := by
  obtain ⟨d, hrounds, hd⟩ := h
  have hle : d.exponent ≤ 971 := by
    by_contra hlarge
    have hlarge := not_le.mp hlarge
    have hnormal := hrounds.reduced.normal.resolve_right (by omega)
    have hzero := hrounds.nearest (Dyadic.reduced_zero false).toFits
    rw [Dyadic.value_zero, sub_zero, abs_sub_comm] at hzero
    have hsize : (2 : ℚ) ^ 1024 ≤ |d.value| :=
      calc (2 : ℚ) ^ 1024 = (2 ^ 52 : Nat) * 2 ^ (972 : Int) := by
            rw [Nat.cast_pow, Nat.cast_ofNat, ← zpow_natCast, ← zpow_natCast,
              ← zpow_add₀ two_ne_zero]
            rfl
        _ ≤ d.mantissa * 2 ^ d.exponent :=
          mul_le_mul (Nat.cast_le.mpr hnormal) (zpow_le_zpow_right₀ one_le_two hlarge)
            (zpow_pos two_pos _).le (Nat.cast_nonneg _)
        _ = |d.value| := (Dyadic.abs_value d).symm
    have htriangle := abs_sub_abs_le_abs_sub d.value q
    rw [pow_succ' 2 1023] at hsize
    generalize (2 : ℚ) ^ 1023 = bound at hsmall hsize
    linarith
  exact ⟨d, hd.trans (if_pos hle), hrounds⟩

theorem one_le_value {d : Dyadic} (h : d.Rounds q) (hq : 1 ≤ q) : 1 ≤ d.value := by
  have hone : Dyadic.Fits ⟨false, 1, 0⟩ := ⟨by decide, by decide⟩
  have hvalue : Dyadic.value ⟨false, 1, 0⟩ = 1 := by
    rw [Dyadic.value_of_positive, Nat.cast_one, zpow_zero, one_mul]
  exact hvalue ▸ h.le_value hone (hvalue ▸ hq)

/-- A number from one on has only one nearest float. -/
theorem unique (hx : IsNearest q x) (hy : IsNearest q y) (hq : 1 ≤ q) : x = y := by
  obtain ⟨d, hd, hxd⟩ := hx
  obtain ⟨e, he, hye⟩ := hy
  obtain rfl := hd.unique he (zero_lt_one.trans_le (one_le_value hd hq))
    (zero_lt_one.trans_le (one_le_value he hq))
  refine Binary64.ofFloat_inj (hxd.trans hye.symm) ?_
  rw [hxd, Binary64.bounded]
  split <;> exact Binary64.noConfusion

end IsNearest

/-! ## Integers -/

/-- Rounding does not change a number of the format. -/
theorem RoundsTo.value_eq {x : Float} {q : ℚ} (h : RoundsTo q x) {y : Dyadic} (hy : y.Fits)
    (hq : y.value = q) : ∃ d, Binary64.ofFloat x = .finite d ∧ d.value = q := by
  obtain ⟨d, hd, hrounds⟩ := h
  have hnear := hrounds.nearest hy
  rw [hq, sub_self, abs_zero] at hnear
  exact ⟨d, hd, (sub_eq_zero.mp (abs_nonpos_iff.mp hnear)).symm⟩

/-- The integers up to the size of a mantissa are numbers of the format. -/
theorem exists_fits {n : Int} (h : n.natAbs ≤ 2 ^ 53) : ∃ d : Dyadic, d.Fits ∧ d.value = n := by
  have hsigned (k : Nat) : Dyadic.signed (decide (n < 0)) k = if n < 0 then -(k : Int) else k := by
    by_cases hn : n < 0 <;> simp [hn, Dyadic.signed]
  rcases Nat.lt_or_eq_of_le h with hlt | heq
  · refine ⟨⟨decide (n < 0), n.natAbs, 0⟩, ⟨hlt, show (-1074 : Int) ≤ 0 by decide⟩, ?_⟩
    rw [Dyadic.value, zpow_zero, mul_one, hsigned, Int.cast_inj]
    dsimp only
    omega
  · refine ⟨⟨decide (n < 0), 2 ^ 52, 1⟩, ⟨show 2 ^ 52 < 2 ^ 53 by decide,
      show (-1074 : Int) ≤ 1 by decide⟩, ?_⟩
    rw [Dyadic.value, zpow_one, hsigned]
    have hdouble : (if n < 0 then -((2 ^ 52 : Nat) : Int) else (2 ^ 52 : Nat)) * 2 = n := by
      split <;> omega
    exact_mod_cast congrArg (Int.cast (R := ℚ)) hdouble

theorem abs_lt_of_natAbs_lt {n : Int} {k : Nat} (h : n.natAbs < 2 ^ k) (hk : k ≤ 1023) :
    |(n : ℚ)| < 2 ^ 1023 :=
  calc |(n : ℚ)| = n.natAbs := by rw [← Int.cast_abs, Int.abs_eq_natAbs, Int.cast_natCast]
    _ < 2 ^ k := by exact_mod_cast h
    _ ≤ 2 ^ 1023 := pow_le_pow_right₀ one_le_two hk

theorem IsNearest.value_eq {x : Float} {n : Int} (h : IsNearest n x) (hn : n.natAbs ≤ 2 ^ 53) :
    ∃ d, Binary64.ofFloat x = .finite d ∧ d.value = n := by
  obtain ⟨y, hy, hvalue⟩ := exists_fits hn
  have hbound : n.natAbs < 2 ^ 54 := lt_of_le_of_lt hn (by decide)
  exact (h.roundsTo (abs_lt_of_natAbs_lt hbound (by decide))).value_eq hy hvalue

theorem ofScientific_zero {n : Nat} (hn : 0 < n) :
    UnpackedFloat.ofScientific .binary64 n 0 =
      roundWithAccuracy .binary64 .positive (n <<< 53) (-53) .exact := by
  have hone : n <<< 53 * 10 ^ (0 : Int).toNat = n <<< 53 := Nat.mul_one _
  have hlimit : (0 : Int) ≤ 2 ^ Format.binary64.exponentBits := by positivity
  unfold UnpackedFloat.ofScientific
  rw [dif_neg hn.ne', if_neg (by omega), if_neg (by omega), if_pos le_rfl]
  change roundWithAccuracy .binary64 .positive (n <<< 53 * 10 ^ (0 : Int).toNat) (-53) .exact = _
  rw [hone]

/-- A natural number is made a float by one rounding. -/
theorem isNearest_ofNat (n : Nat) : IsNearest n (Float.ofNat n) := by
  change IsNearest n (Float.ofScientific n false 0)
  unfold Float.ofScientific
  split
  · next hfast =>
    -- a small number is itself, also when it is multiplied by one
    have hconverted := isNearest_toFloat n.toUInt64
    have hwidth : n.toUInt64.toNat = n :=
      UInt64.toNat_ofNat_of_lt (Nat.lt_trans hfast.1 (by decide))
    rw [hwidth] at hconverted
    obtain ⟨d, hd, hexact⟩ := hconverted.value_eq (n := n) (by exact hfast.1.le)
    have hone : Binary64.ofFloat Float.exactlyRepresentablePowersOfTen[0] =
        .finite ⟨false, 2 ^ 52, -52⟩ := by decide +kernel
    have hvalue : d.value * Dyadic.value ⟨false, 2 ^ 52, -52⟩ = n := by
      rw [hexact, Dyadic.value_of_positive]
      norm_num
    exact hvalue ▸ isNearest_mul hd hone
  · next hslow =>
    have hpos : 0 < n := by omega
    have hvalue : Dyadic.value ⟨false, n <<< 53, -53⟩ = n := by
      have hshift := Dyadic.value_shiftLeft false n 53 0
      rwa [Dyadic.value_of_positive, Dyadic.value_of_positive, zpow_zero, mul_one] at hshift
    change IsNearest n (.ofModel (.pack (UnpackedFloat.ofScientific .binary64 n 0)))
    rw [ofScientific_zero hpos]
    have hnearest := isNearest_roundWithAccuracy .positive (m := n <<< 53) (e := -53)
      (by rw [Nat.shiftLeft_eq]; exact Nat.mul_pos hpos (Nat.two_pow_pos 53))
      (by rw [lastExponent_eq, log2_shiftLeft hpos]; omega)
    rwa [Binary64.isNegative, hvalue] at hnearest

/-- The other sign. -/
def Binary64.negated : Binary64 → Binary64
  | notANumber => notANumber
  | infinite negative => infinite !negative
  | finite d => finite ⟨!d.negative, d.mantissa, d.exponent⟩

theorem Binary64.ofFloat_neg (x : Float) : ofFloat (-x) = (ofFloat x).negated := by
  have hsign (s : Sign) : isNegative (-s) = !isNegative s := by
    cases s <;> rfl
  have hflip (u : UnpackedFloat) : ofUnpacked u.neg = (ofUnpacked u).negated := by
    cases u with
    | notANumber => rfl
    | infinity s | zero s | finite s =>
      rw [UnpackedFloat.neg, ofUnpacked, ofUnpacked, hsign]
      rfl
  have hcanonical {d : Dyadic} (h : ofFloat x = .finite d) : d.Canonical := canonical_of_ofFloat h
  rw [ofFloat_eq] at hcanonical
  rw [ofFloat_eq x, ← hflip]
  refine ofFloat_pack fun d hd => ?_
  rw [hflip] at hd
  generalize ofUnpacked x.toModel.unpack = b at hcanonical hd
  cases b with
  | notANumber | infinite => cases hd
  | finite e =>
    cases hd
    have he := hcanonical rfl
    exact ⟨⟨⟨he.mantissa, he.exponent⟩, he.normal⟩, he.exponent_le⟩

theorem IsNearest.neg {x : Float} {q : ℚ} (h : IsNearest q x) : IsNearest (-q) (-x) := by
  obtain ⟨d, hrounds, hd⟩ := h
  refine ⟨_, hrounds.neg, ?_⟩
  rw [Binary64.ofFloat_neg, hd, Binary64.bounded, Binary64.bounded]
  split <;> rfl

theorem isNearest_ofInt (n : Int) : IsNearest n (Float.ofInt n) := by
  cases n with
  | ofNat n => exact isNearest_ofNat n
  | negSucc n =>
    have hneg := (isNearest_ofNat (n + 1)).neg
    rwa [Int.negSucc_eq, Int.cast_neg, ← Nat.cast_add_one, Int.cast_natCast]

/-- The float that a 64-bit integer is widened to. -/
theorem roundsTo_ofInt64 (n : Int64) : RoundsTo n.toInt (ofInt64 n) := by
  have hlow := Int64.minValue_le_toInt n
  have hhigh := Int64.toInt_le n
  simp only [Int64.toInt_minValue, Int64.toInt_maxValue] at hlow hhigh
  have hbound : n.toInt.natAbs < 2 ^ 64 := by omega
  exact (isNearest_ofInt _).roundsTo (abs_lt_of_natAbs_lt hbound (by decide))

end LoxLang.Number
