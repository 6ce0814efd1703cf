import LoxLang.Number.Shortest
import LoxLang.Proofs.Number.Conversion

/-!
# Shortest digits

The digits with which a number is written belong to it: among the numbers of the format it is the
one nearest to them (`rounds_of_owns`). Seventeen digits are always enough, since the points of that
grid lie closer together than the ends of what a number owns (`owns_gridPoint`).
-/

namespace LoxLang.Number

/-- A power of two or ten, split into what multiplies and what divides. -/
theorem zpow_mul_toNat {b : ℚ} (hb : b ≠ 0) (e : Int) : b ^ e * b ^ (-e).toNat = b ^ e.toNat := by
  rw [← zpow_natCast, ← zpow_natCast, ← zpow_add₀ hb]
  congr 1
  omega

/-- The point with this number on the grid with steps of `10 ^ -places`. -/
def gridValue (n : Nat) (places : Int) : ℚ :=
  n * 10 ^ (-places)

theorem gridValue_mul (n : Nat) (places : Int) :
    gridValue n places * 10 ^ places.toNat = n * 10 ^ (-places).toNat := by
  have hsplit := zpow_mul_toNat (b := 10) (by decide) (-places)
  rw [neg_neg] at hsplit
  rw [gridValue, mul_assoc, hsplit]

/-- How far what a number owns reaches below it. -/
def Dyadic.gapBelow (d : Dyadic) : ℚ :=
  if d.mantissa = 2 ^ 52 ∧ -1074 < d.exponent then 2 ^ d.exponent / 4 else 2 ^ d.exponent / 2

namespace OwnedInterval

section

variable (m : Nat) (e : Int)

theorem denominator_pos : (0 : ℚ) < (ofDyadic m e).denominator := by
  rw [Nat.cast_pos]
  change 0 < 4 <<< (-e).toNat
  rw [Nat.shiftLeft_eq]
  positivity

theorem scale_eq : ((1 <<< e.toNat : Nat) : ℚ) * 4 = 2 ^ e * (ofDyadic m e).denominator := by
  change ((1 <<< e.toNat : Nat) : ℚ) * 4 = 2 ^ e * (4 <<< (-e).toNat : Nat)
  rw [Nat.shiftLeft_eq, Nat.shiftLeft_eq, one_mul]
  push_cast
  rw [← zpow_mul_toNat two_ne_zero e]
  ring

theorem numerator_eq : ((ofDyadic m e).numerator : ℚ) =
    Dyadic.value ⟨false, m, e⟩ * (ofDyadic m e).denominator := by
  rw [Dyadic.value_of_positive, mul_assoc, ← scale_eq]
  change ((4 * m * 1 <<< e.toNat : Nat) : ℚ) = _
  push_cast
  ring

theorem above_eq : ((ofDyadic m e).above : ℚ) = 2 ^ e / 2 * (ofDyadic m e).denominator := by
  rw [div_mul_eq_mul_div, ← scale_eq]
  change ((2 * 1 <<< e.toNat : Nat) : ℚ) = _
  push_cast
  ring

theorem below_eq : ((ofDyadic m e).below : ℚ) =
    Dyadic.gapBelow ⟨false, m, e⟩ * (ofDyadic m e).denominator := by
  change (((if m = 2 ^ 52 ∧ -1074 < e then 1 else 2) * 1 <<< e.toNat : Nat) : ℚ) = _
  unfold Dyadic.gapBelow
  split
  · rw [div_mul_eq_mul_div, ← scale_eq]
    push_cast
    ring
  · rw [div_mul_eq_mul_div, ← scale_eq]
    push_cast
    ring

theorem below_le (hm : 0 < m) : (ofDyadic m e).below ≤ (ofDyadic m e).numerator := by
  change (if m = 2 ^ 52 ∧ -1074 < e then 1 else 2) * 1 <<< e.toNat ≤ 4 * m * 1 <<< e.toNat
  refine Nat.mul_le_mul_right _ ?_
  split <;> omega

/-- What a number owns, as rationals: the reals up to half way to its neighbours, the ends included
if its mantissa is even. -/
theorem owns_iff (hm : 0 < m) (n : Nat) (places : Int) :
    (ofDyadic m e).owns n places = true ↔
      if m % 2 = 0 then
        Dyadic.value ⟨false, m, e⟩ - Dyadic.gapBelow ⟨false, m, e⟩ ≤ gridValue n places ∧
          gridValue n places ≤ Dyadic.value ⟨false, m, e⟩ + 2 ^ e / 2
      else
        Dyadic.value ⟨false, m, e⟩ - Dyadic.gapBelow ⟨false, m, e⟩ < gridValue n places ∧
          gridValue n places < Dyadic.value ⟨false, m, e⟩ + 2 ^ e / 2 := by
  have hgrid : (0 : ℚ) < (ofDyadic m e).denominator * 10 ^ places.toNat :=
    mul_pos (denominator_pos m e) (pow_pos (by decide) _)
  have hlower : ((((ofDyadic m e).numerator - (ofDyadic m e).below) * tenTo places.toNat : Nat) : ℚ)
      = (Dyadic.value ⟨false, m, e⟩ - Dyadic.gapBelow ⟨false, m, e⟩) *
        ((ofDyadic m e).denominator * 10 ^ places.toNat) := by
    rw [Nat.cast_mul, Nat.cast_sub (below_le m e hm), numerator_eq, below_eq]
    simp only [tenTo, Nat.pow_eq, Nat.cast_pow, Nat.cast_ofNat]
    ring
  have hupper : ((((ofDyadic m e).numerator + (ofDyadic m e).above) * tenTo places.toNat : Nat) : ℚ)
      = (Dyadic.value ⟨false, m, e⟩ + 2 ^ e / 2) *
        ((ofDyadic m e).denominator * 10 ^ places.toNat) := by
    rw [Nat.cast_mul, Nat.cast_add, numerator_eq, above_eq]
    simp only [tenTo, Nat.pow_eq, Nat.cast_pow, Nat.cast_ofNat]
    ring
  have hpoint : ((n * tenTo (-places).toNat * (ofDyadic m e).denominator : Nat) : ℚ) =
      gridValue n places * ((ofDyadic m e).denominator * 10 ^ places.toNat) := by
    have hvalue := gridValue_mul n places
    rw [mul_left_comm, hvalue]
    simp only [tenTo, Nat.pow_eq]
    push_cast
    ring
  have hclosed : (ofDyadic m e).closed = (m % 2 == 0) := rfl
  rw [owns, hclosed]
  by_cases heven : m % 2 = 0
  · simp only [heven, beq_self_eq_true, if_true, Bool.and_eq_true, decide_eq_true_eq]
    rw [← @Nat.cast_le ℚ, ← @Nat.cast_le ℚ, hlower, hupper, hpoint, mul_le_mul_iff_left₀ hgrid,
      mul_le_mul_iff_left₀ hgrid]
  · simp only [heven, beq_eq_false_iff_ne.mpr heven, Bool.false_eq_true, if_false,
      Bool.and_eq_true, decide_eq_true_eq]
    rw [← @Nat.cast_lt ℚ, ← @Nat.cast_lt ℚ, hlower, hupper, hpoint, mul_lt_mul_iff_left₀ hgrid,
      mul_lt_mul_iff_left₀ hgrid]

end

end OwnedInterval

namespace Dyadic

variable {x y : Dyadic} {q : ℚ}

theorem gapBelow_bounds (x : Dyadic) :
    x.gapBelow ≤ 2 ^ x.exponent / 2 ∧ 2 ^ x.exponent / 2 ≤ 2 * x.gapBelow := by
  have hunit : (0 : ℚ) < 2 ^ x.exponent := zpow_pos two_pos _
  unfold gapBelow
  split <;> constructor <;> linarith

/-- The number of the format before a reduced one is twice as far away as what that one owns. -/
theorem Reduced.le_prev (hx : x.Reduced) (hy : y.Fits) (hpos : 0 < x.value)
    (h : y.value < x.value) : y.value ≤ x.value - 2 * x.gapBelow := by
  have hvalue := value_eq_of_pos hpos
  have hunit : (0 : ℚ) < 2 ^ x.exponent := zpow_pos two_pos _
  unfold gapBelow
  split
  · next hleast =>
    -- below a power of two the unit is half as large
    have hhalf : (2 : ℚ) ^ x.exponent = 2 * 2 ^ (x.exponent - 1) := by
      rw [← zpow_one_add₀ two_ne_zero, add_sub_cancel]
    rw [hleast.1, hhalf] at hvalue
    push_cast at hvalue
    rw [hhalf] at hunit ⊢
    rcases hy.multiple_or_small (x.exponent - 1) with ⟨n, hn⟩ | ⟨-, hsmall⟩
    · have hlt : n < 2 ^ 53 := by
        rw [hn, hvalue, ← mul_assoc] at h
        have hcast := lt_of_mul_lt_mul_right h (by linarith)
        norm_num at hcast
        exact_mod_cast hcast
      have hle : (n : ℚ) ≤ 2 ^ 53 - 1 := by
        have hint : n ≤ 2 ^ 53 - 1 := by omega
        exact_mod_cast hint
      have hmul := mul_le_mul_of_nonneg_right hle
        (show (0 : ℚ) ≤ 2 ^ (x.exponent - 1) by linarith)
      rw [hn, hvalue]
      linarith
    · have hle := le_abs_self y.value
      rw [hvalue]
      linarith
  · next hnot =>
    rcases hy.multiple_or_small x.exponent with ⟨n, hn⟩ | ⟨hne, hsmall⟩
    · have hlt : n < x.mantissa := by
        rw [hn, hvalue] at h
        exact_mod_cast lt_of_mul_lt_mul_right h hunit.le
      have hle : (n : ℚ) ≤ x.mantissa - 1 := by
        have hint : n ≤ x.mantissa - 1 := by omega
        exact_mod_cast hint
      have hmul := mul_le_mul_of_nonneg_right hle hunit.le
      rw [hn, hvalue]
      linarith
    · have hnormal := hx.normal.resolve_right hne
      have hexponent := hx.exponent
      have hlong : (2 : ℚ) ^ 52 + 1 ≤ x.mantissa := by
        have hint : 2 ^ 52 + 1 ≤ x.mantissa := by omega
        exact_mod_cast hint
      have hmul := mul_le_mul_of_nonneg_right hlong hunit.le
      have hle := le_abs_self y.value
      rw [hvalue]
      linarith

/-- What a number owns is nearer to it than to any other number, by the distance to the ends of what
it owns. -/
theorem Reduced.closer (hx : x.Reduced) (hpos : 0 < x.value) (hy : y.Fits) {margin : ℚ}
    (hmargin : 0 ≤ margin) (hlow : x.value - x.gapBelow + margin ≤ q)
    (hhigh : q + margin ≤ x.value + 2 ^ x.exponent / 2) :
    y.value = x.value ∨ |q - x.value| + margin ≤ |q - y.value| := by
  obtain ⟨hgap, hgap'⟩ := x.gapBelow_bounds
  rcases lt_trichotomy y.value x.value with hlt | heq | hgt
  · have hprev := hx.le_prev hy hpos hlt
    refine .inr (le_trans ?_ (le_abs_self _))
    rcases abs_cases (q - x.value) with ⟨habs, -⟩ | ⟨habs, -⟩ <;> rw [habs] <;> linarith
  · exact .inl heq
  · have hnext := hx.next_le hy hpos hgt
    refine .inr (le_trans ?_ (neg_le_abs _))
    rcases abs_cases (q - x.value) with ⟨habs, -⟩ | ⟨habs, -⟩ <;> rw [habs] <;> linarith

end Dyadic

/-- What lies between two bounds is at some distance from both. -/
theorem exists_margin {low high q : ℚ} (hlow : low < q) (hhigh : q < high) :
    ∃ margin, 0 < margin ∧ low + margin ≤ q ∧ q + margin ≤ high := by
  refine ⟨min (q - low) (high - q), lt_min (sub_pos.mpr hlow) (sub_pos.mpr hhigh), ?_, ?_⟩
  · linarith [min_le_left (q - low) (high - q)]
  · linarith [min_le_right (q - low) (high - q)]

/-- The reals that a number owns are rounded to it. -/
theorem rounds_of_owns {m : Nat} {e : Int} (hx : Dyadic.Reduced ⟨false, m, e⟩) (hm : 0 < m)
    {n : Nat} {places : Int} (h : (OwnedInterval.ofDyadic m e).owns n places = true) :
    Dyadic.Rounds ⟨false, m, e⟩ (gridValue n places) := by
  have hpos : 0 < Dyadic.value ⟨false, m, e⟩ := by
    rw [Dyadic.value_of_positive]
    exact mul_pos (Nat.cast_pos.mpr hm) (zpow_pos two_pos e)
  rw [OwnedInterval.owns_iff m e hm] at h
  split at h
  · next heven =>
    refine ⟨hx, fun {y} hy => ?_, fun _ _ => .inr heven⟩
    rcases hx.closer hpos hy le_rfl (by simpa using h.1) (by simpa using h.2) with heq | hle
    · rw [heq]
    · simpa using hle
  · obtain ⟨margin, hmargin, hlow, hhigh⟩ := exists_margin h.1 h.2
    refine ⟨hx, fun {y} hy => ?_, fun {y} hy htie => .inl ?_⟩
    · rcases hx.closer hpos hy hmargin.le hlow hhigh with heq | hle
      · rw [heq]
      · linarith
    · rcases hx.closer hpos hy hmargin.le hlow hhigh with heq | hle
      · exact heq
      · linarith

/-! ## Enough digits -/

namespace OwnedInterval

/-- A power of ten against a quotient, in natural numbers. -/
theorem tenTo_le_iff (k : Int) {a b : Nat} (hb : 0 < b) :
    tenTo k.toNat * b ≤ a * tenTo (-k).toNat ↔ (10 : ℚ) ^ k ≤ a / b := by
  have hten : (0 : ℚ) < 10 ^ (-k).toNat := pow_pos (by decide) _
  have hsplit := zpow_mul_toNat (b := 10) (by decide) k
  rw [le_div_iff₀ (Nat.cast_pos.mpr hb), ← mul_le_mul_iff_left₀ hten, mul_right_comm, hsplit,
    ← @Nat.cast_le ℚ]
  simp only [tenTo, Nat.pow_eq]
  push_cast
  rfl

/-- Whether the power of ten is at most the power of two, in natural numbers. -/
def tenBelowTwo (k j : Int) : Bool :=
  decide (tenTo k.toNat * 2 ^ (-j).toNat ≤ 2 ^ j.toNat * tenTo (-k).toNat)

theorem tenBelowTwo_iff (k j : Int) : tenBelowTwo k j = true ↔ (10 : ℚ) ^ k ≤ 2 ^ j := by
  have hsplit := zpow_mul_toNat (b := 2) two_ne_zero j
  have hpos : (0 : ℚ) < 2 ^ (-j).toNat := pow_pos two_pos _
  rw [tenBelowTwo, decide_eq_true_iff, tenTo_le_iff k (Nat.two_pow_pos _)]
  push_cast
  rw [← hsplit, mul_div_cancel_right₀ _ hpos.ne']

/-- The guess at the leading place is low enough for every size that the format has. -/
theorem tenBelowTwo_guess : (List.range 2098).all (fun i =>
    tenBelowTwo ((((i : Int) - 1074) * 30103).fdiv 100000 - 1) ((i : Int) - 1074 - 1)) = true := by
  decide +kernel

section

variable {m : Nat} {e : Int}

theorem value_eq_div : Dyadic.value ⟨false, m, e⟩ =
    (ofDyadic m e).numerator / (ofDyadic m e).denominator := by
  rw [numerator_eq, mul_div_cancel_right₀ _ (denominator_pos m e).ne']

theorem two_zpow_le_div {a b : Nat} (ha : 0 < a) (hb : 0 < b) :
    (2 : ℚ) ^ ((a.log2 : Int) - b.log2 - 1) ≤ a / b := by
  have hlow : (2 : ℚ) ^ a.log2 ≤ a := by exact_mod_cast Nat.log2_self_le ha.ne'
  have hhigh : (b : ℚ) ≤ 2 ^ (b.log2 + 1) := by exact_mod_cast Nat.lt_log2_self.le
  have hsplit : (2 : ℚ) ^ ((a.log2 : Int) - b.log2 - 1) * 2 ^ (b.log2 + 1) = 2 ^ a.log2 := by
    rw [← zpow_natCast, ← zpow_natCast, ← zpow_add₀ two_ne_zero]
    congr 1
    push_cast
    omega
  rw [le_div_iff₀ (Nat.cast_pos.mpr hb)]
  calc (2 : ℚ) ^ ((a.log2 : Int) - b.log2 - 1) * b
      ≤ 2 ^ ((a.log2 : Int) - b.log2 - 1) * 2 ^ (b.log2 + 1) :=
        mul_le_mul_of_nonneg_left hhigh (zpow_pos two_pos _).le
    _ = 2 ^ a.log2 := hsplit
    _ ≤ a := hlow

theorem log2_numerator (hm : 0 < m) : (ofDyadic m e).numerator.log2 = m.log2 + 2 + e.toNat := by
  change (4 * m * 1 <<< e.toNat).log2 = _
  have hshift : 4 * m * 1 <<< e.toNat = m <<< (2 + e.toNat) := by
    rw [Nat.shiftLeft_eq, Nat.shiftLeft_eq, pow_add]
    ring
  rw [hshift, log2_shiftLeft hm]
  omega

theorem log2_denominator : (ofDyadic m e).denominator.log2 = 2 + (-e).toNat := by
  change (4 <<< (-e).toNat).log2 = _
  rw [log2_shiftLeft (by decide)]
  rfl

/-- The power of ten at the leading place is at most the number. -/
theorem leadingPlace_le (hx : Dyadic.Canonical ⟨false, m, e⟩) (hm : 0 < m) :
    (10 : ℚ) ^ (ofDyadic m e).leadingPlace ≤ Dyadic.value ⟨false, m, e⟩ := by
  have hden : 0 < (ofDyadic m e).denominator := Nat.cast_pos.mp (denominator_pos m e)
  have hnum : 0 < (ofDyadic m e).numerator :=
    Nat.mul_pos (Nat.mul_pos (by decide) hm) (by rw [Nat.shiftLeft_eq]; positivity)
  rw [value_eq_div, leadingPlace]
  dsimp only
  split
  · next hreaches => exact (tenTo_le_iff _ hden).mp (of_decide_eq_true hreaches)
  · split
    · next hreaches => exact (tenTo_le_iff _ hden).mp (of_decide_eq_true hreaches)
    · refine le_trans ?_ (two_zpow_le_div hnum hden)
      rw [log2_numerator hm, log2_denominator, ← tenBelowTwo_iff]
      have hmantissa := hx.mantissa
      have hexponent := hx.exponent
      have hle := hx.exponent_le
      dsimp only at hmantissa hexponent hle
      have hlog : m.log2 < 53 := (Nat.log2_lt hm.ne').mpr hmantissa
      obtain ⟨i, hi⟩ : ∃ i : Nat, ((m.log2 + 2 + e.toNat : Nat) : Int) - (2 + (-e).toNat : Nat) =
          i - 1074 := ⟨(m.log2 + e + 1074).toNat, by omega⟩
      rw [hi]
      exact List.all_eq_true.mp tenBelowTwo_guess i (List.mem_range.mpr (by omega))

/-! ## The digits -/

variable {tie : Tie} {places : Int}

/-- A point that stands for a number is one that it owns. -/
theorem owns_of_gridPoint? {x : OwnedInterval} {n : Nat} (h : x.gridPoint? tie places = some n) :
    x.owns n places = true := by
  unfold gridPoint? at h
  dsimp only at h
  generalize x.numerator * tenTo places.toNat / (x.denominator * tenTo (-places).toNat) = lower at h
  split at h
  · next hlower _ =>
    cases h
    exact hlower
  · next _ hupper =>
    cases h
    exact hupper
  · cases h
  · next hlower hupper =>
    split at h
    · cases h
      exact hlower
    · split at h
      · cases h
        exact hupper
      · cases tie with
        | upper =>
          cases h
          exact hupper
        | even =>
          cases h
          rcases Nat.mod_two_eq_zero_or_one lower with hbit | hbit <;> rw [hbit]
          · exact hlower
          · exact hupper

theorem gridValue_le_iff {a b : Nat} (hb : 0 < b) (n : Nat) (places : Int) :
    gridValue n places ≤ (a / b : ℚ) ↔
      n * (b * tenTo (-places).toNat) ≤ a * tenTo places.toNat := by
  have hten : (0 : ℚ) < 10 ^ places.toNat := pow_pos (by decide) _
  rw [le_div_iff₀ (Nat.cast_pos.mpr hb), ← mul_le_mul_iff_left₀ hten, mul_right_comm,
    gridValue_mul, mul_right_comm, mul_assoc, ← @Nat.cast_le ℚ]
  simp only [tenTo, Nat.pow_eq]
  push_cast
  rfl

theorem gridValue_succ (n : Nat) (places : Int) :
    gridValue (n + 1) places = gridValue n places + 10 ^ (-places) := by
  rw [gridValue, gridValue]
  push_cast
  ring

/-- The points of a grid on both sides of a number. -/
theorem gridValue_floor {a b : Nat} (hb : 0 < b) (places : Int) :
    gridValue (a * tenTo places.toNat / (b * tenTo (-places).toNat)) places ≤ (a / b : ℚ) ∧
      (a / b : ℚ) < gridValue (a * tenTo places.toNat / (b * tenTo (-places).toNat) + 1) places := by
  have hbottom : 0 < b * tenTo (-places).toNat :=
    Nat.mul_pos hb (Nat.pow_pos (by decide))
  constructor
  · rw [gridValue_le_iff hb]
    exact Nat.div_mul_le_self ..
  · have hlt := Nat.lt_mul_div_succ (a * tenTo places.toNat) hbottom
    rwa [← not_le, gridValue_le_iff hb, Nat.not_le, Nat.mul_comm (_ + 1)]

/-- What a number owns is longer than the number over `2 ^ 53`. -/
theorem value_lt_owned {m : Nat} {e : Int} (hx : Dyadic.Reduced ⟨false, m, e⟩) :
    Dyadic.value ⟨false, m, e⟩ < (Dyadic.gapBelow ⟨false, m, e⟩ + 2 ^ e / 2) * 2 ^ 53 := by
  have hunit : (0 : ℚ) < 2 ^ e := zpow_pos two_pos e
  have hmantissa : (m : ℚ) < 2 ^ 53 := by exact_mod_cast hx.mantissa
  have hmul := mul_lt_mul_of_pos_right hmantissa hunit
  rw [Dyadic.value_of_positive]
  unfold Dyadic.gapBelow
  split
  · next hleast =>
    obtain rfl : m = 2 ^ 52 := hleast.1
    push_cast
    linarith
  · linarith

/-- One of two neighbours on the grid of seventeen digits is owned. -/
theorem owns_or_owns (hx : Dyadic.Canonical ⟨false, m, e⟩) (hm : 0 < m) {n : Nat}
    (hplaces : places = 16 - (ofDyadic m e).leadingPlace)
    (hlow : gridValue n places ≤ Dyadic.value ⟨false, m, e⟩)
    (hhigh : Dyadic.value ⟨false, m, e⟩ < gridValue (n + 1) places) :
    (ofDyadic m e).owns n places = true ∨ (ofDyadic m e).owns (n + 1) places = true := by
  have hunit : (0 : ℚ) < 2 ^ e := zpow_pos two_pos e
  have hgap : 0 < Dyadic.gapBelow ⟨false, m, e⟩ := by
    unfold Dyadic.gapBelow
    split <;> positivity
  have hstep : (10 : ℚ) ^ (-places) * 10 ^ 16 ≤ Dyadic.value ⟨false, m, e⟩ := by
    have hlead := leadingPlace_le hx hm
    have hsixteen : (10 : ℚ) ^ (16 : Int) = 10 ^ 16 := zpow_natCast 10 16
    rwa [hplaces, neg_sub, zpow_sub₀ (by decide), hsixteen, div_mul_cancel₀ _ (by decide)]
  have hwide := value_lt_owned hx.toReduced
  rw [gridValue_succ] at hhigh
  rw [owns_iff m e hm, owns_iff m e hm, gridValue_succ]
  generalize Dyadic.value ⟨false, m, e⟩ = v at *
  generalize Dyadic.gapBelow ⟨false, m, e⟩ = g at *
  generalize gridValue n places = q at *
  generalize (10 : ℚ) ^ (-places) = step at *
  generalize (2 : ℚ) ^ e = unit at *
  by_contra hnone
  have hbelow : q ≤ v - g := by
    by_contra hinside
    refine hnone (.inl ?_)
    split <;> constructor <;> linarith
  have habove : v + unit / 2 ≤ q + step := by
    by_contra hinside
    refine hnone (.inr ?_)
    split <;> constructor <;> linarith
  linarith

theorem exists_gridPoint? (hx : Dyadic.Canonical ⟨false, m, e⟩) (hm : 0 < m)
    (hplaces : places = 16 - (ofDyadic m e).leadingPlace) :
    ∃ n, (ofDyadic m e).gridPoint? tie places = some n := by
  have hden : 0 < (ofDyadic m e).denominator := Nat.cast_pos.mp (denominator_pos m e)
  have hfloor := gridValue_floor (a := (ofDyadic m e).numerator) hden places
  rw [← value_eq_div] at hfloor
  have howns := owns_or_owns hx hm hplaces hfloor.1 hfloor.2
  unfold gridPoint?
  dsimp only
  generalize (ofDyadic m e).numerator * tenTo places.toNat /
    ((ofDyadic m e).denominator * tenTo (-places).toNat) = lower at howns ⊢
  split
  · exact ⟨_, rfl⟩
  · exact ⟨_, rfl⟩
  · next hlower hupper =>
    rw [hlower, hupper] at howns
    rcases howns with h | h <;> cases h
  · split
    · exact ⟨_, rfl⟩
    · split
      · exact ⟨_, rfl⟩
      · cases tie <;> exact ⟨_, rfl⟩

/-- The first grid with a point is found before the bound on the number of digits is reached. -/
theorem owns_digitsFrom {x : OwnedInterval} {leading : Int} (last : Nat)
    (hlast : ∃ n, x.gridPoint? tie (last - 1 - leading) = some n) {more count : Nat}
    (hcount : count ≤ last) (hmore : last < count + more) :
    x.owns (x.digitsFrom tie leading more count).1 (x.digitsFrom tie leading more count).2 = true := by
  induction more generalizing count with
  | zero => omega
  | succ more ih =>
    rw [digitsFrom]
    split
    · next hpoint => exact owns_of_gridPoint? hpoint
    · next hnone =>
      obtain ⟨n, hn⟩ := hlast
      have hne : count ≠ last := by
        rintro rfl
        cases hn.symm.trans hnone
      exact ih (by omega) (by omega)

/-- The digits that are found are owned. -/
theorem owns_shortest (tie : Tie) (hx : Dyadic.Canonical ⟨false, m, e⟩) (hm : 0 < m) :
    let found := (ofDyadic m e).digitsFrom tie (ofDyadic m e).leadingPlace 17 1
    (ofDyadic m e).owns found.1 found.2 = true :=
  owns_digitsFrom 17 (exists_gridPoint? hx hm (by push_cast; ring)) (by decide) (by decide)

end

end OwnedInterval

end LoxLang.Number
