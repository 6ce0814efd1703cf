import LoxLang.Proofs.Number.Conversion
import LoxLang.Proofs.Number.Digits

/-!
# Folding digits into a float

Where the base is a power of two, folding the digits of a number into a float rounds once. Up to the
digit that makes the number longer than a mantissa everything is exact, and none of the digits behind
that one changes the float any more. So the fold gives the float nearest to the number with zeros in
the place of these digits (`isNearest_fold`). This is the float nearest to the number itself unless
the digits that are lost would have decided against a tie (`eq_iff_not_fallsShort`).
-/

namespace LoxLang.Number

open Float.Model Float.Model.UnpackedFloat

/-! ## Integers longer than a mantissa -/

/-- The first 53 bits of an integer with the residual bits. -/
def leading (n : Nat) : ExtendedMantissa :=
  ExtendedMantissa.ofMantissaAndAccuracy n .exact >>> (n.log2 - 52)

/-- The number to which an integer longer than a mantissa is rounded. -/
def rounded (n : Nat) : Dyadic :=
  carried (leading n).roundedMantissa (n.log2 - 52 : Nat)

theorem Cut.shift {em : ExtendedMantissa} {x : ℚ} {t : Int} (h : Cut em x t) (hlarge : 2 ^ 52 ≤ x)
    (k : Nat) : Cut em x (t + k) where
  toBracket := h.toBracket
  lt := h.lt
  large := .inr hlarge
  exponent := h.exponent.trans (Int.le_add_of_nonneg_right (Int.natCast_nonneg k))

section

variable {n : Nat} (h : 2 ^ 52 ≤ n)

include h

theorem log2_of_long : 52 ≤ n.log2 :=
  (Nat.le_log2 (Nat.pos_of_ne_zero (by rintro rfl; contradiction)).ne').mpr h

theorem scaled_leading_le : (2 : ℚ) ^ 52 ≤ n / 2 ^ (n.log2 - 52) := by
  have hlow : 2 ^ 52 * 2 ^ (n.log2 - 52) ≤ n := by
    rw [← pow_add, Nat.add_sub_cancel' (log2_of_long h)]
    exact Nat.log2_self_le (by omega)
  rw [le_div_iff₀ (pow_pos two_pos _)]
  exact_mod_cast hlow

theorem cut_leading : Cut (leading n) (n / 2 ^ (n.log2 - 52)) (n.log2 - 52 : Nat) where
  toBracket := (Bracket.exact n).shiftRight _
  lt := by
    have hlog := log2_of_long h
    have hhigh : n < 2 ^ 53 * 2 ^ (n.log2 - 52) := by
      rw [← pow_add, show 53 + (n.log2 - 52) = n.log2 + 1 by omega]
      exact Nat.lt_log2_self
    rw [div_lt_iff₀ (pow_pos two_pos _)]
    exact_mod_cast hhigh
  large := .inr (scaled_leading_le h)
  exponent := by omega

theorem rounds_rounded : (rounded n).Rounds n := by
  have hrounds := (cut_leading h).rounds
  rwa [zpow_natCast, div_mul_cancel₀ _ (pow_pos two_pos _).ne'] at hrounds

/-- Rounding commutes with multiplying by a power of two. -/
theorem rounds_rounded_shift (k : Nat) :
    Dyadic.Rounds ⟨false, (rounded n).mantissa, (rounded n).exponent + k⟩ (n * 2 ^ k) := by
  have hrounds := ((cut_leading h).shift (scaled_leading_le h) k).rounds
  rw [zpow_add₀ two_ne_zero, zpow_natCast, zpow_natCast, ← mul_assoc,
    div_mul_cancel₀ _ (pow_pos two_pos _).ne'] at hrounds
  convert hrounds using 1
  unfold rounded carried
  split
  · rw [Dyadic.mk.injEq]
    exact ⟨rfl, rfl, add_right_comm ..⟩
  · rfl

end

theorem IsNearest.ofFloat_eq {q : ℚ} {x : Float} {d : Dyadic} (h : IsNearest q x)
    (hd : d.Rounds q) (hq : 1 ≤ q) : Binary64.ofFloat x = .bounded d := by
  obtain ⟨e, he, hx⟩ := h
  rwa [hd.unique he (zero_lt_one.trans_le (one_le_value hd hq))
    (zero_lt_one.trans_le (one_le_value he hq))]

/-! ## One step of a fold -/

theorem Dyadic.Reduced.absorbs {x : Dyadic} (h : x.Reduced) (hpos : 0 < x.value) {q : ℚ}
    (hq : 0 ≤ q) (hsmall : 2 * q < 2 ^ x.exponent) : x.Rounds (x.value + q) := by
  have hself : |x.value + q - x.value| = q := by rw [add_sub_cancel_left, abs_of_nonneg hq]
  have hfar {y : Dyadic} (hy : y.Fits) : y.value = x.value ∨ q < |x.value + q - y.value| := by
    rcases lt_trichotomy y.value x.value with hlt | heq | hgt
    · exact .inr (lt_of_lt_of_le (by linarith) (le_abs_self _))
    · exact .inl heq
    · have hnext := h.next_le hy hpos hgt
      exact .inr (lt_of_lt_of_le (by linarith) (neg_le_abs _))
  refine ⟨h, fun {y} hy => ?_, fun {y} hy htie => ?_⟩
  · rcases hfar hy with heq | hlt
    · rw [heq]
    · exact hself.trans_le hlt.le
  · exact .inl ((hfar hy).resolve_right (htie.trans hself).not_gt)

theorem Binary64.ofFloat_mul_infinite {x y : Float} {b : Dyadic}
    (hx : ofFloat x = .infinite false) (hy : ofFloat y = .finite b) (hb : 0 < b.value) :
    ofFloat (x * y) = .infinite false := by
  rw [ofFloat_eq] at hx hy
  change ofFloat (.ofModel (.pack (UnpackedFloat.mul .binary64 x.toModel.unpack y.toModel.unpack)))
    = _
  generalize x.toModel.unpack = u at hx ⊢
  generalize y.toModel.unpack = v at hy ⊢
  cases u with
  | notANumber | zero | finite => cases hx
  | infinity s =>
    cases v with
    | infinity | notANumber => cases hy
    | zero s' =>
      cases hy
      rw [Dyadic.value_zero] at hb
      exact absurd hb (lt_irrefl 0)
    | finite s' m e hm =>
      cases hy
      cases s with
      | negative => cases hx
      | positive =>
        cases s' with
        | negative => exact Bool.noConfusion (congrArg Dyadic.negative (Dyadic.eq_of_value_pos hb))
        | positive => exact ofFloat_pack fun d hd => Binary64.noConfusion hd

theorem Binary64.ofFloat_add_infinite {x y : Float} {b : Dyadic}
    (hx : ofFloat x = .infinite false) (hy : ofFloat y = .finite b) :
    ofFloat (x + y) = .infinite false := by
  rw [ofFloat_eq] at hx hy
  change ofFloat (.ofModel (.pack (UnpackedFloat.add .binary64 x.toModel.unpack y.toModel.unpack)))
    = _
  generalize x.toModel.unpack = u at hx ⊢
  generalize y.toModel.unpack = v at hy ⊢
  cases u with
  | notANumber | zero | finite => cases hx
  | infinity s =>
    cases s with
    | negative => cases hx
    | positive =>
      cases v with
      | infinity | notANumber => cases hy
      | zero | finite => exact ofFloat_pack fun d hd => Binary64.noConfusion hd

theorem le_exponent_rounded {n : Nat} (h : 2 ^ 53 ≤ n) : 1 ≤ (rounded n).exponent := by
  have hlog : 53 ≤ n.log2 := (Nat.le_log2 (by omega)).mpr h
  unfold rounded carried
  split
  all_goals
    dsimp only
    omega

/-- A digit behind a number that is longer than a mantissa is lost. -/
theorem IsNearest.mul_add {n w : Nat} {x radix digit : Float} {r d : Dyadic} (hx : IsNearest n x)
    (hn : 2 ^ 53 ≤ n) (hradix : Binary64.ofFloat radix = .finite r) (hr : r.value = 2 ^ w)
    (hdigit : Binary64.ofFloat digit = .finite d) (hd : 0 ≤ d.value) (hlt : d.value < 2 ^ w) :
    IsNearest (n * 2 ^ w) (x * radix + digit) := by
  have hlong : 2 ^ 52 ≤ n := le_trans (by decide) hn
  have hone : 1 ≤ (n : ℚ) := by exact_mod_cast le_trans (by decide) hn
  have hfloat := hx.ofFloat_eq (rounds_rounded hlong) hone
  have hshifted := rounds_rounded_shift hlong w
  have hexponent := le_exponent_rounded hn
  have hpositive := zero_lt_one.trans_le (one_le_value (rounds_rounded hlong) hone)
  rw [Dyadic.eq_of_value_pos hpositive] at hfloat hpositive
  generalize (rounded n).mantissa = m, (rounded n).exponent = e at *
  have hproduct : Dyadic.value ⟨false, m, e⟩ * r.value = Dyadic.value ⟨false, m, e + w⟩ := by
    rw [hr, Dyadic.value_of_positive, Dyadic.value_of_positive, zpow_add₀ two_ne_zero,
      zpow_natCast, mul_assoc]
  have hlarge : 1 ≤ Dyadic.value ⟨false, m, e + w⟩ :=
    one_le_value hshifted (hone.trans (le_mul_of_one_le_right (Nat.cast_nonneg n)
      (one_le_pow₀ one_le_two)))
  have hbeyond (hlarge : 971 < e + w) (hinfinite : Binary64.ofFloat (x * radix) = .infinite false) :
      IsNearest (n * 2 ^ w) (x * radix + digit) :=
    ⟨_, hshifted, (Binary64.ofFloat_add_infinite hinfinite hdigit).trans
      (if_neg (not_le.mpr hlarge)).symm⟩
  by_cases hfinite : e ≤ 971
  · -- the product is exact, as long as it is a number of the format
    have hmul := isNearest_mul (hfloat.trans (if_pos hfinite)) hradix
    rw [hproduct] at hmul
    have hexact := hmul.ofFloat_eq hshifted.reduced.rounds hlarge
    by_cases hfinite' : e + w ≤ 971
    · have hadd := isNearest_add (hexact.trans (if_pos hfinite')) hdigit
      have habsorbed := hshifted.reduced.absorbs (zero_lt_one.trans_le hlarge) hd (by
        calc 2 * d.value < 2 * 2 ^ w := by linarith
          _ = 2 ^ (1 + (w : Int)) := by rw [zpow_add₀ two_ne_zero, zpow_one, zpow_natCast]
          _ ≤ 2 ^ (e + w) := zpow_le_zpow_right₀ one_le_two (by omega))
      exact ⟨_, hshifted, hadd.ofFloat_eq habsorbed (hlarge.trans (le_add_of_nonneg_right hd))⟩
    · exact hbeyond (not_le.mp hfinite') (hexact.trans (if_neg hfinite'))
  · have hinfinite := Binary64.ofFloat_mul_infinite (hfloat.trans (if_neg hfinite)) hradix
      (hr ▸ pow_pos two_pos w)
    exact hbeyond (by omega) hinfinite

/-! ## The whole fold -/

/-- The number of digits behind the one that makes a number longer than a mantissa. -/
def surplus (base n : Nat) : Nat :=
  Nat.log base (n / 2 ^ 53)

/-- A number with zeros in the place of these digits. -/
def kept (base n : Nat) : Nat :=
  n / base ^ surplus base n * base ^ surplus base n

section

variable {base n : Nat}

theorem kept_of_lt (h : n < 2 ^ 53 * base) : kept base n = n := by
  have hdigit : n / 2 ^ 53 < base := Nat.div_lt_of_lt_mul h
  rw [kept, surplus, Nat.log_of_lt hdigit, pow_zero, Nat.div_one, Nat.mul_one]

theorem kept_of_le (h : 2 ^ 53 * base ≤ n) (hbase : 1 < base) :
    kept base n = kept base (n / base) * base := by
  have hquotient : base ≤ n / 2 ^ 53 := (Nat.le_div_iff_mul_le (by decide)).mpr (by omega)
  have hsurplus : surplus base n = surplus base (n / base) + 1 := by
    rw [surplus, surplus, Nat.div_right_comm, Nat.log_div_base]
    have hpos := Nat.log_pos hbase hquotient
    omega
  rw [kept, kept, hsurplus, pow_succ', ← Nat.div_div_eq_div_mul, mul_assoc, mul_comm base]

/-- What is kept is longer than a mantissa if the number is. -/
theorem le_kept (hbase : 1 < base) (h : 2 ^ 53 ≤ n) : 2 ^ 53 ≤ kept base n := by
  have hpos : 0 < base ^ surplus base n := pow_pos (Nat.zero_lt_of_lt hbase) _
  have hpower : base ^ surplus base n ≤ n / 2 ^ 53 :=
    Nat.pow_log_le_self base (Nat.div_pos h (by decide)).ne'
  have hquotient : 2 ^ 53 ≤ n / base ^ surplus base n := by
    rw [Nat.le_div_iff_mul_le hpos, Nat.mul_comm]
    exact (Nat.le_div_iff_mul_le (by decide)).mp hpower
  exact hquotient.trans (Nat.le_mul_of_pos_right _ hpos)

end

theorem kept_le (base n : Nat) : kept base n ≤ n :=
  Nat.div_mul_le_self n _

/-- Digits are folded into a float. -/
def foldDigits (base : Nat) (digits : List Char) : Float :=
  digits.foldl (fun sum c => sum * Float.ofNat base + Float.ofNat (digitValue c)) 0.0

theorem digitsValue_concat (base : Nat) (digits : List Char) (c : Char) :
    digitsValue base (digits ++ [c]) = digitsValue base digits * base + digitValue c := by
  rw [digitsValue, List.foldl_append]
  rfl

theorem foldDigits_append (base : Nat) (digits : List Char) (c : Char) :
    foldDigits base (digits ++ [c]) =
      foldDigits base digits * Float.ofNat base + Float.ofNat (digitValue c) := by
  rw [foldDigits, List.foldl_append]
  rfl

theorem exists_ofNat {n : Nat} (h : n ≤ 2 ^ 53) :
    ∃ d, Binary64.ofFloat (Float.ofNat n) = .finite d ∧ d.value = n :=
  (isNearest_ofNat n).value_eq (n := n) h

/-- As long as it is not longer than a mantissa, a number is multiplied without rounding. -/
theorem IsNearest.mul_exact {n w : Nat} {x radix : Float} {r : Dyadic} (hx : IsNearest n x)
    (hn : n < 2 ^ 53) (hw : w ≤ 53) (hradix : Binary64.ofFloat radix = .finite r)
    (hr : r.value = 2 ^ w) :
    ∃ d, Binary64.ofFloat (x * radix) = .finite d ∧ d.value = n * 2 ^ w := by
  obtain ⟨d, hd, hvalue⟩ := hx.value_eq (n := n) hn.le
  have hmul := isNearest_mul hd hradix
  rw [hvalue, hr] at hmul
  have hfits : Dyadic.Fits ⟨false, n, w⟩ := ⟨hn, show (-1074 : Int) ≤ w by omega⟩
  refine (hmul.roundsTo ?_).value_eq hfits ?_
  · have hsmall : n * 2 ^ w < 2 ^ 106 :=
      calc n * 2 ^ w < 2 ^ 53 * 2 ^ w := Nat.mul_lt_mul_of_pos_right hn (Nat.two_pow_pos w)
        _ ≤ 2 ^ 53 * 2 ^ 53 := Nat.mul_le_mul_left _ (Nat.pow_le_pow_right two_pos hw)
        _ = 2 ^ 106 := by rw [← pow_add]
    have habs := abs_lt_of_natAbs_lt (n := (n * 2 ^ w : Nat)) hsmall (by decide)
    rwa [Int.cast_natCast, Nat.cast_mul, Nat.cast_pow, Nat.cast_ofNat] at habs
  · rw [Dyadic.value_of_positive, zpow_natCast]
    rfl

/-- Only one digit is rounded. -/
theorem isNearest_fold {w : Nat} (hpos : 0 < w) (hw : w ≤ 53) {digits : List Char}
    (hdigits : ∀ c ∈ digits, digitValue c < 2 ^ w) :
    IsNearest (kept (2 ^ w) (digitsValue (2 ^ w) digits)) (foldDigits (2 ^ w) digits) := by
  have hbase : 1 < 2 ^ w := Nat.one_lt_two_pow hpos.ne'
  have hbound : 2 ^ w ≤ 2 ^ 53 := Nat.pow_le_pow_right two_pos hw
  obtain ⟨r, hradix, hr⟩ := exists_ofNat hbound
  rw [Nat.cast_pow, Nat.cast_ofNat] at hr
  induction digits using List.reverseRecOn with
  | nil =>
    have hzero : Binary64.ofFloat 0.0 = .finite ⟨false, 0, -1074⟩ := by decide +kernel
    have hrounds := (Dyadic.reduced_zero false).rounds
    rw [Dyadic.value_zero] at hrounds
    rw [show digitsValue (2 ^ w) [] = 0 from rfl,
      kept_of_lt (Nat.mul_pos (Nat.two_pow_pos 53) (Nat.two_pow_pos w)), Nat.cast_zero]
    exact ⟨_, hrounds, hzero⟩
  | append_singleton digits c ih =>
    have hfold := ih fun d hd => hdigits d (List.mem_append_left _ hd)
    have hdigit := hdigits c (List.mem_append_right _ (List.mem_singleton_self c))
    obtain ⟨d, hd, hvalue⟩ := exists_ofNat (hdigit.le.trans hbound)
    rw [digitsValue_concat, foldDigits_append]
    generalize digitsValue (2 ^ w) digits = n at hfold ⊢
    rcases Nat.lt_or_ge n (2 ^ 53) with hshort | hlong
    · rw [kept_of_lt (hshort.trans_le (Nat.le_mul_of_pos_right _ (Nat.two_pow_pos w)))] at hfold
      have hbelow : n * 2 ^ w + digitValue c < 2 ^ 53 * 2 ^ w :=
        calc n * 2 ^ w + digitValue c < (n + 1) * 2 ^ w := by rw [Nat.succ_mul]; omega
          _ ≤ 2 ^ 53 * 2 ^ w := Nat.mul_le_mul_right _ hshort
      rw [kept_of_lt hbelow]
      obtain ⟨p, hp, hproduct⟩ := hfold.mul_exact hshort hw hradix hr
      have hadd := isNearest_add hp hd
      rw [hproduct, hvalue] at hadd
      exact_mod_cast hadd
    · have hquotient : (n * 2 ^ w + digitValue c) / 2 ^ w = n := by
        rw [Nat.add_comm, Nat.add_mul_div_right _ _ (Nat.two_pow_pos w), Nat.div_eq_of_lt hdigit,
          Nat.zero_add]
      rw [kept_of_le ((Nat.mul_le_mul_right _ hlong).trans (Nat.le_add_right ..)) hbase, hquotient]
      have hadd := hfold.mul_add (le_kept hbase hlong) hradix hr hd
        (hvalue ▸ Nat.cast_nonneg _) (hvalue ▸ by exact_mod_cast hdigit)
      exact_mod_cast hadd

/-! ## What the lost digits change -/

/-- A number longer than a mantissa, in halves of the unit to which it is rounded. -/
def halfUnits (n : Nat) : Nat :=
  n / 2 ^ (n.log2 - 53)

/-- What is kept of a number lies in the middle between an even mantissa and the next one, and the
lost digits would have told it from the middle. -/
structure FallsShort (base n : Nat) : Prop where
  lost : kept base n < n
  middle : kept base n = halfUnits n * 2 ^ (n.log2 - 53)
  even : halfUnits n % 4 = 1
  /-- Beyond this bound the float is an infinity in any case. -/
  bounded : n < 2 ^ 1024

theorem Bracket.mantissa_eq {em : ExtendedMantissa} {x : ℚ} {m : Nat} (h : Bracket em x)
    (hlow : m ≤ x) (hhigh : x < m + 1) : em.mantissa = m := by
  have hle : (m : ℚ) < em.mantissa + 1 := hlow.trans_lt h.upper
  have hge : (em.mantissa : ℚ) < m + 1 := h.lower.trans_lt hhigh
  norm_cast at hle hge
  omega

section

variable {n s m : Nat}

/-- The number in half units, with what is behind them. -/
theorem exists_halves (hlog : n.log2 = s + 53) :
    ∃ u : ℚ, n = u * 2 ^ s ∧ Bracket (leading n) (u / 2) ∧
      (n / 2 ^ s : Nat) ≤ u ∧ u < (n / 2 ^ s : Nat) + 1 := by
  have hhalf : (0 : ℚ) < 2 ^ s := pow_pos two_pos s
  have hvalue : (n : ℚ) = n / 2 ^ s * 2 ^ s := (div_mul_cancel₀ _ hhalf.ne').symm
  have hlow : n / 2 ^ s * 2 ^ s ≤ n := Nat.div_mul_le_self ..
  have hhigh : n < (n / 2 ^ s + 1) * 2 ^ s := by
    rw [Nat.mul_comm]
    exact Nat.lt_mul_div_succ n (Nat.two_pow_pos s)
  refine ⟨n / 2 ^ s, hvalue, ?_, ?_, ?_⟩
  · have hbracket := (Bracket.exact n).shiftRight (n.log2 - 52)
    have hshift : n.log2 - 52 = s + 1 := by omega
    rwa [← leading, hshift, pow_succ, ← div_div] at hbracket
  · rw [le_div_iff₀ hhalf]
    exact_mod_cast hlow
  · rw [div_lt_iff₀ hhalf]
    exact_mod_cast hhigh

theorem roundedMantissa_low (hlog : n.log2 = s + 53) (hm : n / 2 ^ s = 2 * m) :
    (leading n).roundedMantissa = m := by
  obtain ⟨u, -, hbracket, hlow, hhigh⟩ := exists_halves hlog
  rw [hm] at hlow hhigh
  push_cast at hlow hhigh
  obtain rfl := hbracket.mantissa_eq (m := m) (by linarith) (by linarith)
  exact hbracket.rounded_down (by linarith)

theorem roundedMantissa_high (hlog : n.log2 = s + 53) (hm : n / 2 ^ s = 2 * m + 1)
    (hlt : (2 * m + 1) * 2 ^ s < n) : (leading n).roundedMantissa = m + 1 := by
  obtain ⟨u, hu, hbracket, hlow, hhigh⟩ := exists_halves hlog
  have hbeyond : ((2 * m + 1 : Nat) : ℚ) < u := by
    refine lt_of_mul_lt_mul_right ?_ (pow_pos two_pos s).le
    rw [← hu]
    exact_mod_cast hlt
  rw [hm] at hlow hhigh
  push_cast at hlow hhigh hbeyond
  obtain rfl := hbracket.mantissa_eq (m := m) (by linarith) (by linarith)
  exact hbracket.rounded_up (by linarith)

theorem roundedMantissa_middle (hlog : n.log2 = s + 53) (hm : n = (2 * m + 1) * 2 ^ s) :
    (leading n).roundedMantissa = m + m % 2 := by
  obtain ⟨u, hu, hbracket, -, -⟩ := exists_halves hlog
  have hvalue : u = 2 * m + 1 := by
    refine mul_right_cancel₀ (pow_pos two_pos s).ne' (hu.symm.trans ?_)
    rw [hm]
    push_cast
    rfl
  obtain rfl := hbracket.mantissa_eq (m := m) (by linarith) (by linarith)
  exact hbracket.rounded_half (by linarith)

/-- What is lost is less than half a unit. -/
theorem kept_div (w : Nat) (hlog : n.log2 = s + 53) : kept (2 ^ w) n / 2 ^ s = n / 2 ^ s := by
  have hpos : 0 < n := Nat.pos_of_ne_zero (by rintro rfl; contradiction)
  have hlarge : 2 ^ 53 * 2 ^ s ≤ n := by
    rw [← pow_add, Nat.add_comm, ← hlog]
    exact Nat.log2_self_le hpos.ne'
  have hpower : (2 ^ w) ^ surplus (2 ^ w) n ≤ n / 2 ^ 53 := by
    refine Nat.pow_log_le_self _ (Nat.div_pos ?_ (by decide)).ne'
    exact (Nat.le_mul_of_pos_right _ (Nat.two_pow_pos s)).trans hlarge
  rw [kept]
  rw [← pow_mul] at hpower ⊢
  generalize w * surplus (2 ^ w) n = k at hpower ⊢
  have hk : k ≤ s := by
    have hlow : 2 ^ (k + 53) ≤ n := by
      rw [pow_add]
      exact (Nat.le_div_iff_mul_le (by decide)).mp hpower
    have hlog' := (Nat.le_log2 hpos.ne').mpr hlow
    omega
  obtain ⟨i, rfl⟩ := Nat.exists_eq_add_of_le hk
  rw [pow_add, Nat.mul_comm (2 ^ k) (2 ^ i), Nat.mul_div_mul_right _ _ (Nat.two_pow_pos k),
    Nat.div_div_eq_div_mul, Nat.mul_comm]

theorem log2_kept (w : Nat) (hlog : n.log2 = s + 53) : (kept (2 ^ w) n).log2 = s + 53 := by
  have hpos : 0 < n := Nat.pos_of_ne_zero (by rintro rfl; contradiction)
  have hquotient : 2 ^ 53 ≤ kept (2 ^ w) n / 2 ^ s := by
    rw [kept_div w hlog, Nat.le_div_iff_mul_le (Nat.two_pow_pos s), ← pow_add, Nat.add_comm, ← hlog]
    exact Nat.log2_self_le hpos.ne'
  have hlow : 2 ^ (s + 53) ≤ kept (2 ^ w) n := by
    rw [Nat.add_comm, pow_add]
    exact (Nat.le_div_iff_mul_le (Nat.two_pow_pos s)).mp hquotient
  have hhigh : kept (2 ^ w) n < 2 ^ (s + 53 + 1) :=
    (kept_le _ n).trans_lt (hlog ▸ Nat.lt_log2_self)
  exact (Nat.log2_eq_iff ((Nat.two_pow_pos _).trans_le hlow).ne').mpr ⟨hlow, hhigh⟩

end

theorem fallsShort_iff {base n s : Nat} (hlog : n.log2 = s + 53) :
    FallsShort base n ↔ kept base n < n ∧ kept base n = n / 2 ^ s * 2 ^ s ∧ n / 2 ^ s % 4 = 1 ∧
      s ≤ 970 := by
  have hs : n.log2 - 53 = s := by omega
  have hunits : halfUnits n = n / 2 ^ s := by rw [halfUnits, hs]
  have hbound : n < 2 ^ 1024 ↔ s ≤ 970 := by
    rw [← Nat.log2_lt (by rintro rfl; contradiction)]
    omega
  constructor
  · rintro ⟨hlost, hmiddle, heven, hbounded⟩
    rw [hunits] at hmiddle heven
    exact ⟨hlost, hs ▸ hmiddle, heven, hbound.mp hbounded⟩
  · rintro ⟨hlost, hmiddle, heven, hbounded⟩
    exact ⟨hlost, by rw [hunits, hs, hmiddle], hunits ▸ heven, hbound.mpr hbounded⟩

theorem eq_iff_bounded_eq {x y : Float} {a n : Nat} (ha : 2 ^ 52 ≤ a) (hn : 2 ^ 52 ≤ n)
    (hy : IsNearest a y) (hx : IsNearest n x) :
    y = x ↔ Binary64.bounded (rounded a) = Binary64.bounded (rounded n) := by
  have hone {k : Nat} (hk : 2 ^ 52 ≤ k) : 1 ≤ (k : ℚ) := by exact_mod_cast le_trans (by decide) hk
  have hyform := hy.ofFloat_eq (rounds_rounded ha) (hone ha)
  have hxform := hx.ofFloat_eq (rounds_rounded hn) (hone hn)
  constructor
  · rintro rfl
    exact hyform.symm.trans hxform
  · intro h
    refine Binary64.ofFloat_inj (hyform.trans (h.trans hxform.symm)) ?_
    rw [hyform, Binary64.bounded]
    split <;> exact Binary64.noConfusion

theorem bounded_carried_eq_iff {m : Nat} (hm : m + 1 < 2 ^ 53) (t : Int) :
    Binary64.bounded (carried m t) = Binary64.bounded (carried (m + 1) t) ↔ 971 < t := by
  rw [carried, carried, if_neg (by omega), if_neg (by omega), Binary64.bounded, Binary64.bounded]
  by_cases ht : t ≤ 971
  · rw [if_pos ht, if_pos ht, Binary64.finite.injEq, Dyadic.mk.injEq]
    omega
  · rw [if_neg ht, if_neg ht]
    simpa using ht

/-- The float nearest to what is kept of a number is the one nearest to the number, unless the
number falls short. -/
theorem eq_iff_not_fallsShort {w n : Nat} {x y : Float} (hw : 0 < w) (hn : 2 ^ 53 ≤ n)
    (hy : IsNearest (kept (2 ^ w) n) y) (hx : IsNearest n x) :
    y = x ↔ ¬FallsShort (2 ^ w) n := by
  have hkept := le_kept (Nat.one_lt_two_pow hw.ne') hn
  rw [eq_iff_bounded_eq (le_trans (by decide) hkept) (le_trans (by decide) hn) hy hx]
  obtain ⟨s, hlog⟩ : ∃ s, n.log2 = s + 53 :=
    ⟨n.log2 - 53, (Nat.sub_add_cancel ((Nat.le_log2 (by omega)).mpr hn)).symm⟩
  have hlog' := log2_kept w hlog
  have hdiv := kept_div w hlog
  have hround {k : Nat} (hk : k.log2 = s + 53) :
      rounded k = carried (leading k).roundedMantissa (s + 1 : Nat) := by
    rw [rounded, hk]
    rfl
  rw [fallsShort_iff hlog, hround hlog, hround hlog']
  have hcarry := (cut_leading (n := n) (le_trans (by decide) hn)).roundedMantissa_le
  have hle := kept_le (2 ^ w) n
  have hlow : n / 2 ^ s * 2 ^ s ≤ kept (2 ^ w) n := by
    rw [← hdiv]
    exact Nat.div_mul_le_self ..
  obtain ⟨m, hm | hm⟩ : ∃ m, n / 2 ^ s = 2 * m ∨ n / 2 ^ s = 2 * m + 1 :=
    ⟨n / 2 ^ s / 2, by omega⟩
  · -- both are below the middle
    rw [roundedMantissa_low hlog hm, roundedMantissa_low hlog' (hdiv.trans hm)]
    exact iff_of_true rfl (by omega)
  rw [hm] at hlow ⊢
  rcases Nat.lt_or_eq_of_le hlow with habove | hmiddle
  · -- both are above it
    rw [roundedMantissa_high hlog hm (habove.trans_le hle),
      roundedMantissa_high hlog' (hdiv.trans hm) habove]
    exact iff_of_true rfl (by omega)
  rcases Nat.lt_or_eq_of_le hle with hlost | hwhole
  · -- only the number itself is above it
    rw [roundedMantissa_high hlog hm (hmiddle ▸ hlost)] at hcarry ⊢
    rw [roundedMantissa_middle hlog' hmiddle.symm]
    rcases Nat.mod_two_eq_zero_or_one m with heven | hodd
    · rw [heven]
      have hdiffer := bounded_carried_eq_iff (m := m) (by omega) (s + 1 : Nat)
      rw [Nat.add_zero, hdiffer]
      omega
    · rw [hodd]
      exact iff_of_true rfl (by omega)
  · rw [hwhole]
    exact iff_of_true rfl (by omega)

/-- The last digit of this number decides against a tie, but it is lost. -/
example : FallsShort 16 0x20000000000001001 :=
  ⟨by decide +kernel, by decide +kernel, by decide +kernel, by decide +kernel⟩

end LoxLang.Number
