import LoxLang.Proofs.Number.Unpacked

/-!
# The order of floats

Floats are compared field by field, the exponents first. As the exponent of each is the least one
possible, this is the order of the numbers that they denote, with the infinities around them
(`number?`); what is no number compares with nothing.
-/

namespace LoxLang.Number

open Float.Model

/-- The rational numbers between two infinities. -/
abbrev Extended := WithBot (WithTop ℚ)

def Binary64.value? : Binary64 → Option Extended
  | notANumber => none
  | infinite true => some ⊥
  | infinite false => some ⊤
  | finite x => some ((x.value : WithTop ℚ) : Extended)

/-- The number that a float denotes. -/
def number? (x : Float) : Option Extended :=
  (Binary64.ofFloat x).value?

theorem coe_le_coe {p q : ℚ} :
    ((p : WithTop ℚ) : Extended) ≤ ((q : WithTop ℚ) : Extended) ↔ p ≤ q := by
  rw [WithBot.coe_le_coe, WithTop.coe_le_coe]

theorem coe_lt_coe {p q : ℚ} :
    ((p : WithTop ℚ) : Extended) < ((q : WithTop ℚ) : Extended) ↔ p < q := by
  rw [WithBot.coe_lt_coe, WithTop.coe_lt_coe]

theorem coe_inj {p q : ℚ} :
    ((p : WithTop ℚ) : Extended) = ((q : WithTop ℚ) : Extended) ↔ p = q := by
  rw [WithBot.coe_inj, WithTop.coe_inj]

theorem coe_lt_top (q : ℚ) : ((q : WithTop ℚ) : Extended) < ⊤ :=
  WithBot.coe_lt_coe.mpr (WithTop.coe_lt_top q)

theorem number?_eq_coe {x : Float} {q : ℚ} :
    number? x = some ((q : WithTop ℚ) : Extended) ↔
      ∃ d, Binary64.ofFloat x = .finite d ∧ d.value = q := by
  unfold number?
  cases Binary64.ofFloat x with
  | notANumber => simp [Binary64.value?]
  | infinite negative =>
    cases negative with
    | false => simp [Binary64.value?, (coe_lt_top q).ne']
    | true => simp [Binary64.value?]
  | finite d =>
    rw [Binary64.value?, Option.some_inj, coe_inj]
    simp

theorem cmp_coe (p q : ℚ) : cmp ((p : WithTop ℚ) : Extended) ((q : WithTop ℚ) : Extended) =
    cmp p q := by
  rw [WithBot.coe_strictMono.cmp_map_eq, WithTop.coe_strictMono.cmp_map_eq]

theorem cmp_neg_neg (p q : ℚ) : cmp (-p) (-q) = cmp q p :=
  StrictAnti.cmp_map_eq (fun _ _ h => neg_lt_neg h) p q

/-- Exponents decide before mantissas do. -/
theorem compare_fields {m n : Nat} {d e : Int} (hm : Dyadic.Reduced ⟨false, m, d⟩)
    (hn : Dyadic.Reduced ⟨false, n, e⟩) :
    (compare d e).then (compare m n) = cmp ((m : ℚ) * 2 ^ d) (n * 2 ^ e) := by
  have hd : -1074 ≤ d := hm.exponent
  have he : -1074 ≤ e := hn.exponent
  rcases lt_trichotomy d e with hlt | rfl | hgt
  · have hnormal : 2 ^ 52 ≤ n := hn.normal.resolve_right fun h => by
      dsimp only at h
      omega
    rw [compare_lt_iff_lt.mpr hlt]
    exact ((cmp_eq_lt_iff _ _).mpr (Dyadic.mul_zpow_lt hm.mantissa hnormal hlt)).symm
  · rw [compare_eq_iff_eq.mpr rfl, cmp_mul_pos_right (zpow_pos two_pos d),
      (Nat.strictMono_cast (α := ℚ)).cmp_map_eq, cmp_eq_compare]
    rfl
  · have hnormal : 2 ^ 52 ≤ m := hm.normal.resolve_right fun h => by
      dsimp only at h
      omega
    rw [compare_gt_iff_gt.mpr hgt]
    exact ((cmp_eq_gt_iff _ _).mpr (Dyadic.mul_zpow_lt hn.mantissa hnormal hgt)).symm

namespace Binary64

/-- What an unpacked float denotes; finite ones are reduced. -/
inductive Denotes : UnpackedFloat → Option Extended → Prop
  | notANumber : Denotes .notANumber none
  | positiveInfinity : Denotes (.infinity .positive) (some ⊤)
  | negativeInfinity : Denotes (.infinity .negative) (some ⊥)
  | zero (sign : UnpackedFloat.Sign) : Denotes (.zero sign) (some ((0 : ℚ) : WithTop ℚ))
  | positive {m : Nat} {e : Int} {hm : 0 < m} (h : Dyadic.Reduced ⟨false, m, e⟩) :
    Denotes (.finite .positive m e hm) (some ((m * 2 ^ e : ℚ) : WithTop ℚ))
  | negative {m : Nat} {e : Int} {hm : 0 < m} (h : Dyadic.Reduced ⟨false, m, e⟩) :
    Denotes (.finite .negative m e hm) (some ((-(m * 2 ^ e) : ℚ) : WithTop ℚ))

theorem denotes_unpack (x : Float) : Denotes x.toModel.unpack (number? x) := by
  have hreduced {d : Dyadic} (h : ofFloat x = .finite d) := (canonical_of_ofFloat h).toReduced
  rw [number?]
  rw [ofFloat_eq] at hreduced ⊢
  generalize x.toModel.unpack = u at hreduced ⊢
  rcases u with (_ | _) | _ | sign | ⟨_ | _, m, e, hm⟩
  · exact .negativeInfinity
  · exact .positiveInfinity
  · exact .notANumber
  · rw [ofUnpacked, value?, Dyadic.value_zero]
    exact .zero sign
  · have hneg : Dyadic.value ⟨isNegative .negative, m, e⟩ = -(m * 2 ^ e) :=
      Dyadic.value_negated false m e
    have hd := hreduced rfl
    rw [ofUnpacked, value?, hneg]
    exact .negative ⟨⟨hd.mantissa, hd.exponent⟩, hd.normal⟩
  · exact .positive (hreduced rfl)

section Compared

variable {p q : Extended}

theorem some_lt (h : p < q) : some .lt = Option.map₂ cmp (some p) (some q) :=
  congrArg some ((cmp_eq_lt_iff _ _).mpr h).symm

theorem some_eq (p : Extended) : some .eq = Option.map₂ cmp (some p) (some p) :=
  congrArg some (cmp_self_eq_eq p).symm

theorem some_gt (h : q < p) : some .gt = Option.map₂ cmp (some p) (some q) :=
  congrArg some ((cmp_eq_gt_iff _ _).mpr h).symm

end Compared

/-- The order of two unpacked floats is that of the numbers they denote. -/
theorem Denotes.compare {u v : UnpackedFloat} {p q : Option Extended} (hu : Denotes u p)
    (hv : Denotes v q) : u.compare v = Option.map₂ cmp p q := by
  have hpos {m : Nat} (hm : 0 < m) (e : Int) : (0 : ℚ) < m * 2 ^ e :=
    mul_pos (Nat.cast_pos.mpr hm) (zpow_pos two_pos e)
  have hneg {m : Nat} (hm : 0 < m) (e : Int) : -(m * 2 ^ e : ℚ) < 0 :=
    neg_lt_zero.mpr (hpos hm e)
  cases hu with
  | notANumber => rfl
  | positiveInfinity =>
    cases hv with
    | notANumber => rfl
    | positiveInfinity => exact some_eq ⊤
    | negativeInfinity => exact some_gt bot_lt_top
    | zero | positive | negative => exact some_gt (coe_lt_top _)
  | negativeInfinity =>
    cases hv with
    | notANumber => rfl
    | positiveInfinity => exact some_lt bot_lt_top
    | negativeInfinity => exact some_eq ⊥
    | zero | positive | negative => exact some_lt (WithBot.bot_lt_coe _)
  | zero =>
    cases hv with
    | notANumber => rfl
    | positiveInfinity => exact some_lt (coe_lt_top _)
    | negativeInfinity => exact some_gt (WithBot.bot_lt_coe _)
    | zero => exact some_eq _
    | @positive n e hn h' => exact some_lt (coe_lt_coe.mpr (hpos hn e))
    | @negative n e hn h' => exact some_gt (coe_lt_coe.mpr (hneg hn e))
  | @positive m d hm h =>
    cases hv with
    | notANumber => rfl
    | positiveInfinity => exact some_lt (coe_lt_top _)
    | negativeInfinity => exact some_gt (WithBot.bot_lt_coe _)
    | zero => exact some_gt (coe_lt_coe.mpr (hpos hm d))
    | @positive n e hn h' => exact congrArg some ((compare_fields h h').trans (cmp_coe ..).symm)
    | @negative n e hn h' => exact some_gt (coe_lt_coe.mpr ((hneg hn e).trans (hpos hm d)))
  | @negative m d hm h =>
    cases hv with
    | notANumber => rfl
    | positiveInfinity => exact some_lt (coe_lt_top _)
    | negativeInfinity => exact some_gt (WithBot.bot_lt_coe _)
    | zero => exact some_lt (coe_lt_coe.mpr (hneg hm d))
    | @positive n e hn h' => exact some_lt (coe_lt_coe.mpr ((hneg hm d).trans (hpos hn e)))
    | @negative n e hn h' =>
      refine congrArg some ?_
      rw [cmp_coe, cmp_neg_neg, ← cmp_swap, ← compare_fields h h']

end Binary64

/-- The order of two floats; there is none if one of them is no number. -/
def order? (x y : Float) : Option Ordering :=
  Option.map₂ cmp (number? x) (number? y)

theorem order?_eq_some {x y : Float} {p q : Extended} (hx : number? x = some p)
    (hy : number? y = some q) : order? x y = some (cmp p q) := by
  rw [order?, hx, hy]
  rfl

theorem order?_swap (x y : Float) : order? x y = (order? y x).map .swap := by
  unfold order?
  cases number? x <;> cases number? y <;> simp [cmp_swap]

theorem compare_unpack (x y : Float) :
    x.toModel.unpack.compare y.toModel.unpack = order? x y :=
  (Binary64.denotes_unpack x).compare (Binary64.denotes_unpack y)

theorem lt_iff {x y : Float} : x < y ↔ order? x y = some .lt := by
  rw [← compare_unpack]
  change decide ((x.toModel.unpack.compare y.toModel.unpack == some .lt) = true) = true ↔ _
  rw [decide_eq_true_eq, beq_iff_eq]

theorem beq_iff {x y : Float} : (x == y) = true ↔ order? x y = some .eq := by
  rw [← compare_unpack]
  change (x.toModel.unpack.compare y.toModel.unpack == some .eq) = true ↔ _
  rw [beq_iff_eq]

end LoxLang.Number
