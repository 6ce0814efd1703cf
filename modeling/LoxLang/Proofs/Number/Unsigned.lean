import LoxLang.Number.Reading
import LoxLang.Proofs.Number.Conversion

/-!
# Floats without a sign

Digits are read as a float that is no less than zero. It may be an infinity, but it is a number
(`isUnsigned_nearest`).
-/

namespace LoxLang.Number

open Float.Model Float.Model.UnpackedFloat

namespace Binary64

/-- A number without a minus sign, or infinity. -/
def isUnsigned : Binary64 → Bool
  | notANumber => false
  | infinite negative => !negative
  | finite d => !d.negative

theorem isUnsigned_packComponents {e : BitVec 11} (he : e ≠ -1#11) (m : BitVec 52) :
    (ofUnpacked (UnpackedFloat.unpack .binary64
      (UnpackedFloat.packComponents .binary64 .positive e m))).isUnsigned = true := by
  rw [ofUnpacked_unpack_packComponents, if_neg he]
  split <;> rfl

/-- Packing keeps the sign and makes nothing that is no number. -/
theorem isUnsigned_pack {u : UnpackedFloat} (h : (ofUnpacked u).isUnsigned = true) :
    (ofFloat (.ofModel (.pack u))).isUnsigned = true := by
  rw [ofFloat_eq]
  change (ofUnpacked (UnpackedFloat.unpack .binary64 (UnpackedFloat.pack .binary64 u))).isUnsigned =
    true
  cases u with
  | notANumber => cases h
  | infinity sign =>
    cases sign with
    | negative => cases h
    | positive => rfl
  | zero sign =>
    cases sign with
    | negative => cases h
    | positive => rfl
  | finite sign m e hm =>
    cases sign with
    | negative => cases h
    | positive =>
      unfold UnpackedFloat.pack
      dsimp only
      split
      · rfl
      · next hbound =>
        split
        · refine isUnsigned_packComponents (fun hlast => hbound ?_) _
          have hfield := congrArg BitVec.toNat hlast
          rw [BitVec.toNat_ofNat, show (-1#11).toNat = 2047 from rfl] at hfield
          have hmod := Nat.mod_le (e + (Format.exponentBias .binary64 : Int) +
            (Format.mantissaBitsWithoutImplicit .binary64 : Int)).toNat
            (2 ^ Format.exponentBits .binary64)
          rw [hfield] at hmod
          exact Nat.succ_le_succ hmod
        · exact isUnsigned_packComponents (by decide) _

end Binary64

theorem isUnsigned_roundWithAccuracy (m : Nat) (e : Int) (accuracy : Accuracy) :
    (Binary64.ofUnpacked (roundWithAccuracy .binary64 .positive m e accuracy)).isUnsigned = true := by
  unfold roundWithAccuracy
  dsimp only
  split <;> rfl

/-- An unpacked number that is no less than zero. -/
inductive IsMagnitude : UnpackedFloat → Prop
  | zero : IsMagnitude (.zero .positive)
  | finite (m : Nat) (e : Int) (hm : 0 < m) : IsMagnitude (.finite .positive m e hm)

theorem IsMagnitude.of_ofUnpacked {u : UnpackedFloat} {m : Nat} {e : Int}
    (h : Binary64.ofUnpacked u = .finite ⟨false, m, e⟩) : IsMagnitude u := by
  cases u with
  | notANumber | infinity => cases h
  | zero s =>
    cases s with
    | negative => cases h
    | positive => exact .zero
  | finite s n k hn =>
    cases s with
    | negative => cases h
    | positive => exact .finite n k hn

theorem IsMagnitude.isUnsigned_mul {u v : UnpackedFloat} (hu : IsMagnitude u)
    (hv : IsMagnitude v) :
    (Binary64.ofUnpacked (UnpackedFloat.mul .binary64 u v)).isUnsigned = true := by
  cases hu <;> cases hv
  all_goals first | rfl | exact isUnsigned_roundWithAccuracy ..

theorem IsMagnitude.isUnsigned_div {u : UnpackedFloat} (hu : IsMagnitude u) {m : Nat} {e : Int}
    (hm : 0 < m) :
    (Binary64.ofUnpacked (UnpackedFloat.div .binary64 u (.finite .positive m e hm))).isUnsigned =
      true := by
  cases hu with
  | zero => rfl
  | finite => exact isUnsigned_roundWithAccuracy ..

theorem isUnsigned_ofScientific (m : Nat) (e : Int) :
    (Binary64.ofUnpacked (UnpackedFloat.ofScientific .binary64 m e)).isUnsigned = true := by
  unfold UnpackedFloat.ofScientific
  split
  · rfl
  · split
    · rfl
    · split
      · rfl
      · split
        · exact IsMagnitude.isUnsigned_mul (.finite ..) (.finite ..)
        · exact IsMagnitude.isUnsigned_div (.finite ..) _

theorem IsNearest.isUnsigned {q : ℚ} {x : Float} (h : IsNearest q x) (hq : 1 ≤ q) :
    (Binary64.ofFloat x).isUnsigned = true := by
  obtain ⟨d, hd, hx⟩ := h
  have hform := Dyadic.eq_of_value_pos (zero_lt_one.trans_le (one_le_value hd hq))
  rw [hx, hform, Binary64.bounded]
  split <;> rfl

/-- A finite number greater than zero. -/
def Binary64.isPositive : Binary64 → Bool
  | finite d => !d.negative && decide (0 < d.mantissa)
  | _ => false

theorem exists_finite_of_isPositive {u : UnpackedFloat}
    (h : (Binary64.ofUnpacked u).isPositive = true) :
    ∃ m e, ∃ hm : 0 < m, u = .finite .positive m e hm := by
  cases u with
  | notANumber | infinity => cases h
  | zero s => cases s <;> cases h
  | finite s m e hm =>
    cases s with
    | negative => cases h
    | positive => exact ⟨m, e, hm, rfl⟩

theorem isPositive_powersOfTen : ∀ i : Fin 23,
    (Binary64.ofFloat Float.exactlyRepresentablePowersOfTen[i]).isPositive = true := by
  decide +kernel

theorem isMagnitude_toFloat {m : Nat} (hm : m < 2 ^ 53) :
    IsMagnitude m.toUInt64.toFloat.toModel.unpack := by
  rcases Nat.eq_zero_or_pos m with rfl | hpos
  · exact .of_ofUnpacked (m := 0) (e := -1074) (by decide +kernel)
  · have hnearest := isNearest_toFloat m.toUInt64
    have hwidth : m.toUInt64.toNat = m := UInt64.toNat_ofNat_of_lt (Nat.lt_trans hm (by decide))
    rw [hwidth] at hnearest
    obtain ⟨d, hd, hvalue⟩ := hnearest.value_eq (n := m) hm.le
    have hform := Dyadic.eq_of_value_pos (x := d) (by rw [hvalue]; exact_mod_cast hpos)
    rw [hform, Binary64.ofFloat_eq] at hd
    exact .of_ofUnpacked hd

/-- A decimal number is read as a float without a sign. -/
theorem isUnsigned_nearest (digits : Nat) (exponent : Int) :
    (Binary64.ofFloat (nearest digits exponent)).isUnsigned = true := by
  unfold nearest Float.ofScientific
  split
  · next hfast =>
    have hsize := isMagnitude_toFloat hfast.1
    have hpower := isPositive_powersOfTen ⟨exponent.natAbs, Nat.lt_succ_of_le hfast.2⟩
    rw [Binary64.ofFloat_eq] at hpower
    obtain ⟨m, e, hm, hform⟩ := exists_finite_of_isPositive hpower
    dsimp only
    split
    · have hquotient := hsize.isUnsigned_div (e := e) hm
      rw [← hform] at hquotient
      exact Binary64.isUnsigned_pack hquotient
    · have hproduct := hsize.isUnsigned_mul (.finite m e hm)
      rw [← hform] at hproduct
      exact Binary64.isUnsigned_pack hproduct
  · exact Binary64.isUnsigned_pack (isUnsigned_ofScientific ..)

end LoxLang.Number
