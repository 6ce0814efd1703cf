import LoxLang.Proofs.Number.Dyadic
import Mathlib

/-!
# Patterns and unpacked floats

The operations on floats work on their unpacked form. A pattern and the unpacked form say the same
of a float (`Binary64.ofFloat_eq`).
-/

namespace LoxLang.Number

open Float.Model

namespace Binary64

def isNegative : UnpackedFloat.Sign → Bool
  | .negative => true
  | .positive => false

/-- What an unpacked float stands for. -/
def ofUnpacked : UnpackedFloat → Binary64
  | .notANumber => .notANumber
  | .infinity sign => .infinite (isNegative sign)
  | .zero sign => .finite ⟨isNegative sign, 0, -1074⟩
  | .finite sign mantissa exponent _ => .finite ⟨isNegative sign, mantissa, exponent⟩

variable (b : BitVec Format.binary64.numBits)

theorem toNat_unpackMantissa : (UnpackedFloat.unpackMantissa b).toNat = b.toNat % 2 ^ 52 := by
  simp [UnpackedFloat.unpackMantissa]

theorem toNat_unpackExponent :
    (UnpackedFloat.unpackExponent b).toNat = b.toNat >>> 52 % 2048 := by
  simp [UnpackedFloat.unpackExponent]

theorem isNegative_unpackSign :
    isNegative (.ofBitVec (UnpackedFloat.unpackSign b)) = (b.toNat >>> 63 == 1) := by
  have hbound : b.toNat >>> 63 < 2 := by
    rw [Nat.shiftRight_eq_div_pow]
    exact Nat.div_lt_of_lt_mul b.isLt
  have hsign : (UnpackedFloat.unpackSign b).toNat = b.toNat >>> 63 := by
    simp [UnpackedFloat.unpackSign, Nat.mod_eq_of_lt hbound]
  have hzero : UnpackedFloat.unpackSign b = 0#1 ↔ b.toNat >>> 63 = 0 := by
    rw [← BitVec.toNat_inj, hsign]
    rfl
  unfold UnpackedFloat.Sign.ofBitVec
  split
  · next h =>
    rw [hzero.mp h]
    rfl
  · next h =>
    rw [hzero] at h
    have hone : b.toNat >>> 63 = 1 := by omega
    rw [hone]
    rfl

/-- The implicit bit of a normal number. -/
theorem toNat_implicit (m : BitVec 52) : (1#1 ++ m).toNat = m.toNat + 2 ^ 52 := by
  rw [BitVec.toNat_append, ← Nat.shiftLeft_add_eq_or_of_lt m.isLt, Nat.add_comm]
  rfl

/-- The pattern of a float says what its unpacked form says. -/
theorem ofFloat_eq (x : Float) : ofFloat x = ofUnpacked x.toModel.unpack := by
  have hbits : x.toBits.toNat = x.toModel.toBits.toBitVec.toNat := rfl
  have hexponent := toNat_unpackExponent x.toModel.toBits.toBitVec
  have hfraction := toNat_unpackMantissa x.toModel.toBits.toBitVec
  have hsign := isNegative_unpackSign x.toModel.toBits.toBitVec
  change ofFloat x = ofUnpacked
    (UnpackedFloat.unpack Format.binary64 x.toModel.toBits.toBitVec)
  unfold ofFloat UnpackedFloat.unpack
  simp only [hbits, Nat.one_shiftLeft, ← hexponent, ← hfraction, ← hsign]
  -- the fields of the pattern, compared as bit vectors and as numbers
  have hfield {width n : Nat} (e pattern : BitVec width) (hn : pattern.toNat = n) :
      e.toNat = n ↔ e = pattern := by
    rw [← hn, BitVec.toNat_inj]
  have hlast (e : BitVec 11) : e.toNat = 2047 ↔ e = -1#11 := hfield e _ rfl
  have hfirst (e : BitVec 11) : e.toNat = 0 ↔ e = 0#11 := hfield e _ rfl
  have hempty (m : BitVec 52) : m.toNat = 0 ↔ m = 0#52 := hfield m _ rfl
  simp only [hlast, hfirst, hempty]
  split
  · split <;> rfl
  · split
    · next hzero =>
      rw [hzero]
      split
      · next hm =>
        rw [hm]
        rfl
      · rfl
    · refine congrArg Binary64.finite ?_
      rw [toNat_implicit]
      rfl

theorem canonical_of_ofFloat {x : Float} {d : Dyadic} (h : ofFloat x = .finite d) :
    d.Canonical := by
  unfold ofFloat at h
  simp only [Nat.one_shiftLeft] at h
  have hfraction : x.toBits.toNat % 2 ^ 52 < 2 ^ 52 := Nat.mod_lt _ (Nat.two_pow_pos 52)
  have hexponent : x.toBits.toNat >>> 52 % 2048 < 2048 := Nat.mod_lt _ (by decide)
  split at h
  · split at h <;> cases h
  · split at h
    · cases h
      exact ⟨⟨⟨Nat.lt_trans hfraction (by decide), Int.le_refl _⟩, .inr rfl⟩,
        show (-1074 : Int) ≤ 971 by decide⟩
    · cases h
      refine ⟨⟨⟨?_, ?_⟩, .inl ?_⟩, ?_⟩ <;> dsimp only <;> omega

/-! ## Packing -/

/-- What the three fields of a pattern stand for. -/
theorem ofUnpacked_unpack_packComponents (sign : UnpackedFloat.Sign) (e : BitVec 11)
    (m : BitVec 52) :
    ofUnpacked (UnpackedFloat.unpack .binary64 (UnpackedFloat.packComponents .binary64 sign e m)) =
      if e = -1#11 then if m = 0#52 then .infinite (isNegative sign) else .notANumber
      else if e = 0#11 then .finite ⟨isNegative sign, m.toNat, -1074⟩
      else .finite ⟨isNegative sign, m.toNat + 2 ^ 52, e.toNat - 1075⟩ := by
  unfold UnpackedFloat.unpack
  simp only [UnpackedFloat.unpackExponent_packComponents,
    UnpackedFloat.unpackMantissa_packComponents, UnpackedFloat.unpackSign_packComponents,
    UnpackedFloat.Sign.ofBitVec_toBitVec]
  split
  · split <;> rfl
  · split
    · next hzero =>
      rw [hzero]
      split
      · next hm =>
        rw [hm]
        rfl
      · rfl
    · rw [← toNat_implicit]
      rfl

/-- Packing loses nothing of a float in the form of the format. -/
theorem ofUnpacked_unpack_pack {u : UnpackedFloat}
    (h : ∀ d, ofUnpacked u = .finite d → d.Canonical) :
    ofUnpacked (UnpackedFloat.unpack .binary64 (UnpackedFloat.pack .binary64 u)) =
      ofUnpacked u := by
  cases u with
  | notANumber => exact ofUnpacked_unpack_packComponents ..
  | infinity sign => exact ofUnpacked_unpack_packComponents ..
  | zero sign => exact ofUnpacked_unpack_packComponents ..
  | finite sign m e hm =>
    obtain ⟨⟨⟨hmantissa, hexponent⟩, hnormal⟩, hle⟩ := h _ rfl
    dsimp only at hmantissa hexponent hnormal hle
    obtain ⟨biased, hbiased⟩ := Int.eq_ofNat_of_zero_le (show 0 ≤ e + 1075 by omega)
    have htoNat : (e + (Format.exponentBias .binary64 : Int) + (52 : Nat)).toNat = biased := by
      rw [show e + (Format.exponentBias .binary64 : Int) + (52 : Nat) = biased from
        (Int.add_assoc e 1023 52).trans hbiased, Int.toNat_natCast]
    have hfits : ¬2 ^ 11 ≤ biased + 1 := by omega
    have hpack : UnpackedFloat.pack .binary64 (.finite sign m e hm) =
        if m.log2 + 1 = 53 then
          UnpackedFloat.packComponents .binary64 sign (BitVec.ofNat 11 biased) (BitVec.ofNat 52 m)
        else UnpackedFloat.packComponents .binary64 sign 0#11 (BitVec.ofNat 52 m) := by
      unfold UnpackedFloat.pack
      simp only [htoNat, if_neg hfits]
      rfl
    have hlog : m.log2 + 1 = 53 ↔ 2 ^ 52 ≤ m := by
      have hlower := @Nat.le_log2 m 52 hm.ne'
      have hupper := @Nat.log2_lt m 53 hm.ne'
      omega
    rw [hpack]
    split
    · next hnormal =>
      rw [hlog] at hnormal
      have hfield : (BitVec.ofNat 11 biased).toNat = biased := by
        rw [BitVec.toNat_ofNat, Nat.mod_eq_of_lt (by omega)]
      have hne {pattern : BitVec 11} (h : pattern.toNat ≠ biased) :
          BitVec.ofNat 11 biased ≠ pattern := fun heq => h (heq ▸ hfield)
      have hlast : (-1#11).toNat ≠ biased := by
        rw [show (-1#11).toNat = 2047 from rfl]
        omega
      have hfirst : (0#11).toNat ≠ biased := by
        rw [show (0#11).toNat = 0 from rfl]
        omega
      have hwhole : m % 2 ^ 52 + 2 ^ 52 = m := by omega
      rw [ofUnpacked_unpack_packComponents, if_neg (hne hlast), if_neg (hne hfirst), hfield,
        BitVec.toNat_ofNat, hwhole, show (biased : Int) - 1075 = e by omega]
      rfl
    · next hsubnormal =>
      rw [hlog] at hsubnormal
      have hbelow : m % 2 ^ 52 = m := Nat.mod_eq_of_lt (Nat.lt_of_not_le hsubnormal)
      rw [ofUnpacked_unpack_packComponents, if_neg (by decide), if_pos rfl, BitVec.toNat_ofNat,
        hbelow, ← hnormal.resolve_left hsubnormal]
      rfl

/-- The float that an unpacked one in the form of the format is packed into. -/
theorem ofFloat_pack {u : UnpackedFloat} (h : ∀ d, ofUnpacked u = .finite d → d.Canonical) :
    ofFloat (.ofModel (.pack u)) = ofUnpacked u :=
  (ofFloat_eq _).trans (ofUnpacked_unpack_pack h)

/-- A number beyond the bound of the format is packed into an infinity. -/
theorem ofFloat_pack_infinite {sign : UnpackedFloat.Sign} {m : Nat} {e : Int} {hm : 0 < m}
    (h : 971 < e) :
    ofFloat (.ofModel (.pack (.finite sign m e hm))) = .infinite (isNegative sign) := by
  have hlarge : 2 ^ 11 ≤ (e + (Format.exponentBias .binary64 : Int) + (52 : Nat)).toNat + 1 := by
    have hbias : (Format.exponentBias .binary64 : Int) = 1023 := rfl
    omega
  have hpack : UnpackedFloat.pack .binary64 (.finite sign m e hm) =
      UnpackedFloat.pack .binary64 (.infinity sign) := if_pos hlarge
  rw [ofFloat_eq]
  change ofUnpacked (UnpackedFloat.unpack .binary64
    (UnpackedFloat.pack .binary64 (.finite sign m e hm))) = _
  rw [hpack]
  exact ofUnpacked_unpack_packComponents ..

/-! ## Patterns -/

/-- The pattern of what is a number. -/
def pattern : Binary64 → Nat
  | notANumber => 0
  | infinite negative => negative.toNat * 2 ^ 63 + 2047 * 2 ^ 52
  | finite x =>
    x.negative.toNat * 2 ^ 63 +
      if x.mantissa < 2 ^ 52 then x.mantissa
      else (x.exponent + 1075).toNat * 2 ^ 52 + (x.mantissa - 2 ^ 52)

theorem toNat_toBits {x : Float} (h : ofFloat x ≠ .notANumber) :
    x.toBits.toNat = (ofFloat x).pattern := by
  have hbound := x.toBits.toNat_lt
  unfold ofFloat at h ⊢
  simp only [Nat.one_shiftLeft, Nat.shiftRight_eq_div_pow] at h ⊢
  generalize x.toBits.toNat = bits at hbound h ⊢
  have hsign : (bits / 2 ^ 63 == 1).toNat = bits / 2 ^ 63 := by
    have hdigit : bits / 2 ^ 63 < 2 := by omega
    cases hone : bits / 2 ^ 63 == 1 with
    | true => exact (beq_iff_eq.mp hone).symm
    | false =>
      have hne := beq_eq_false_iff_ne.mp hone
      simp only [Bool.toNat_false]
      omega
  split at h
  · next hlast =>
    rw [if_pos hlast]
    split at h
    · next hzero =>
      rw [if_pos hzero, pattern, hsign]
      omega
    · exact absurd rfl h
  · next hlast =>
    rw [if_neg hlast]
    split
    · next hfirst =>
      have hfraction : bits % 2 ^ 52 < 2 ^ 52 := Nat.mod_lt _ (Nat.two_pow_pos 52)
      simp only [pattern, hsign, if_pos hfraction]
      omega
    · next hfirst =>
      have hnormal : ¬bits % 2 ^ 52 + 2 ^ 52 < 2 ^ 52 := by omega
      have hexponent : (((bits / 2 ^ 52 % 2048 : Nat) : Int) - 1075 + 1075).toNat =
          bits / 2 ^ 52 % 2048 := by omega
      simp only [pattern, hsign, if_neg hnormal, hexponent]
      omega

/-- What a float stands for says which float it is, unless it is no number. -/
theorem ofFloat_inj {x y : Float} (h : ofFloat x = ofFloat y) (hx : ofFloat x ≠ .notANumber) :
    x = y := by
  have hbits : x.toBits.toNat = y.toBits.toNat := by
    rw [toNat_toBits hx, toNat_toBits (h ▸ hx), h]
  obtain ⟨⟨a, ha⟩⟩ := x
  obtain ⟨⟨b, hb⟩⟩ := y
  obtain rfl : a = b := UInt64.toNat_inj.mp hbits
  rfl

end Binary64

end LoxLang.Number
