/-!
# Exact 64-bit integers

Arithmetic on 64-bit integers that gives the mathematical result or nothing, and never a wrapped
one.
-/

namespace LoxLang.Number

/-- Whether a 64-bit integer has this value. -/
def InRange (n : Int) : Prop :=
  -9223372036854775808 ≤ n ∧ n ≤ 9223372036854775807

instance (n : Int) : Decidable (InRange n) :=
  inferInstanceAs (Decidable (_ ∧ _))

/-- The 64-bit integer with this value, if there is one. -/
def fit? (n : Int) : Option Int64 :=
  if InRange n then some (Int64.ofInt n) else none

/-- The 64-bit integer nearest to this value. -/
def clamp (n : Int) : Int64 :=
  if n < -9223372036854775808 then Int64.minValue
  else if 9223372036854775807 < n then Int64.maxValue
  else Int64.ofInt n

theorem toInt_inRange (x : Int64) : InRange x.toInt := by
  have hlow := Int64.minValue_le_toInt x
  have hhigh := Int64.toInt_le x
  simp only [Int64.toInt_minValue, Int64.toInt_maxValue] at hlow hhigh
  constructor <;> omega

theorem toInt_ofInt_of_inRange {n : Int} (h : InRange n) : (Int64.ofInt n).toInt = n :=
  Int64.toInt_ofInt_of_le (by have := h.1; omega) (by have := h.2; omega)

theorem fit?_toInt (x : Int64) : fit? x.toInt = some x := by
  simp [fit?, toInt_inRange]

theorem fit?_eq_some_iff {n : Int} {x : Int64} : fit? n = some x ↔ x.toInt = n := by
  constructor
  · intro h
    unfold fit? at h
    split at h
    · next hrange => cases h; exact toInt_ofInt_of_inRange hrange
    · cases h
  · rintro rfl
    exact fit?_toInt x

theorem fit?_eq_none_iff {n : Int} : fit? n = none ↔ ¬ InRange n := by
  simp [fit?]

namespace Checked

def add? (x y : Int64) : Option Int64 :=
  fit? (x.toInt + y.toInt)

def sub? (x y : Int64) : Option Int64 :=
  fit? (x.toInt - y.toInt)

def mul? (x y : Int64) : Option Int64 :=
  fit? (x.toInt * y.toInt)

def neg? (x : Int64) : Option Int64 :=
  fit? (-x.toInt)

/-- The remainder that is zero or has the sign of the divisor. It is left out where the quotient is
no 64-bit integer. -/
def mod? (x y : Int64) : Option Int64 :=
  if InRange (x.toInt.tdiv y.toInt) then fit? (x.toInt.fmod y.toInt) else none

end Checked

end LoxLang.Number
