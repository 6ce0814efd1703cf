/-!
# Binary64 numbers, read exactly

A finite binary64 number is an integer times a power of two. Rounding to whole numbers and the
remainder of a division are taken on that integer and that power, so they are exact.
-/

namespace LoxLang.Number

/-- The number `± mantissa * 2 ^ exponent`. -/
structure Dyadic where
  negative : Bool
  mantissa : Nat
  exponent : Int
  deriving DecidableEq, Repr

/-- What a binary64 pattern stands for. -/
inductive Binary64
  | notANumber
  | infinite (negative : Bool)
  | finite (value : Dyadic)
  deriving DecidableEq, Repr

namespace Dyadic

def signed (negative : Bool) (n : Nat) : Int :=
  if negative then -(n : Int) else n

/-- The whole part, toward zero. -/
def truncate (x : Dyadic) : Int :=
  if 0 ≤ x.exponent then signed x.negative (x.mantissa <<< x.exponent.toNat)
  else signed x.negative (x.mantissa >>> (-x.exponent).toNat)

def isWhole (x : Dyadic) : Bool :=
  if 0 ≤ x.exponent then true else x.mantissa % (1 <<< (-x.exponent).toNat) == 0

/-- The greatest integer that is not above the number. -/
def floor (x : Dyadic) : Int :=
  if x.negative && !x.isWhole then x.truncate - 1 else x.truncate

/-- The remainder of the division that truncates its quotient; it has the sign of the dividend. -/
def remainder (x y : Dyadic) : Dyadic :=
  let exponent := min x.exponent y.exponent
  let dividend := x.mantissa <<< (x.exponent - exponent).toNat
  let divisor := y.mantissa <<< (y.exponent - exponent).toNat
  ⟨x.negative, dividend % divisor, exponent⟩

end Dyadic

namespace Binary64

/-- Split the pattern into sign, exponent and fraction. -/
def ofFloat (x : Float) : Binary64 :=
  let bits : Nat := x.toBits.toNat
  let negative := bits >>> 63 == 1
  let exponent : Nat := (bits >>> 52) % 2048
  let fraction : Nat := bits % (1 <<< 52)
  if exponent = 2047 then
    if fraction = 0 then .infinite negative else .notANumber
  else if exponent = 0 then .finite ⟨negative, fraction, -1074⟩
  else .finite ⟨negative, fraction + (1 <<< 52), (exponent : Int) - 1075⟩

/-- The pattern of a number whose mantissa is below `2 ^ 53` and whose exponent is at least `-1074`,
up to the greatest finite number. -/
def toFloat (x : Dyadic) : Float :=
  let sign := if x.negative then 1 <<< 63 else 0
  if x.mantissa = 0 then Float.ofBits (UInt64.ofNat sign)
  else
    let shift := min (52 - x.mantissa.log2) (x.exponent + 1074).toNat
    let biased := (x.exponent + 1074).toNat - shift
    Float.ofBits (UInt64.ofNat (sign + (biased <<< 52) + (x.mantissa <<< shift)))

end Binary64

/-- The greatest integer that is not above a finite number. -/
def floor? (x : Float) : Option Int :=
  match Binary64.ofFloat x with
  | .finite value => some value.floor
  | _ => none

/-- A finite number without its fraction. -/
def truncate? (x : Float) : Option Int :=
  match Binary64.ofFloat x with
  | .finite value => some value.truncate
  | _ => none

/-- The integer that a number is exactly. -/
def whole? (x : Float) : Option Int :=
  match Binary64.ofFloat x with
  | .finite value => if value.isWhole then some value.truncate else none
  | _ => none

/-- The exact remainder of `x / y` with the quotient truncated. There is none for an infinite
dividend or a zero divisor. -/
def remainder (x y : Float) : Float :=
  match Binary64.ofFloat x, Binary64.ofFloat y with
  | .finite a, .finite b =>
    if b.mantissa = 0 then 0.0 / 0.0 else Binary64.toFloat (a.remainder b)
  | .finite _, .infinite _ => x
  | _, _ => 0.0 / 0.0

/-- The remainder that is zero or has the sign of the divisor. -/
def floorRemainder (x y : Float) : Float :=
  let r := remainder x y
  if r != 0.0 && decide (r < 0.0) != decide (y < 0.0) then r + y else r

/-- The binary64 number nearest to a 64-bit integer. -/
def ofInt64 (n : Int64) : Float :=
  Float.ofInt n.toInt

example : Binary64.ofFloat (-0.0) = .finite ⟨true, 0, -1074⟩ := by decide +kernel
example : floor? (-2.5) = some (-3) := by decide +kernel
example : truncate? (-2.5) = some (-2) := by decide +kernel
example : floorRemainder (-7.5) 2.0 = 0.5 := by decide +kernel
example : floorRemainder 1.0 (-0.3) = -0.19999999999999996 := by decide +kernel

end LoxLang.Number
