import LoxLang.Number.Binary64

/-!
# Shortest digits

The fewest decimal digits that still read back as a given binary64 number. A number owns the reals
nearer to it than to its neighbours, the two ends included when its mantissa is even. For one digit,
two digits and so on, the two points of that decimal grid around the number are tried; the first
grid with a point among the owned reals gives the digits, and of two such points the nearer wins.
-/

namespace LoxLang.Number

/-- Which of two equally near grid points is taken. -/
inductive Tie
  | upper
  | even
  deriving DecidableEq, Repr

/-- The positive decimal `d.ddd * 10 ^ exponent`: its digits, without a trailing zero, and the place
of the first. -/
structure DecimalDigits where
  digits : List Char
  exponent : Int
  deriving DecidableEq, Repr

/-- The positive real `numerator / denominator` with the reals it owns; `below` and `above` are the
distances to the ends, over the same denominator. -/
structure OwnedInterval where
  numerator : Nat
  denominator : Nat
  below : Nat
  above : Nat
  closed : Bool

/-- The power of ten. -/
def tenTo (k : Nat) : Nat :=
  Nat.pow 10 k

namespace OwnedInterval

/-- The interval of `mantissa * 2 ^ exponent`. Below a power of two the neighbour is twice as
near. -/
def ofDyadic (mantissa : Nat) (exponent : Int) : OwnedInterval :=
  let scale := 1 <<< exponent.toNat
  let low := if mantissa = 1 <<< 52 ∧ -1074 < exponent then 1 else 2
  { numerator := 4 * mantissa * scale
    denominator := 4 <<< (-exponent).toNat
    below := low * scale
    above := 2 * scale
    closed := mantissa % 2 == 0 }

/-- Whether `n / 10 ^ places` is among the owned reals; `places` may be negative. -/
def owns (x : OwnedInterval) (n : Nat) (places : Int) : Bool :=
  let point := n * tenTo (-places).toNat * x.denominator
  let grid := tenTo places.toNat
  let lower := (x.numerator - x.below) * grid
  let upper := (x.numerator + x.above) * grid
  if x.closed then decide (lower ≤ point) && decide (point ≤ upper)
  else decide (lower < point) && decide (point < upper)

/-- The place of the first digit: the greatest `k` with `10 ^ k` at most the number. -/
def leadingPlace (x : OwnedInterval) : Int :=
  let reaches (k : Int) : Bool :=
    decide (tenTo k.toNat * x.denominator ≤ x.numerator * tenTo (-k).toNat)
  let guess := (((x.numerator.log2 : Int) - x.denominator.log2) * 30103).fdiv 100000 - 1
  if reaches (guess + 2) then guess + 2
  else if reaches (guess + 1) then guess + 1
  else guess

/-- The point of the grid with steps of `10 ^ -places` that stands for the number, if one of the two
around it is owned. -/
def gridPoint? (x : OwnedInterval) (tie : Tie) (places : Int) : Option Nat :=
  let top := x.numerator * tenTo places.toNat
  let bottom := x.denominator * tenTo (-places).toNat
  let lower := top / bottom
  let remainder := top % bottom
  match x.owns lower places, x.owns (lower + 1) places with
  | true, false => some lower
  | false, true => some (lower + 1)
  | false, false => none
  | true, true =>
    if 2 * remainder < bottom then some lower
    else if bottom < 2 * remainder then some (lower + 1)
    else match tie with
      | .upper => some (lower + 1)
      | .even => some (lower + lower % 2)

/-- The first grid that has a point for the number, from `count` digits up. Seventeen digits are
always enough. -/
def digitsFrom (x : OwnedInterval) (tie : Tie) (leading : Int) : Nat → Nat → Nat × Int
  | 0, count =>
    let places := (count : Int) - 1 - leading
    (x.numerator * tenTo places.toNat / (x.denominator * tenTo (-places).toNat), places)
  | more + 1, count =>
    let places := (count : Int) - 1 - leading
    match x.gridPoint? tie places with
    | some n => (n, places)
    | none => x.digitsFrom tie leading more (count + 1)

end OwnedInterval

/-- Drop the trailing zeros of a digit text, keeping the first digit. -/
def dropTrailingZeros : List Char → List Char
  | [] => []
  | d :: ds => d :: (ds.reverse.dropWhile (· = '0')).reverse

/-- The shortest digits of a positive number. -/
def shortest (tie : Tie) (mantissa : Nat) (exponent : Int) : DecimalDigits :=
  let x := OwnedInterval.ofDyadic mantissa exponent
  let (n, places) := x.digitsFrom tie x.leadingPlace 17 1
  let digits := Nat.toDigits 10 n
  ⟨dropTrailingZeros digits, (digits.length : Int) - 1 - places⟩

end LoxLang.Number
