import LoxLang.Number.Shortest

/-!
# Text of binary64 numbers

A number is written with its shortest digits, in plain notation where its size allows and in
scientific notation elsewhere. A `FloatFormat` holds the decisions that differ between the two
places where numbers are written.
-/

namespace LoxLang.Number

/-- The decisions of a number format. -/
structure FloatFormat where
  tie : Tie
  /-- The place of the first digit of the smallest numbers written plainly. -/
  plainFrom : Int
  /-- The place of the first digit of the greatest numbers written plainly. -/
  plainTo : Int
  /-- What stands before an exponent that is not negative. -/
  exponentPlus : String
  notANumber : String
  infinity : String
  negativeInfinity : String

namespace FloatFormat

/-- The digits with a point in them and at least one digit on each side of it. -/
def plain (digits : List Char) (exponent : Int) : List Char :=
  if exponent < 0 then
    '0' :: '.' :: (List.replicate (-exponent - 1).toNat '0' ++ digits)
  else
    let whole := exponent.toNat + 1
    let padded := digits ++ List.replicate (whole - digits.length) '0'
    let fraction := digits.drop whole
    padded.take whole ++ '.' :: (if fraction.isEmpty then ['0'] else fraction)

/-- One digit, the others after a point, and the exponent. -/
def scientific (format : FloatFormat) (digits : List Char) (exponent : Int) : List Char :=
  let mantissa := match digits with
    | [] => []
    | [d] => [d]
    | d :: ds => d :: '.' :: ds
  let sign := if exponent < 0 then "-" else format.exponentPlus
  mantissa ++ 'e' :: (sign.toList ++ Nat.toDigits 10 exponent.natAbs)

def magnitude (format : FloatFormat) (mantissa : Nat) (exponent : Int) : List Char :=
  if mantissa = 0 then ['0', '.', '0']
  else
    let decimal := shortest format.tie mantissa exponent
    if format.plainFrom ≤ decimal.exponent ∧ decimal.exponent ≤ format.plainTo then
      plain decimal.digits decimal.exponent
    else format.scientific decimal.digits decimal.exponent

def write (format : FloatFormat) (x : Float) : String :=
  match Binary64.ofFloat x with
  | .notANumber => format.notANumber
  | .infinite negative => if negative then format.negativeInfinity else format.infinity
  | .finite value =>
    let digits := format.magnitude value.mantissa value.exponent
    String.ofList (if value.negative then '-' :: digits else digits)

/-- Numbers as programs print them: plain from `0.0001` up to `1e16`, and a half goes up. -/
def display : FloatFormat where
  tie := .upper
  plainFrom := -4
  plainTo := 15
  exponentPlus := ""
  notANumber := "NaN"
  infinity := "inf"
  negativeInfinity := "-inf"

/-- Numbers inside a JSON text: plain from `0.00001` up to `1e+16`, a half goes to the even digit,
and `null` stands for what is no finite number. -/
def json : FloatFormat where
  tie := .even
  plainFrom := -5
  plainTo := 15
  exponentPlus := "+"
  notANumber := "null"
  infinity := "null"
  negativeInfinity := "null"

example : display.write 0.1 = "0.1" := by decide +kernel
example : display.write 1e16 = "1e16" := by decide +kernel
example : display.write 1234.5 = "1234.5" := by decide +kernel
example : display.write (-0.0) = "-0.0" := by decide +kernel
example : display.write 5e-324 = "5e-324" := by decide +kernel
example : display.write 1e15 = "1000000000000000.0" := by decide +kernel
example : json.write 0.00001 = "0.00001" := by decide +kernel
example : json.write 1e16 = "1e+16" := by decide +kernel

end FloatFormat

/-- Decimal text of a 64-bit integer. -/
def intText (n : Int64) : String :=
  String.ofList (if n.toInt < 0 then '-' :: Nat.toDigits 10 n.toInt.natAbs
    else Nat.toDigits 10 n.toInt.natAbs)

end LoxLang.Number
