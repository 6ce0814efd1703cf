import LoxLang.Number.Integer
import LoxLang.Text.Blank

/-!
# Reading numbers

The decimal forms of integers and of binary64 numbers, and the value of a run of digits in any base.
-/

namespace LoxLang.Number

/-- The value of a digit, letters standing for ten and more. -/
def digitValue (c : Char) : Nat :=
  if c.isDigit then c.toNat - '0'.toNat
  else if 'a' ≤ c ∧ c ≤ 'z' then c.toNat - 'a'.toNat + 10
  else if 'A' ≤ c ∧ c ≤ 'Z' then c.toNat - 'A'.toNat + 10
  else 36

def isDigitIn (base : Nat) (c : Char) : Bool :=
  decide (digitValue c < base)

/-- The value of a run of digits, the most significant first. -/
def digitsValue (base : Nat) (digits : List Char) : Nat :=
  digits.foldl (fun value c => value * base + digitValue c) 0

/-- The binary64 number nearest to `digits * 10 ^ exponent`. -/
def nearest (digits : Nat) (exponent : Int) : Float :=
  Float.ofScientific digits (decide (exponent < 0)) exponent.natAbs

/-- The parts of a decimal number: `whole`, then `fraction` behind a point, times ten to the
`exponent`. -/
structure DecimalParts where
  whole : List Char
  fraction : List Char
  exponent : Int

def DecimalParts.toFloat (parts : DecimalParts) : Float :=
  nearest (digitsValue 10 (parts.whole ++ parts.fraction))
    (parts.exponent - parts.fraction.length)

/-- Take an optional sign off the front: whether it is a minus, and the rest. -/
def splitSign : List Char → Bool × List Char
  | '-' :: rest => (true, rest)
  | '+' :: rest => (false, rest)
  | cs => (false, cs)

/-- One digit or more, and nothing else. -/
def digits? (cs : List Char) : Option Nat :=
  if cs.isEmpty || !cs.all Char.isDigit then none else some (digitsValue 10 cs)

/-- The digits and the sign of an exponent. -/
def exponent? (cs : List Char) : Option Int :=
  let (negative, digits) := splitSign cs
  (digits? digits).map fun n => if negative then -(n : Int) else n

/-- An unsigned decimal number: digits around an optional point, at least one of them, and an
optional exponent. -/
def decimalParts? (cs : List Char) : Option DecimalParts :=
  let whole := cs.takeWhile Char.isDigit
  let afterWhole := cs.dropWhile Char.isDigit
  let (fraction, rest) := match afterWhole with
    | '.' :: after => (after.takeWhile Char.isDigit, after.dropWhile Char.isDigit)
    | _ => ([], afterWhole)
  if whole.isEmpty && fraction.isEmpty then none
  else match rest with
    | [] => some ⟨whole, fraction, 0⟩
    | c :: after =>
      if c = 'e' ∨ c = 'E' then (exponent? after).map fun exponent => ⟨whole, fraction, exponent⟩
      else none

/-- A binary64 number: an optional sign, then a decimal number, `inf`, `infinity` or `nan` in any
letter case. -/
def float? (cs : List Char) : Option Float :=
  let (negative, body) := splitSign cs
  let magnitude :=
    match String.ofList (body.map Char.toLower) with
    | "inf" | "infinity" => some (1.0 / 0.0)
    | "nan" => some (0.0 / 0.0)
    | _ => (decimalParts? body).map DecimalParts.toFloat
  if negative then magnitude.map Float.neg else magnitude

/-- A 64-bit integer: an optional sign and digits, in range. -/
def int64? (cs : List Char) : Option Int64 :=
  let (negative, digits) := splitSign cs
  (digits? digits).bind fun n => fit? (if negative then -(n : Int) else n)

end LoxLang.Number
