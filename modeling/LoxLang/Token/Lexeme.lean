import LoxLang.Token
import LoxLang.Number.Reading

/-!
# Lexemes

One step over the text of a source: the piece at its front and what that piece is. A piece is never
empty, and it and the rest make up the text again.
-/

namespace LoxLang

/-- The bases of integer literals. -/
inductive Base
  | decimal
  | hexadecimal
  | binary
  | octal
  deriving DecidableEq, Repr

namespace Base

def radix : Base → Nat
  | decimal => 10
  | hexadecimal => 16
  | binary => 2
  | octal => 8

def name : Base → String
  | decimal => "decimal"
  | hexadecimal => "hexadecimal"
  | binary => "binary"
  | octal => "octal"

/-- The base that a letter after a leading zero announces. -/
def ofMarker? : Char → Option Base
  | 'x' | 'X' => some hexadecimal
  | 'b' | 'B' => some binary
  | 'o' | 'O' => some octal
  | _ => none

end Base

/-- What is wrong with a malformed piece of text. -/
inductive LexicalFault
  | strayCharacter (c : Char)
  | unterminatedString
  | unterminatedComment
  /-- A letter, digit, underscore or point directly after a number. -/
  | gluedCharacter (base : Base) (c : Char)
  /-- A base marker without a digit. -/
  | noDigits (base : Base) (marker : String)
  | noExponentDigits
  deriving DecidableEq, Repr

def LexicalFault.message : LexicalFault → String
  | strayCharacter c => "Invalid character '" ++ c.toString ++ "'"
  | unterminatedString => "Unterminated string literal"
  | unterminatedComment => "Unterminated block comment"
  | gluedCharacter base c =>
    "Invalid character in " ++ base.name ++ " literal '" ++ c.toString ++ "'"
  | noDigits base marker => "Incomplete " ++ base.name ++ " literal " ++ marker
  | noExponentDigits => "Invalid numeric literal, no number following 'e'"

/-- What a piece of text is. -/
inductive LexemeKind
  /-- White space or a comment. -/
  | skipped
  | token (kind : TokenKind)
  | malformed (fault : LexicalFault)

/-- The piece at the front of a text, and the rest of the text. -/
structure Lexeme where
  kind : LexemeKind
  taken : List Char
  rest : List Char

namespace Lexeme

def isWordCharacter (c : Char) : Bool :=
  c.isAlphanum || c = '_'

def isWordStart (c : Char) : Bool :=
  c.isAlpha || c = '_'

/-- The text of a block comment after its opener, up to and with its end. -/
def blockComment? : List Char → Option (List Char × List Char)
  | '*' :: '/' :: rest => some (['*', '/'], rest)
  | [] => none
  | c :: cs => (blockComment? cs).map fun (inside, rest) => (c :: inside, rest)

/-- The contents of a string after its opening quote, and the text after its closing one. A
backslash keeps the quote behind it from closing. -/
def stringContents? : List Char → Option (List Char × List Char)
  | [] => none
  | '"' :: rest => some ([], rest)
  | '\\' :: '"' :: cs => (stringContents? cs).map fun (inside, rest) => ('\\' :: '"' :: inside, rest)
  | c :: cs => (stringContents? cs).map fun (inside, rest) => (c :: inside, rest)

/-! ## Numbers -/

/-- A number is complete only if nothing that could belong to it follows. -/
def finishNumber (base : Base) (value : Numeral) (taken rest : List Char) : Lexeme :=
  match rest with
  | c :: _ =>
    if isWordCharacter c || c = '.' then ⟨.malformed (.gluedCharacter base c), taken, rest⟩
    else ⟨.token (.number value), taken, rest⟩
  | [] => ⟨.token (.number value), taken, rest⟩

/-- The greatest integer a literal may have before it becomes a binary64 number. -/
def maxInteger : Nat := 9223372036854775807

/-- A literal with a base marker. Beyond the 64-bit integers its digits are folded in binary64
arithmetic. -/
def radixValue (base : Base) (digits : List Char) : Numeral :=
  let value := Number.digitsValue base.radix digits
  if value ≤ maxInteger then .int (Int64.ofNat value)
  else .float (digits.foldl
    (fun sum c => sum * Float.ofNat base.radix + Float.ofNat (Number.digitValue c)) 0.0)

def radixNumber (base : Base) (marker : List Char) (cs : List Char) : Lexeme :=
  let digits := cs.takeWhile (Number.isDigitIn base.radix)
  let rest := cs.dropWhile (Number.isDigitIn base.radix)
  let number := finishNumber base (radixValue base digits) (marker ++ digits) rest
  match number.kind with
  | .token _ =>
    if digits.isEmpty then
      { number with kind := .malformed (.noDigits base (String.ofList marker)) }
    else number
  | _ => number

/-- Digits without a point or exponent are an integer where that fits. -/
def wholeValue (digits : List Char) : Numeral :=
  let value := Number.digitsValue 10 digits
  if value ≤ maxInteger then .int (Int64.ofNat value)
  else .float (Number.nearest value 0)

/-- A point and the digits behind it; a point without a digit is left alone. -/
def fractionPart : List Char → List Char × List Char
  | '.' :: d :: cs =>
    if d.isDigit then (d :: cs.takeWhile Char.isDigit, cs.dropWhile Char.isDigit)
    else ([], '.' :: d :: cs)
  | cs => ([], cs)

/-- The part of a text that a point and these digits take up. -/
def pointed (fraction : List Char) : List Char :=
  if fraction.isEmpty then [] else '.' :: fraction

/-- The letter `e` at the front and a sign behind it. -/
def exponentMarker : List Char → Option (List Char × List Char)
  | c :: cs =>
    if c = 'e' ∨ c = 'E' then
      match cs with
      | '+' :: rest => some ([c, '+'], rest)
      | '-' :: rest => some ([c, '-'], rest)
      | rest => some ([c], rest)
    else none
  | [] => none

def decimalNumber (cs : List Char) : Lexeme :=
  let whole := cs.takeWhile Char.isDigit
  let (fraction, afterFraction) := fractionPart (cs.dropWhile Char.isDigit)
  let mantissa := whole ++ pointed fraction
  match exponentMarker afterFraction with
  | none =>
    let value := if fraction.isEmpty then wholeValue whole
      else .float (Number.DecimalParts.toFloat ⟨whole, fraction, 0⟩)
    finishNumber .decimal value mantissa afterFraction
  | some (marker, afterMarker) =>
    let digits := afterMarker.takeWhile Char.isDigit
    let rest := afterMarker.dropWhile Char.isDigit
    if digits.isEmpty then ⟨.malformed .noExponentDigits, mantissa ++ marker, afterMarker⟩
    else
      let size : Int := Number.digitsValue 10 digits
      let exponent := if marker.contains '-' then -size else size
      finishNumber .decimal (.float (Number.DecimalParts.toFloat ⟨whole, fraction, exponent⟩))
        (mantissa ++ marker ++ digits) rest

/-- The number at the front of a text that starts with the digit `first`. -/
def number (first : Char) (cs : List Char) : Lexeme :=
  match first, cs with
  | '0', marker :: rest =>
    match Base.ofMarker? marker with
    | some base => radixNumber base ['0', marker] rest
    | none => decimalNumber (first :: cs)
  | _, _ => decimalNumber (first :: cs)

/-! ## All pieces -/

def word (cs : List Char) : Lexeme :=
  let letters := cs.takeWhile isWordCharacter
  let kind := match Keyword.ofText? (String.ofList letters) with
    | some keyword => .keyword keyword
    | none => .identifier
  ⟨.token kind, letters, cs.dropWhile isWordCharacter⟩

def string (cs : List Char) : Lexeme :=
  match stringContents? cs with
  | some (inside, rest) =>
    ⟨.token (.string (String.ofList inside)), '"' :: (inside ++ ['"']), rest⟩
  | none => ⟨.malformed .unterminatedString, '"' :: cs, []⟩

def lineComment (cs : List Char) : Lexeme :=
  ⟨.skipped, '/' :: '/' :: cs.takeWhile (· ≠ '\n'), cs.dropWhile (· ≠ '\n')⟩

def blockComment (cs : List Char) : Lexeme :=
  match blockComment? cs with
  | some (inside, rest) => ⟨.skipped, '/' :: '*' :: inside, rest⟩
  | none => ⟨.malformed .unterminatedComment, '/' :: '*' :: cs, []⟩

/-- The longest symbol at the front of a text. -/
def symbol (c : Char) (cs : List Char) : Lexeme :=
  match cs.head?.bind (Symbol.ofPair? c) with
  | some s => ⟨.token (.symbol s), c :: cs.take 1, cs.drop 1⟩
  | none =>
    match Symbol.ofChar? c with
    | some s => ⟨.token (.symbol s), [c], cs⟩
    | none => ⟨.malformed (.strayCharacter c), [c], cs⟩

/-- The piece at the front of the text `c :: cs`. -/
def read (c : Char) (cs : List Char) : Lexeme :=
  if c = ' ' ∨ c = '\r' ∨ c = '\t' ∨ c = '\n' then ⟨.skipped, [c], cs⟩
  else if c = '"' then string cs
  else if c.isDigit then number c cs
  else if isWordStart c then word (c :: cs)
  else match c, cs with
    | '/', '/' :: rest => lineComment rest
    | '/', '*' :: rest => blockComment rest
    | _, _ => symbol c cs

end Lexeme

end LoxLang
