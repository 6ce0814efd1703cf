import LoxLang.Json
import LoxLang.Number.Reading

/-!
# Reading JSON

The values that JSON texts stand for.
-/

namespace LoxLang.Json

def skipSpace (cs : List Char) : List Char :=
  cs.dropWhile fun c => c = ' ' || c = '\n' || c = '\t' || c = '\r'

/-- The given word at the front of a text. -/
def word? (word : String) (cs : List Char) : Option (List Char) :=
  if word.toList.isPrefixOf cs then some (cs.drop word.length) else none

/-! ## Numbers -/

/-- A run of digits that is not empty. -/
def digitRun? (cs : List Char) : Option (List Char × List Char) :=
  let digits := cs.takeWhile Char.isDigit
  if digits.isEmpty then none else some (digits, cs.dropWhile Char.isDigit)

/-- Digits without a superfluous zero in front. -/
def wholePart? (cs : List Char) : Option (List Char × List Char) :=
  (digitRun? cs).bind fun (digits, rest) =>
    if digits.length > 1 && digits.head? == some '0' then none else some (digits, rest)

def fractionPart? : List Char → Option (List Char × List Char)
  | '.' :: cs => (digitRun? cs).map fun (digits, rest) => ('.' :: digits, rest)
  | cs => some ([], cs)

def exponentPart? : List Char → Option (List Char × List Char)
  | c :: cs =>
    if c = 'e' ∨ c = 'E' then
      let sign := (cs.take 1).filter fun s => s = '+' || s = '-'
      (digitRun? (cs.drop sign.length)).map fun (digits, rest) => (c :: (sign ++ digits), rest)
    else some ([], c :: cs)
  | [] => some ([], [])

def number? (cs : List Char) : Option (Json × List Char) := do
  let sign := (cs.take 1).filter (· = '-')
  let (whole, afterWhole) ← wholePart? (cs.drop sign.length)
  let (fraction, afterFraction) ← fractionPart? afterWhole
  let (exponent, rest) ← exponentPart? afterFraction
  return (number (sign ++ whole ++ fraction ++ exponent), rest)

/-! ## Strings -/

/-- The unit that four hexadecimal digits spell. -/
def hexUnit? : List Char → Option (Nat × List Char)
  | a :: b :: c :: d :: rest =>
    if [a, b, c, d].all (Number.isDigitIn 16) then
      some (Number.digitsValue 16 [a, b, c, d], rest)
    else none
  | _ => none

def isHighSurrogate (unit : Nat) : Bool :=
  decide (0xD800 ≤ unit ∧ unit < 0xDC00)

def isLowSurrogate (unit : Nat) : Bool :=
  decide (0xDC00 ≤ unit ∧ unit < 0xE000)

/-- The character that a short escape stands for. -/
def escaped? : Char → Option Char
  | '"' => some '"'
  | '\\' => some '\\'
  | '/' => some '/'
  | 'b' => some '\x08'
  | 'f' => some '\x0c'
  | 'n' => some '\n'
  | 'r' => some '\r'
  | 't' => some '\t'
  | _ => none

/-- One element of a string: a character or a half of a surrogate pair. -/
inductive Piece
  | character (c : Char)
  | half (unit : Nat)

/-- The elements of a string up to its closing quote, and the text behind it. -/
def pieces? : Nat → List Char → Option (List Piece × List Char)
  | 0, _ => none
  | _ + 1, [] => none
  | _ + 1, '"' :: rest => some ([], rest)
  | fuel + 1, '\\' :: 'u' :: cs => do
    let (unit, rest) ← hexUnit? cs
    let (pieces, after) ← pieces? fuel rest
    let piece := if isHighSurrogate unit || isLowSurrogate unit then Piece.half unit
      else .character (Char.ofNat unit)
    return (piece :: pieces, after)
  | fuel + 1, '\\' :: c :: cs => do
    let character ← escaped? c
    let (pieces, after) ← pieces? fuel cs
    return (.character character :: pieces, after)
  | fuel + 1, c :: cs => do
    if c.toNat < 0x20 then none
    let (pieces, after) ← pieces? fuel cs
    return (.character c :: pieces, after)

/-- Put surrogate pairs together. -/
def contents? : List Piece → Option (List Char)
  | [] => some []
  | .character c :: rest => (contents? rest).map (c :: ·)
  | .half high :: .half low :: rest =>
    if isHighSurrogate high && isLowSurrogate low then
      (contents? rest).map
        (Char.ofNat (0x10000 + (high - 0xD800) * 0x400 + (low - 0xDC00)) :: ·)
    else none
  | .half _ :: _ => none

/-- The contents of a string whose opening quote has been read. -/
def stringBody? (cs : List Char) : Option (Option (List Char) × List Char) :=
  (pieces? (cs.length + 1) cs).map fun (pieces, rest) => (contents? pieces, rest)

/-! ## Values -/

mutual

/-- The value at the front of a text. -/
def value? : Nat → List Char → Option (Json × List Char)
  | 0, _ => none
  | fuel + 1, cs =>
    match skipSpace cs with
    | '[' :: rest =>
      match skipSpace rest with
      | ']' :: after => some (array [], after)
      | _ => (elements? fuel rest).map fun (elements, after) => (array elements, after)
    | '{' :: rest =>
      match skipSpace rest with
      | '}' :: after => some (object [], after)
      | _ => (members? fuel rest).map fun (members, after) => (object members, after)
    | '"' :: rest => (stringBody? rest).map fun (contents, after) => (string contents, after)
    | 'n' :: rest => (word? "ull" rest).map fun after => (null, after)
    | 't' :: rest => (word? "rue" rest).map fun after => (bool true, after)
    | 'f' :: rest => (word? "alse" rest).map fun after => (bool false, after)
    | rest => number? rest

/-- One element or more, up to and with the closing bracket. -/
def elements? : Nat → List Char → Option (List Json × List Char)
  | 0, _ => none
  | fuel + 1, cs => do
    let (first, rest) ← value? fuel cs
    match skipSpace rest with
    | ',' :: more =>
      let (others, after) ← elements? fuel more
      return (first :: others, after)
    | ']' :: after => return ([first], after)
    | _ => none

/-- One member or more, up to and with the closing brace. -/
def members? : Nat → List Char → Option (List (Option (List Char) × Json) × List Char)
  | 0, _ => none
  | fuel + 1, cs => do
    match skipSpace cs with
    | '"' :: afterQuote =>
      let (key, afterKey) ← stringBody? afterQuote
      match skipSpace afterKey with
      | ':' :: afterColon =>
        let (value, rest) ← value? fuel afterColon
        match skipSpace rest with
        | ',' :: more =>
          let (others, after) ← members? fuel more
          return ((key, value) :: others, after)
        | '}' :: after => return ([(key, value)], after)
        | _ => none
      | _ => none
    | _ => none

end

/-- A text that is one JSON value and white space around it. -/
def ofText? (text : String) : Option Json :=
  match value? (2 * text.length + 2) text.toList with
  | some (value, rest) => if (skipSpace rest).isEmpty then some value else none
  | none => none

end LoxLang.Json
