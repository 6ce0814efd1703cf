import LoxLang.Json

/-!
# Writing JSON

Two layouts of a JSON value: on one line without spaces, and over several lines with two spaces per
level.
-/

namespace LoxLang.Json

/-- A hexadecimal digit. -/
def hexDigit (n : Nat) : Char :=
  Nat.digitChar (n % 16)

/-- A character as it stands in a string. Quotes, backslashes and control characters are escaped. -/
def escape (c : Char) : List Char :=
  match c with
  | '"' => ['\\', '"']
  | '\\' => ['\\', '\\']
  | '\n' => ['\\', 'n']
  | '\r' => ['\\', 'r']
  | '\t' => ['\\', 't']
  | '\x08' => ['\\', 'b']
  | '\x0c' => ['\\', 'f']
  | c =>
    if c.toNat < 0x20 then ['\\', 'u', '0', '0', hexDigit (c.toNat / 16), hexDigit c.toNat]
    else [c]

def quoted (contents : List Char) : List Char :=
  '"' :: (contents.flatMap escape ++ ['"'])

/-- A string of unknown contents is written as an empty one. -/
def quoted? (contents : Option (List Char)) : List Char :=
  quoted (contents.getD [])

mutual

def compact : Json → List Char
  | null => "null".toList
  | bool value => (if value then "true" else "false").toList
  | number text => text
  | string contents => quoted? contents
  | array elements => '[' :: (compactElements elements ++ [']'])
  | object members => '{' :: (compactMembers members ++ ['}'])

def compactElements : List Json → List Char
  | [] => []
  | [element] => compact element
  | element :: rest => compact element ++ ',' :: compactElements rest

def compactMembers : List (Option (List Char) × Json) → List Char
  | [] => []
  | [member] => compactMember member
  | member :: rest => compactMember member ++ ',' :: compactMembers rest

def compactMember : Option (List Char) × Json → List Char
  | (key, value) => quoted? key ++ ':' :: compact value

end

/-- The start of a line at a level. -/
def newLine (level : Nat) : List Char :=
  '\n' :: List.replicate (2 * level) ' '

mutual

/-- The layout over several lines of a value that begins on a line of the given level. -/
def pretty (level : Nat) : Json → List Char
  | null => "null".toList
  | bool value => (if value then "true" else "false").toList
  | number text => text
  | string contents => quoted? contents
  | array [] => ['[', ']']
  | array elements =>
    '[' :: (prettyElements (level + 1) elements ++ newLine level ++ [']'])
  | object [] => ['{', '}']
  | object members =>
    '{' :: (prettyMembers (level + 1) members ++ newLine level ++ ['}'])

def prettyElements (level : Nat) : List Json → List Char
  | [] => []
  | [element] => newLine level ++ pretty level element
  | element :: rest => newLine level ++ pretty level element ++ ',' :: prettyElements level rest

def prettyMembers (level : Nat) : List (Option (List Char) × Json) → List Char
  | [] => []
  | [member] => prettyMember level member
  | member :: rest => prettyMember level member ++ ',' :: prettyMembers level rest

def prettyMember (level : Nat) : Option (List Char) × Json → List Char
  | (key, value) => newLine level ++ quoted? key ++ ':' :: ' ' :: pretty level value

end

end LoxLang.Json
