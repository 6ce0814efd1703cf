/-!
# JSON values

A number keeps its text, and an object keeps every member, repeated ones included, in order.
-/

namespace LoxLang

/-- A JSON value. A string that names half of a surrogate pair has no contents. -/
inductive Json
  | null
  | bool (value : Bool)
  | number (text : List Char)
  | string (contents : Option (List Char))
  | array (elements : List Json)
  | object (members : List (Option (List Char) × Json))

namespace Json

def ofString (text : String) : Json :=
  string (some text.toList)

def ofNat (n : Nat) : Json :=
  number (Nat.toDigits 10 n)

def ofMembers (members : List (String × Json)) : Json :=
  object (members.map fun (key, value) => (some key.toList, value))

end Json

end LoxLang
