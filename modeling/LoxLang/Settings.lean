import LoxLang.Json.Reading

/-!
# Settings

Which warnings a user wants and how many diagnostics are recorded, with their written form: a JSON
object of the settings that differ from the usual ones, or an array of them in order.
-/

namespace LoxLang

structure Settings where
  /-- Warn of local names that nothing reads or writes. -/
  warnUnused : Bool := true
  /-- Warn of declarations that hide one of an outer scope. -/
  warnShadow : Bool := true
  /-- The number of diagnostics that are recorded. -/
  maxErrors : Nat := 100
  deriving DecidableEq, Repr

namespace Settings

/-- No warnings. -/
def quiet : Settings :=
  { warnUnused := false, warnShadow := false }

/-- The number of a count that fits 64 bits. -/
def count? : Json → Option Nat
  | .number text => do
    let n ← Number.digits? text
    if n < UInt64.size then some n else none
  | _ => none

def switch? : Json → Option Bool
  | .bool value => some value
  | _ => none

def ofElements? (elements : List Json) : Option Settings := do
  let usual : Settings := {}
  match elements with
  | [] => return usual
  | [a] => return { usual with warnUnused := ← switch? a }
  | [a, b] => return { usual with warnUnused := ← switch? a, warnShadow := ← switch? b }
  | [a, b, c] => return ⟨← switch? a, ← switch? b, ← count? c⟩
  | _ => none

/-- The value of the only member with this key. A key may be absent but not repeated. -/
def member? (members : List (String × Json)) (key : String) : Option (Option Json) :=
  match members.filter fun entry => entry.1 == key with
  | [] => some none
  | [(_, value)] => some (some value)
  | _ => none

/-- The setting under a key, or the usual one. -/
def settingAt? {α : Type} (members : List (String × Json)) (key : String)
    (read? : Json → Option α) (usual : α) : Option α := do
  match ← member? members key with
  | none => return usual
  | some value => read? value

def ofMembers? (members : List (Option (List Char) × Json)) : Option Settings := do
  let usual : Settings := {}
  let named ← members.mapM fun (key, value) => key.map fun key => (String.ofList key, value)
  let warnUnused ← settingAt? named "Wunused" switch? usual.warnUnused
  let warnShadow ← settingAt? named "Wshadow" switch? usual.warnShadow
  let maxErrors ← settingAt? named "max_errors" count? usual.maxErrors
  return ⟨warnUnused, warnShadow, maxErrors⟩

/-- Read settings. Keys that name no setting are passed over. -/
def ofText? (text : String) : Option Settings := do
  match ← Json.ofText? text with
  | .array elements => ofElements? elements
  | .object members => ofMembers? members
  | _ => none

end Settings

end LoxLang
