import LoxLang.Number.Integer
import LoxLang.Token

/-!
# Values

The values of a running program. Functions, classes and instances live in a store and are compared
by their place in it.
-/

namespace LoxLang

structure FrameId where
  index : Nat
  deriving DecidableEq, Repr

structure NativeId where
  index : Nat
  deriving DecidableEq, Repr

structure FunctionId where
  index : Nat
  deriving DecidableEq, Repr

structure ArrowId where
  index : Nat
  deriving DecidableEq, Repr

structure ClassId where
  index : Nat
  deriving DecidableEq, Repr

structure InstanceId where
  index : Nat
  deriving DecidableEq, Repr

inductive Callable
  | native (id : NativeId)
  | function (id : FunctionId)
  | arrow (id : ArrowId)
  | class (id : ClassId)
  deriving DecidableEq, Repr

inductive Value
  | nil
  | bool (b : Bool)
  | int (n : Int64)
  | float (x : Float)
  | str (s : String)
  | callable (c : Callable)
  | instance (id : InstanceId)
  deriving DecidableEq

namespace Value

instance : Inhabited Value := ⟨nil⟩

/-- Everything but `nil` and `false` counts as true. -/
def isTruthy : Value → Bool
  | nil => false
  | bool b => b
  | _ => true

def isNumeric : Value → Bool
  | int _ | float _ => true
  | _ => false

/-- A number as the nearest binary64 number. -/
def toFloat? : Value → Option Float
  | int n => some (Number.ofInt64 n)
  | float x => some x
  | _ => none

/-- The answer of `typeof`. -/
def typeName : Value → String
  | nil => "nil"
  | bool _ => "bool"
  | int _ | float _ => "number"
  | str _ => "str"
  | callable _ => "function"
  | .instance _ => "instance"

/-- Whether two values are of one type; integers and floats are. -/
def sameType : Value → Value → Bool
  | nil, nil | bool _, bool _ | str _, str _ | callable _, callable _
  | .instance _, .instance _ => true
  | l, r => l.isNumeric && r.isNumeric

/-- Equality in the language. A float equals an integer if it is exactly that integer; objects are
equal only to themselves. -/
def equals : Value → Value → Bool
  | nil, nil => true
  | bool a, bool b => a == b
  | int m, int n => m == n
  | float x, float y => x == y
  | int n, float x | float x, int n => Number.whole? x == some n.toInt
  | str s, str t => s == t
  | callable c, callable d => decide (c = d)
  | .instance a, .instance b => decide (a = b)
  | _, _ => false

def ofNumeral : Numeral → Value
  | .int n => int n
  | .float x => float x

end Value

end LoxLang
