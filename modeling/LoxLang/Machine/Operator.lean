import LoxLang.Machine.Fault
import LoxLang.Machine.Value
import LoxLang.Number.Binary64

/-!
# Operators

The results of unary and binary operators on values.
-/

namespace LoxLang

inductive UnaryOperator
  | negate
  | not
  | typeOf
  deriving DecidableEq, Repr

def UnaryOperator.ofKind? : TokenKind → Option UnaryOperator
  | .symbol .minus => some negate
  | .symbol .bang | .keyword .not => some not
  | .keyword .typeof => some typeOf
  | _ => none

inductive Arithmetic
  | add
  | subtract
  | multiply
  | divide
  | modulo
  deriving DecidableEq, Repr

inductive Comparison
  | greater
  | greaterEqual
  | less
  | lessEqual
  deriving DecidableEq, Repr

/-- The operators whose two operands are both evaluated first. -/
inductive BinaryOperator
  | equal
  | notEqual
  | arithmetic (operator : Arithmetic)
  | comparison (operator : Comparison)
  deriving DecidableEq, Repr

def BinaryOperator.ofKind? : TokenKind → Option BinaryOperator
  | .symbol .equalEqual => some equal
  | .symbol .bangEqual => some notEqual
  | .symbol .plus => some (arithmetic .add)
  | .symbol .minus => some (arithmetic .subtract)
  | .symbol .star => some (arithmetic .multiply)
  | .symbol .slash => some (arithmetic .divide)
  | .symbol .percentage => some (arithmetic .modulo)
  | .symbol .greater => some (comparison .greater)
  | .symbol .greaterEqual => some (comparison .greaterEqual)
  | .symbol .less => some (comparison .less)
  | .symbol .lessEqual => some (comparison .lessEqual)
  | _ => none

/-- The outcome of an operator; a fault is placed by the caller. -/
abbrev Computed := Except RunFault Value

namespace Value

/-- The sign change of a number. An integer without a negative becomes a float. -/
def negate : Value → Computed
  | int n =>
    match Number.Checked.neg? n with
    | some m => .ok (int m)
    | none => .ok (float (-Number.ofInt64 n))
  | float x => .ok (float (-x))
  | other => .error (.negation other.typeName)

def applyUnary (operator : UnaryOperator) (value : Value) : Computed :=
  match operator with
  | .negate => value.negate
  | .not => .ok (bool !value.isTruthy)
  | .typeOf => .ok (str value.typeName)

/-- Arithmetic on floats; only a divisor of zero is refused. -/
def floatArithmetic (operator : Arithmetic) (x y : Float) : Computed :=
  match operator with
  | .add => .ok (float (x + y))
  | .subtract => .ok (float (x - y))
  | .multiply => .ok (float (x * y))
  | .divide => if y == 0.0 then .error .divisionByZero else .ok (float (x / y))
  | .modulo =>
    if y == 0.0 then .error .moduloByZero else .ok (float (Number.floorRemainder x y))

/-- The integer result of an operator on integers. Division has none. -/
def intResult? (operator : Arithmetic) (m n : Int64) : Option Int64 :=
  match operator with
  | .add => Number.Checked.add? m n
  | .subtract => Number.Checked.sub? m n
  | .multiply => Number.Checked.mul? m n
  | .divide => none
  | .modulo => if n = 0 then none else Number.Checked.mod? m n

/-- Arithmetic on two values of one type. Integers give an integer if there is an exact one, and all
else is computed with floats. -/
def arithmetic (operator : Arithmetic) (lexeme : String) (left right : Value) : Computed :=
  match left, right with
  | int m, int n =>
    match intResult? operator m n with
    | some result => .ok (int result)
    | none => floatArithmetic operator (Number.ofInt64 m) (Number.ofInt64 n)
  | _, _ =>
    match left.toFloat?, right.toFloat? with
    | some x, some y => floatArithmetic operator x y
    | _, _ => .error (.notArithmetic lexeme left.typeName)

/-- The order of two floats; there is none if one of them is no number. -/
def floatOrder? (x y : Float) : Option Ordering :=
  if x < y then some .lt else if x == y then some .eq else if y < x then some .gt else none

def stringOrder (s t : String) : Ordering :=
  if s < t then .lt else if s = t then .eq else .gt

/-- The order of two numbers or two strings. -/
def order (lexeme : String) (left right : Value) : Except RunFault (Option Ordering) :=
  match left, right with
  | int m, int n => .ok (some (compare m.toInt n.toInt))
  | str s, str t => .ok (some (stringOrder s t))
  | _, _ =>
    match left.toFloat?, right.toFloat? with
    | some x, some y => .ok (floatOrder? x y)
    | _, _ => .error (.notOrdered lexeme left.typeName)

/-- Whether a comparison holds of values in this order. -/
def holds (comparison : Comparison) (order : Option Ordering) : Bool :=
  match comparison, order with
  | .greater, some .gt | .greaterEqual, some .gt | .greaterEqual, some .eq
  | .less, some .lt | .lessEqual, some .lt | .lessEqual, some .eq => true
  | _, _ => false

/-- The result of the binary operator that a token spells. -/
def applyBinary (operator : Token) (left right : Value) : Computed :=
  match BinaryOperator.ofKind? operator.kind with
  | some .equal => .ok (bool (left.equals right))
  | some .notEqual => .ok (bool !(left.equals right))
  | found =>
    if left.sameType right then
      match found with
      | some (.arithmetic op) =>
        match op, left, right with
        | .add, str s, str t => .ok (str (s ++ t))
        | _, _, _ => arithmetic op operator.lexeme left right
      | some (.comparison op) =>
        (order operator.lexeme left right).map fun order => bool (holds op order)
      | _ => .error (.binaryOperator operator.lexeme)
    else .error (.mixedOperands operator.lexeme left.typeName right.typeName)

end Value

end LoxLang
