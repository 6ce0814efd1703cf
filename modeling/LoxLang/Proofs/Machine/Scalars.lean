import LoxLang.Machine.Evaluate

/-!
# Scalars

A scalar is a value that refers to nothing in a store. Literals are scalars, and so is whatever an
operator or a built-in function gives. Where an operator gives nothing, the fault is its own
(`RunFault.isOfOperator`).
-/

namespace LoxLang

namespace Value

def Scalar : Value → Prop
  | .callable _ | .instance _ => False
  | _ => True

variable {value left right result : Value}

theorem scalar_applyUnary {operator : UnaryOperator}
    (h : value.applyUnary operator = .ok result) : result.Scalar := by
  unfold applyUnary negate at h
  split at h
  · split at h
    · split at h <;> cases h <;> trivial
    · cases h
      trivial
    · cases h
  all_goals
    cases h
    trivial

theorem scalar_floatArithmetic {operator : Arithmetic} {x y : Float}
    (h : floatArithmetic operator x y = .ok result) : result.Scalar := by
  unfold floatArithmetic at h
  split at h
  all_goals first
    | (cases h; trivial)
    | (split at h <;> cases h; trivial)

theorem scalar_arithmetic {operator : Arithmetic} {lexeme : String}
    (h : arithmetic operator lexeme left right = .ok result) : result.Scalar := by
  unfold arithmetic at h
  split at h
  · split at h
    · cases h
      trivial
    · exact scalar_floatArithmetic h
  · split at h
    · exact scalar_floatArithmetic h
    · cases h

theorem scalar_applyBinary {operator : Token}
    (h : applyBinary operator left right = .ok result) : result.Scalar := by
  unfold applyBinary at h
  split at h
  · cases h
    trivial
  · cases h
    trivial
  · split at h
    · split at h
      · split at h
        · cases h
          trivial
        · exact scalar_arithmetic h
      · cases horder : order operator.lexeme left right with
        | error cause =>
          rw [horder] at h
          cases h
        | ok found =>
          rw [horder] at h
          cases h
          trivial
      · cases h
    · cases h

end Value

theorem Eval.scalar_literalValue (literal : Literal) : (literalValue literal).Scalar := by
  cases literal with
  | number value => cases value <;> trivial
  | string | bool | nil => trivial

theorem Builtin.scalar_call {builtin : Builtin} {display : Value → String} {host : Host}
    {args : List Value} {value : Value} (h : (builtin.call display host args).1 = .ok value) :
    value.Scalar := by
  cases builtin with
  | clock =>
    cases h
    trivial
  | input =>
    unfold call nextLine at h
    dsimp only at h
    split at h <;> cases h <;> trivial
  | len =>
    unfold call length at h
    dsimp only at h
    split at h <;> cases h
    trivial
  | floor =>
    unfold call floorOf at h
    dsimp only at h
    split at h
    · cases h
      trivial
    · split at h <;> cases h <;> trivial
    · cases h
  | parseInt =>
    unfold call at h
    cases hint : intOf args.head? <;> rw [hint] at h <;> cases h <;> trivial
  | parseFloat =>
    unfold call at h
    cases hfloat : floatOf args.head? <;> rw [hfloat] at h <;> cases h <;> trivial
  | toString =>
    cases h
    trivial

/-! ## Faults of operators -/

/-- An operator that a token does not spell, or operands that it is not for. -/
def RunFault.isOfOperator : RunFault → Bool
  | negation _ | unaryOperator _ | binaryOperator _ | mixedOperands .. | notArithmetic ..
  | notOrdered .. | divisionByZero | moduloByZero => true
  | _ => false

namespace Value

variable {cause : RunFault}

theorem negate_fault {value : Value} (h : value.negate = .error cause) :
    cause.isOfOperator = true := by
  cases value with
  | int n =>
    unfold negate at h
    dsimp only at h
    split at h <;> cases h
  | float => cases h
  | nil | bool | str | callable | «instance» =>
    cases h
    rfl

theorem applyUnary_fault {operator : UnaryOperator} {value : Value}
    (h : value.applyUnary operator = .error cause) : cause.isOfOperator = true := by
  cases operator with
  | negate => exact negate_fault h
  | not | typeOf => cases h

theorem floatArithmetic_fault {operator : Arithmetic} {x y : Float}
    (h : floatArithmetic operator x y = .error cause) : cause.isOfOperator = true := by
  unfold floatArithmetic at h
  cases operator with
  | add | subtract | multiply => cases h
  | divide | modulo =>
    dsimp only at h
    split at h <;> cases h
    rfl

theorem arithmetic_fault {operator : Arithmetic} {lexeme : String} {left right : Value}
    (h : arithmetic operator lexeme left right = .error cause) : cause.isOfOperator = true := by
  unfold arithmetic at h
  split at h
  · split at h
    · cases h
    · exact floatArithmetic_fault h
  · split at h
    · exact floatArithmetic_fault h
    · cases h
      rfl

theorem order_fault {lexeme : String} {left right : Value}
    (h : order lexeme left right = .error cause) : cause.isOfOperator = true := by
  unfold order at h
  split at h
  · cases h
  · cases h
  · split at h <;> cases h
    rfl

theorem applyBinary_fault {operator : Token} {left right : Value}
    (h : applyBinary operator left right = .error cause) : cause.isOfOperator = true := by
  unfold applyBinary at h
  split at h
  · cases h
  · cases h
  · split at h
    · split at h
      · split at h
        · cases h
        · exact arithmetic_fault h
      · cases horder : order operator.lexeme left right with
        | ok found =>
          rw [horder] at h
          cases h
        | error cause =>
          rw [horder] at h
          cases h
          exact order_fault horder
      · cases h
        rfl
    · cases h
      rfl

end Value

end LoxLang
