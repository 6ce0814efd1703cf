import LoxLang.Machine.Evaluate
import Mathlib.Data.Int.Basic

/-!
# Arithmetic on integers

A sum, a difference, a product or a negative of integers is the exact integer, or a float where no
64-bit integer is the result. A remainder is the floored one; it is left to floats just where the
quotient is no 64-bit integer (`IntegerArithmetic`).
-/

namespace LoxLang

namespace Eval

/-- Wherever its operands evaluate to these values, the infix operator has this outcome. -/
def Computes (kind : TokenKind) (a b : Value) (outcome : Computed) : Prop :=
  ∀ ⦃operator : Token⦄ ⦃left right : Expr⦄ ⦃fuel : Nat⦄ ⦃lookup : Lookup⦄ ⦃m m₁ m₂ : Machine⦄,
    operator.kind = kind → evaluate fuel lookup left m = .ok a m₁ →
    evaluate fuel lookup right m₁ = .ok b m₂ →
    evaluate (fuel + 1) lookup (.binary left operator right) m = computed outcome operator m₂

/-- Wherever its operand evaluates to this value, the prefix operator has this outcome. -/
def ComputesUnary (kind : TokenKind) (a : Value) (outcome : Computed) : Prop :=
  ∀ ⦃operator : Token⦄ ⦃right : Expr⦄ ⦃fuel : Nat⦄ ⦃lookup : Lookup⦄ ⦃m m₁ : Machine⦄,
    operator.kind = kind → evaluate fuel lookup right m = .ok a m₁ →
    evaluate (fuel + 1) lookup (.unary operator right) m = computed outcome operator m₁

theorem not_comma_of_ofKind? {kind : TokenKind} {op : BinaryOperator}
    (h : BinaryOperator.ofKind? kind = some op) : kind.isSymbol .comma = false := by
  cases hcomma : kind.isSymbol .comma with
  | false => rfl
  | true =>
    obtain rfl : kind = .symbol .comma := by
      cases kind <;> simp_all [TokenKind.isSymbol]
    cases h

theorem computes {kind : TokenKind} {op : BinaryOperator} {a b : Value} {outcome : Computed}
    (hop : BinaryOperator.ofKind? kind = some op)
    (h : ∀ operator : Token, operator.kind = kind → Value.applyBinary operator a b = outcome) :
    Computes kind a b outcome := by
  intro operator left right fuel lookup m m₁ m₂ hkind hleft hright
  rw [evaluate]
  change EStateM.bind (evaluate fuel lookup left) _ m = _
  rw [EStateM.bind, hleft]
  change EStateM.bind (evaluate fuel lookup right) _ m₁ = _
  rw [EStateM.bind, hright]
  simp only [hkind, not_comma_of_ofKind? hop, h operator hkind, Bool.false_eq_true, if_false]

theorem computesUnary {kind : TokenKind} {op : UnaryOperator} (a : Value)
    (h : UnaryOperator.ofKind? kind = some op) : ComputesUnary kind a (a.applyUnary op) := by
  intro operator right fuel lookup m m₁ hkind hright
  rw [evaluate]
  change EStateM.bind (evaluate fuel lookup right) _ m = _
  rw [EStateM.bind, hright]
  simp only [hkind, h]

theorem evaluate_numeral (n : Numeral) (fuel : Nat) (lookup : Lookup) (m : Machine) :
    evaluate (fuel + 1) lookup (.literal (.number n)) m = .ok (.ofNumeral n) m := by
  rw [evaluate]
  rfl

theorem computed_inj {result result' : Computed} {operator : Token} {m : Machine}
    (h : computed result operator m = computed result' operator m) : result = result' := by
  cases result <;> cases result' <;> cases h <;> rfl

/-- An operator has at most one outcome for two numbers. -/
theorem Computes.unique {kind : TokenKind} {x y : Numeral} {outcome outcome' : Computed}
    (h : Computes kind (.ofNumeral x) (.ofNumeral y) outcome)
    (h' : Computes kind (.ofNumeral x) (.ofNumeral y) outcome') : outcome = outcome' := by
  let m := Machine.start [] { clock := { last := 0.0 } } {}
  let operator : Token := { (default : Token) with kind }
  have hleft := evaluate_numeral x 0 { distances := {} } m
  have hright := evaluate_numeral y 0 { distances := {} } m
  have hkind : operator.kind = kind := rfl
  exact computed_inj ((h hkind hleft hright).symm.trans (h' hkind hleft hright))

theorem computes_integers {kind : TokenKind} {op : Arithmetic}
    (hkind : BinaryOperator.ofKind? kind = some (.arithmetic op)) (x y : Int64) :
    Computes kind (.int x) (.int y) ((Value.intResult? op x y).elim
      (Value.floatArithmetic op (Number.ofInt64 x) (Number.ofInt64 y)) fun n => .ok (.int n)) := by
  refine computes hkind fun operator hoperator => ?_
  have harithmetic : Value.applyBinary operator (.int x) (.int y) =
      Value.arithmetic op operator.lexeme (.int x) (.int y) := by
    rw [Value.applyBinary, hoperator, hkind]
    cases op <;> rfl
  rw [harithmetic, Value.arithmetic]
  cases Value.intResult? op x y <;> rfl

end Eval

/-! ## Exact results -/

/-- A value stands for a mathematical result: it is that integer, or it is this float and there is
no such 64-bit integer. -/
inductive Value.StandsFor (result : Int) (nearby : Float) : Value → Prop
  | int {n : Int64} (h : n.toInt = result) : StandsFor result nearby (.int n)
  | float (h : ¬Number.InRange result) : StandsFor result nearby (.float nearby)

theorem Value.standsFor_fit? (result : Int) (nearby : Float) :
    StandsFor result nearby ((Number.fit? result).elim (.float nearby) .int) := by
  cases hfit : Number.fit? result with
  | none => exact .float (Number.fit?_eq_none_iff.mp hfit)
  | some n => exact .int (Number.fit?_eq_some_iff.mp hfit)

/-- The floored remainder of a division: the quotient is rounded down. It is found from the
truncated remainder within the 64-bit integers. -/
structure FlooredRemainder (x y r : Int64) : Prop where
  value : r.toInt = x.toInt.fmod y.toInt
  quotient : ∃ q, x.toInt = q * y.toInt + r.toInt
  positive : 0 < y.toInt → 0 ≤ r.toInt
  negative : y.toInt < 0 → r.toInt ≤ 0
  bound : r.toInt.natAbs < y.toInt.natAbs
  steps : ∃ first : Int64, first.toInt = x.toInt.tmod y.toInt ∧
    (r.toInt = first.toInt ∨ r.toInt = first.toInt + y.toInt)

/-- The quotient is no 64-bit integer. -/
def QuotientOverflows (x y : Int64) : Prop :=
  x = Int64.minValue ∧ y = -1

/-- Where the two remainders lie. They differ by the divisor at most. -/
theorem Number.fmod_bounds (m : Int) {n : Int} (hn : n ≠ 0) :
    (0 < n → 0 ≤ m.fmod n) ∧ (n < 0 → m.fmod n ≤ 0) ∧ (m.fmod n).natAbs < n.natAbs ∧
      (m.tmod n).natAbs < n.natAbs ∧ (m.fmod n = m.tmod n ∨ m.fmod n = m.tmod n + n) := by
  have hnonneg := Int.emod_nonneg m hn
  have hlt := Int.emod_lt m hn
  have hdvd : n ∣ m ↔ m % n = 0 := Int.dvd_iff_emod_eq_zero
  rw [Int.fmod_eq_emod, Int.tmod_eq_emod]
  simp only [hdvd]
  split <;> split <;> omega

/-- A quotient of 64-bit integers is one too, with one exception. -/
theorem Number.inRange_tdiv {m n : Int} (hm : InRange m) (hn : n ≠ 0)
    (h : ¬(m = -9223372036854775808 ∧ n = -1)) : InRange (m.tdiv n) := by
  unfold InRange at hm ⊢
  have habs : (m.tdiv n).natAbs = m.natAbs / n.natAbs := Int.natAbs_tdiv m n
  rcases Nat.lt_or_ge 1 n.natAbs with hlarge | hsmall
  · have hhalf : m.natAbs / n.natAbs ≤ m.natAbs / 2 := Nat.div_le_div_left hlarge Nat.two_pos
    omega
  · obtain rfl | rfl : n = 1 ∨ n = -1 := by omega
    · rwa [Int.tdiv_one]
    · rw [Int.tdiv_neg, Int.tdiv_one]
      omega

/-- The remainder is left out just where the quotient is no 64-bit integer. -/
theorem Number.Checked.exists_mod? {x y : Int64} (hy : y ≠ 0) (h : ¬QuotientOverflows x y) :
    ∃ r, mod? x y = some r ∧ FlooredRemainder x y r := by
  have hx := toInt_inRange x
  have hy' := toInt_inRange y
  have hne : y.toInt ≠ 0 := fun hzero => hy (Int64.toInt_inj.mp hzero)
  have hquotient : InRange (x.toInt.tdiv y.toInt) :=
    inRange_tdiv hx hne fun hboth => h ⟨Int64.toInt_inj.mp hboth.1, Int64.toInt_inj.mp hboth.2⟩
  obtain ⟨hpositive, hnegative, hbound, hfirst, hsteps⟩ := fmod_bounds x.toInt hne
  have hrange : InRange (x.toInt.fmod y.toInt) := by
    unfold InRange at hx hy' ⊢
    omega
  have hrange' : InRange (x.toInt.tmod y.toInt) := by
    unfold InRange at hx hy' ⊢
    omega
  have hvalue := toInt_ofInt_of_inRange hrange
  refine ⟨Int64.ofInt (x.toInt.fmod y.toInt), ?_, ⟨hvalue, ⟨x.toInt.fdiv y.toInt, ?_⟩, ?_, ?_, ?_,
    Int64.ofInt (x.toInt.tmod y.toInt), toInt_ofInt_of_inRange hrange', ?_⟩⟩
  · rw [mod?, if_pos hquotient, fit?, if_pos hrange]
  · rw [hvalue, Int.fdiv_mul_add_fmod]
  all_goals rw [hvalue]
  · exact hpositive
  · exact hnegative
  · exact hbound
  · rw [toInt_ofInt_of_inRange hrange']
    exact hsteps

/-- What arithmetic on two integers gives. -/
structure IntegerArithmetic (x y : Int64) : Prop where
  /-- Each of them is the value of an expression. -/
  operands : ∀ n ∈ [x, y], ∀ fuel lookup m,
    Eval.evaluate (fuel + 1) lookup (.literal (.number (.int n))) m = .ok (.int n) m
  add : ∃ sum : Value, Eval.Computes (.symbol .plus) (.int x) (.int y) (.ok sum) ∧
    sum.StandsFor (x.toInt + y.toInt) (Number.ofInt64 x + Number.ofInt64 y)
  subtract : ∃ difference : Value,
    Eval.Computes (.symbol .minus) (.int x) (.int y) (.ok difference) ∧
      difference.StandsFor (x.toInt - y.toInt) (Number.ofInt64 x - Number.ofInt64 y)
  multiply : ∃ product : Value, Eval.Computes (.symbol .star) (.int x) (.int y) (.ok product) ∧
    product.StandsFor (x.toInt * y.toInt) (Number.ofInt64 x * Number.ofInt64 y)
  negate : ∃ negative : Value, Eval.ComputesUnary (.symbol .minus) (.int x) (.ok negative) ∧
    negative.StandsFor (-x.toInt) (-Number.ofInt64 x)
  modulo : y ≠ 0 → ¬QuotientOverflows x y →
    ∃ r : Int64, Eval.Computes (.symbol .percentage) (.int x) (.int y) (.ok (.int r)) ∧
      FlooredRemainder x y r
  overflows : QuotientOverflows x y →
    Eval.Computes (.symbol .percentage) (.int x) (.int y) (.ok (.float (-0.0)))
  moduloByZero : y = 0 →
    Eval.Computes (.symbol .percentage) (.int x) (.int y) (.error .moduloByZero) ∧
      RunFault.moduloByZero.kind = .runtime

theorem Eval.exists_standsFor {kind : TokenKind} {op : Arithmetic} {x y : Int64} {result : Int}
    {nearby : Float} (hkind : BinaryOperator.ofKind? kind = some (.arithmetic op))
    (hresult : Value.intResult? op x y = Number.fit? result)
    (hfloat : Value.floatArithmetic op (Number.ofInt64 x) (Number.ofInt64 y) =
      .ok (.float nearby)) :
    ∃ value : Value, Computes kind (.int x) (.int y) (.ok value) ∧
      value.StandsFor result nearby := by
  refine ⟨_, ?_, Value.standsFor_fit? result nearby⟩
  have hcomputes := computes_integers hkind x y
  rw [hresult, hfloat] at hcomputes
  cases hfit : Number.fit? result <;> rwa [hfit] at hcomputes

theorem integerArithmetic (x y : Int64) : IntegerArithmetic x y where
  operands n _ := Eval.evaluate_numeral (.int n)
  add := Eval.exists_standsFor rfl rfl rfl
  subtract := Eval.exists_standsFor rfl rfl rfl
  multiply := Eval.exists_standsFor rfl rfl rfl
  negate := by
    refine ⟨_, ?_, Value.standsFor_fit? (-x.toInt) (-Number.ofInt64 x)⟩
    have hcomputes : Eval.ComputesUnary (.symbol .minus) (.int x) _ := Eval.computesUnary _ rfl
    rw [Value.applyUnary, Value.negate, Number.Checked.neg?] at hcomputes
    cases hfit : Number.fit? (-x.toInt) <;> rwa [hfit] at hcomputes
  modulo hy hfits := by
    obtain ⟨r, hmod, hfloored⟩ := Number.Checked.exists_mod? hy hfits
    refine ⟨r, ?_, hfloored⟩
    have hcomputes : Eval.Computes (.symbol .percentage) _ _ _ := Eval.computes_integers rfl x y
    rwa [Value.intResult?, if_neg hy, hmod] at hcomputes
  overflows := by
    rintro ⟨rfl, rfl⟩
    have hcomputes : Eval.Computes (.symbol .percentage) _ _ _ :=
      Eval.computes_integers rfl Int64.minValue (-1)
    have hnone : Value.intResult? .modulo Int64.minValue (-1) = none := by decide +kernel
    have hzero : Value.floatArithmetic .modulo (Number.ofInt64 Int64.minValue)
        (Number.ofInt64 (-1)) = .ok (.float (-0.0)) := by decide +kernel
    rwa [hnone, hzero] at hcomputes
  moduloByZero := by
    rintro rfl
    refine ⟨?_, rfl⟩
    have hcomputes : Eval.Computes (.symbol .percentage) _ _ _ := Eval.computes_integers rfl x 0
    have hzero : (Number.ofInt64 0 == 0.0) = true := by decide +kernel
    rwa [Value.intResult?, if_pos rfl, Value.floatArithmetic, if_pos hzero] at hcomputes

end LoxLang
