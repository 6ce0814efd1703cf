import LoxLang.Machine.Evaluate

/-!
# The rounds of a `for`

A `for` may lack its condition, its update, or both. What it does before a round (`Eval.goesOn`) and
behind the body of one (`Eval.behindRound`) is said here once for all these forms, so that a law about
its rounds need not tell them apart (`Eval.forLoop_eq`).
-/

namespace LoxLang

/-- Behind a body that ends like this, a loop goes on. -/
def Signal.goesRound : Signal → Bool
  | completed | continued => true
  | broke | returned _ => false

namespace Eval

/-- Whether a `for` goes on. -/
def goesOn (fuel : Nat) (lookup : Lookup) : Option Expr → Eval Bool
  | some condition => Value.isTruthy <$> evaluate fuel lookup condition
  | none => pure true

/-- What a `for` does between two rounds. -/
def step (fuel : Nat) (lookup : Lookup) : Option Expr → Eval Unit
  | some update => discard (evaluate fuel lookup update)
  | none => pure ()

/-- How a `for` goes on behind the body of a round. -/
def behindRound (fuel : Nat) (lookup : Lookup) (condition update : Option Expr) (body : Stmt) :
    Signal → Eval Signal
  | .broke => return .completed
  | .returned value => return .returned value
  | .completed | .continued => do
    step fuel lookup update
    forLoop fuel lookup condition update body

variable {fuel : Nat} {lookup : Lookup} {condition update : Option Expr} {body : Stmt}

theorem behindRound_of_goesRound {signal : Signal} (h : signal.goesRound = true) :
    behindRound fuel lookup condition update body signal =
      step fuel lookup update >>= fun _ => forLoop fuel lookup condition update body := by
  cases signal with
  | completed | continued => rfl
  | broke | returned => cases h

theorem forLoop_eq : forLoop (fuel + 1) lookup condition update body = (do
    if ← goesOn fuel lookup condition then
      execute fuel lookup body >>= behindRound fuel lookup condition update body
    else return .completed) := by
  cases condition <;> cases update
  all_goals
    rw [forLoop]
    refine congrArg _ (funext fun goes => ?_)
    cases goes with
    | false => rfl
    | true =>
      refine congrArg (execute fuel lookup body >>= ·) (funext fun signal => ?_)
      cases signal <;> rfl

end Eval

end LoxLang
