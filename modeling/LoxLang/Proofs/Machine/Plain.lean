import LoxLang.Proofs.Binding.CallLine
import LoxLang.Proofs.Machine.Scalars

/-!
# The values of plain expressions

An expression of literals and operators alone has a scalar as its value, or none, whatever the
machine, which it leaves alone (`Eval.fixed_of_isPlain`).
-/

namespace LoxLang

namespace Eval

variable {α β : Type} {P : α → Prop} {Q : β → Prop}

/-- A step that ends in one way in every machine, and leaves it alone. -/
inductive Fixed (P : α → Prop) (act : Lookup → Eval α) : Prop
  | ok (a) (value : P a) (ends : ∀ lookup m, act lookup m = .ok a m)
  | error (halt) (ends : ∀ lookup m, act lookup m = .error halt m)

namespace Fixed

theorem pure {a : α} (h : P a) : Fixed P fun _ => (Pure.pure a : Eval α) := .ok a h fun _ _ => rfl

theorem outOfFuel : Fixed P fun _ => (Eval.outOfFuel : Eval α) := .error _ fun _ _ => rfl

theorem fail (cause : RunFault) (token : Token) : Fixed P fun _ => (Eval.fail cause token : Eval α) :=
  .error _ fun _ _ => rfl

theorem computed {result : Computed} (h : ∀ value, result = .ok value → value.Scalar)
    (operator : Token) : Fixed Value.Scalar fun _ => Eval.computed result operator := by
  cases result with
  | ok value => exact .pure (h value rfl)
  | error cause => exact .fail cause operator

theorem bind {act : Lookup → Eval α} {k : Lookup → α → Eval β} (h : Fixed P act)
    (hk : ∀ a, P a → Fixed Q fun lookup => k lookup a) :
    Fixed Q fun lookup => act lookup >>= k lookup := by
  have hbind (lookup : Lookup) (m : Machine) :
      (act lookup >>= k lookup) m = EStateM.bind (act lookup) (k lookup) m := rfl
  cases h with
  | ok a value ends =>
    cases hk a value with
    | ok b value ends' =>
      exact .ok b value fun lookup m => by rw [hbind, EStateM.bind, ends]; exact ends' lookup m
    | error halt ends' =>
      exact .error halt fun lookup m => by rw [hbind, EStateM.bind, ends]; exact ends' lookup m
  | error halt ends => exact .error halt fun lookup m => by rw [hbind, EStateM.bind, ends]

theorem ite {c : Prop} [Decidable c] {act act' : Lookup → Eval α} (h : Fixed P act)
    (h' : Fixed P act') : Fixed P fun lookup => if c then act lookup else act' lookup := by
  split
  · exact h
  · exact h'

end Fixed

/-- How a plain expression evaluates. -/
theorem fixed_of_isPlain (fuel : Nat) : ∀ {e : Expr}, e.isPlain = true →
    Fixed Value.Scalar fun lookup => evaluate fuel lookup e := by
  induction fuel with
  | zero =>
    intro e _
    simp only [evaluate]
    exact .outOfFuel
  | succ fuel ih =>
    intro e hplain
    cases e with simp only [evaluate]
    | literal value => exact .pure (scalar_literalValue value)
    | grouping inner =>
      have hinner : inner.isPlain = true := hplain
      exact ih hinner
    | unary operator right =>
      have hright : right.isPlain = true := hplain
      refine (ih hright).bind fun v _ => ?_
      cases UnaryOperator.ofKind? operator.kind with
      | none => exact .fail _ _
      | some op => exact .computed (fun _ => Value.scalar_applyUnary) _
    | binary left operator right =>
      obtain ⟨hleft, hright⟩ := Bool.and_eq_true_iff.mp hplain
      exact (ih hleft).bind fun v _ => (ih hright).bind fun w hw =>
        .ite (.pure hw) (.computed (fun _ => Value.scalar_applyBinary) _)
    | logical left operator right =>
      obtain ⟨hleft, hright⟩ := Bool.and_eq_true_iff.mp hplain
      exact (ih hleft).bind fun v hv => .ite (.pure hv) (ih hright)
    | ternary condition question thenBranch elseBranch =>
      obtain ⟨hboth, helse⟩ := Bool.and_eq_true_iff.mp hplain
      obtain ⟨hcondition, hthen⟩ := Bool.and_eq_true_iff.mp hboth
      exact (ih hcondition).bind fun v _ => .ite (ih hthen) (ih helse)
    | «variable» | assign | call | get | set | this | super | arrow => cases hplain

theorem fixed_each_of_isPlain (fuel : Nat) {es : List Expr} (hplain : es.all Expr.isPlain = true) :
    Fixed (fun vs => ∀ v ∈ vs, v.Scalar) fun lookup => evaluateEach fuel lookup es := by
  induction fuel generalizing es with
  | zero =>
    simp only [evaluateEach]
    exact .outOfFuel
  | succ fuel ih =>
    cases es with simp only [evaluateEach]
    | nil => exact .pure fun _ hv => nomatch hv
    | cons e es =>
      obtain ⟨he, hrest⟩ := Bool.and_eq_true_iff.mp hplain
      exact (fixed_of_isPlain fuel he).bind fun v hv => (ih hrest).bind fun vs hvs =>
        .pure (List.forall_mem_cons.mpr ⟨hv, hvs⟩)

end Eval

end LoxLang
