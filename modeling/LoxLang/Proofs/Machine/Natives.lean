import LoxLang.Proofs.Machine.Arithmetic
import LoxLang.Proofs.Number.Order
import LoxLang.Proofs.Sequence

/-!
# Calls of built-in functions on numbers

A call of a built-in function has one answer for an argument, wherever it stands (`Eval.Answers`).
For a float, `floor` and `parse_int` give the exact whole numbers next to it. The two differ beyond
the range of the integers, where `floor` keeps the float and `parse_int` gives the greatest or the
least integer (`IntegerParts`).
-/

namespace LoxLang

namespace Eval

/-- Wherever a built-in function is called with this value, the call has this result, and it changes
nothing. -/
def Answers (builtin : Builtin) (a result : Value) : Prop :=
  ∀ ⦃id : NativeId⦄ ⦃native : Native⦄ ⦃callee argument : Expr⦄ ⦃paren : Token⦄ ⦃fuel : Nat⦄
    ⦃lookup : Lookup⦄ ⦃m m₁ m₂ : Machine⦄,
    evaluate (fuel + 2) lookup callee m = .ok (.callable (.native id)) m₁ →
    evaluate (fuel + 1) lookup argument m₁ = .ok a m₂ →
    m₂.store.native? id = some native → native.builtin = builtin →
    evaluate (fuel + 3) lookup (.call callee paren [argument]) m = .ok result m₂

variable {builtin : Builtin} {a result : Value}

theorem callNative_eq {id : NativeId} {native : Native} {args : List Value} {paren : Token}
    {m : Machine} (hnative : m.store.native? id = some native)
    (h : native.builtin.call m.store.display m.host args = (.ok result, m.host)) :
    callNative id args paren m = .ok result m := by
  have hfound : inspect (·.native? id) m = .ok (some native) m := by rw [inspect, hnative]
  have hmachine : (get : Eval Machine) m = .ok m m := rfl
  rw [callNative, bind_of_ok hfound]
  dsimp only
  rw [bind_of_ok hmachine, h]
  rfl

/-- The outside world and the texts of values are the only things that a built-in function may look
at. -/
theorem answers (harity : builtin.arity = 1)
    (h : ∀ m : Machine, builtin.call m.store.display m.host [a] = (.ok result, m.host)) :
    Answers builtin a result := by
  rintro id native callee argument paren fuel lookup m m₁ m₂ hcallee hargument hnative rfl
  have hargs : evaluateEach (fuel + 2) lookup [argument] m₁ = .ok [a] m₂ := by
    rw [evaluateEach, bind_of_ok hargument]
    rfl
  have hcheck : checkCall (.callable (.native id)) paren 1 m₂ = .ok (.native id) m₂ := by
    have harity : inspect (·.arity (.native id)) m₂ = .ok 1 m₂ := by
      rw [inspect, Store.arity, hnative, Option.elim_some, harity]
    rw [checkCall, bind_of_ok harity]
    rfl
  rw [evaluate, bind_of_ok hcallee, bind_of_ok hargs, invoke]
  dsimp only [List.length_singleton]
  rw [bind_of_ok hcheck]
  exact callNative_eq hnative (h m₂)

end Eval

/-! ## Whole numbers next to a float -/

namespace Number

variable {x : Float} {d : Number.Dyadic}

theorem toInt_clamp (n : Int) :
    (clamp n).toInt = n ∨ n < Int64.minValue.toInt ∧ clamp n = Int64.minValue ∨
      Int64.maxValue.toInt < n ∧ clamp n = Int64.maxValue := by
  unfold clamp
  split
  · next hlow => exact .inr (.inl ⟨hlow, rfl⟩)
  · next hlow =>
    split
    · next hhigh => exact .inr (.inr ⟨hhigh, rfl⟩)
    · next hhigh => exact .inl (toInt_ofInt_of_inRange ⟨not_lt.mp hlow, not_lt.mp hhigh⟩)

theorem intOf_float (h : Binary64.ofFloat x = .finite d) :
    Builtin.intOf (some (.float x)) = some (clamp (towardZero d.value)) := by
  rw [Builtin.intOf, truncate?, h, ← Dyadic.truncate_eq]
  rfl

theorem floorOf_float (h : Binary64.ofFloat x = .finite d) :
    Builtin.floorOf (some (.float x)) = .ok ((fit? ⌊d.value⌋).elim (.float x) .int) := by
  rw [Builtin.floorOf, floor?, h]
  dsimp only
  rw [← Dyadic.floor_eq, Option.bind_some]
  cases fit? d.floor <;> rfl

/-- A float beyond the integers has no fraction. -/
theorem floor_eq_of_not_inRange (h : Binary64.ofFloat x = .finite d)
    (hrange : ¬InRange ⌊d.value⌋) : d.value = ⌊d.value⌋ := by
  have hlarge : 2 ^ 53 ≤ |d.value| := by
    by_contra hsmall
    obtain ⟨hlow, hhigh⟩ := abs_lt.mp (not_le.mp hsmall)
    have hfloor : -2 ^ 53 ≤ ⌊d.value⌋ := Int.le_floor.mpr (by exact_mod_cast hlow.le)
    have hceil : ⌊d.value⌋ < 2 ^ 53 := Int.floor_lt.mpr (by exact_mod_cast hhigh)
    exact hrange ⟨by omega, by omega⟩
  have hwhole := (Binary64.canonical_of_ofFloat h).toFits.isWhole_of_large hlarge
  obtain ⟨n, hn⟩ := Dyadic.isWhole_iff.mp hwhole
  rw [← hn, Int.floor_intCast]

end Number

/-- What `floor` and `parse_int` give for a number. Where the fraction is dropped from a number and
no 64-bit integer is left, `parse_int` gives the last integer on that side. -/
structure IntegerParts (x : Float) : Prop where
  floor {q : ℚ} : Number.number? x = some (q : WithTop ℚ) →
    ∃ value : Value, Eval.Answers .floor (.float x) value ∧ value.StandsFor ⌊q⌋ x ∧
      (¬Number.InRange ⌊q⌋ → q = ⌊q⌋)
  parseInt {q : ℚ} : Number.number? x = some (q : WithTop ℚ) →
    ∃ n : Int64, Eval.Answers .parseInt (.float x) (.int n) ∧
      (n.toInt = Number.towardZero q ∨
        Number.towardZero q < Int64.minValue.toInt ∧ n = Int64.minValue ∨
        Int64.maxValue.toInt < Number.towardZero q ∧ n = Int64.maxValue)
  endless : (∀ q : ℚ, Number.number? x ≠ some (q : WithTop ℚ)) →
    Eval.Answers .floor (.float x) (.float x) ∧ Eval.Answers .parseInt (.float x) .nil
  integers (n : Int64) : Eval.Answers .floor (.int n) (.int n) ∧
    Eval.Answers .parseInt (.int n) (.int n)

theorem integerParts (x : Float) : IntegerParts x where
  floor hq := by
    obtain ⟨d, hd, rfl⟩ := Number.number?_eq_coe.mp hq
    refine ⟨_, Eval.answers rfl fun m => ?_, Value.standsFor_fit? _ x,
      Number.floor_eq_of_not_inRange hd⟩
    rw [Builtin.call, List.head?_cons, Number.floorOf_float hd]
  parseInt hq := by
    obtain ⟨d, hd, rfl⟩ := Number.number?_eq_coe.mp hq
    refine ⟨_, Eval.answers rfl fun m => ?_, Number.toInt_clamp _⟩
    rw [Builtin.call, List.head?_cons, Number.intOf_float hd]
    rfl
  endless hx := by
    have hnone : Number.floor? x = none ∧ Number.truncate? x = none := by
      rw [Number.floor?, Number.truncate?]
      cases hpattern : Number.Binary64.ofFloat x with
      | notANumber | infinite => exact ⟨rfl, rfl⟩
      | finite d => exact absurd (Number.number?_eq_coe.mpr ⟨d, hpattern, rfl⟩) (hx d.value)
    constructor
    · refine Eval.answers rfl fun m => ?_
      rw [Builtin.call, List.head?_cons, Builtin.floorOf, hnone.1]
      rfl
    · refine Eval.answers rfl fun m => ?_
      rw [Builtin.call, List.head?_cons, Builtin.intOf, hnone.2]
      rfl
  integers n := ⟨Eval.answers rfl fun _ => rfl, Eval.answers rfl fun _ => rfl⟩

end LoxLang
