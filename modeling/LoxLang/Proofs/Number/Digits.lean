import LoxLang.Number.Reading
import Mathlib

/-!
# Runs of digits

The value of a run of digits, and the decimal digits of a number, which are read as that number.
-/

namespace LoxLang.Number

theorem digitsValue_append (base : Nat) (front back : List Char) :
    digitsValue base (front ++ back) =
      digitsValue base front * base ^ back.length + digitsValue base back := by
  have hfrom (start : Nat) : back.foldl (fun value c => value * base + digitValue c) start =
      start * base ^ back.length + digitsValue base back := by
    induction back generalizing start with
    | nil => simp [digitsValue]
    | cons c back ih =>
      have hcons : digitsValue base (c :: back) =
          digitValue c * base ^ back.length + digitsValue base back := by
        rw [digitsValue, List.foldl_cons, ih, Nat.zero_mul, Nat.zero_add]
      rw [List.foldl_cons, ih, hcons, List.length_cons, pow_succ']
      ring
  rw [digitsValue, List.foldl_append, hfrom]
  rfl

theorem digitsValue_zeros (base k : Nat) : digitsValue base (List.replicate k '0') = 0 := by
  induction k with
  | zero => rfl
  | succ k ih =>
    have hzero : digitValue '0' = 0 := rfl
    rw [List.replicate_succ', digitsValue_append, ih, Nat.zero_mul, Nat.zero_add, digitsValue,
      List.foldl_cons, List.foldl_nil, hzero, Nat.zero_mul]

theorem digitValue_of_isDigit {c : Char} (h : c.isDigit = true) :
    digitValue c = c.toNat - '0'.toNat := by
  rw [digitValue, if_pos h]

/-- Decimal digits are read as the standard library reads them. -/
theorem digitsValue_ten {cs : List Char} (h : ∀ c ∈ cs, c.isDigit = true) :
    digitsValue 10 cs = Nat.ofDigitChars 10 cs 0 := by
  unfold digitsValue Nat.ofDigitChars
  refine List.foldl_ext _ _ _ fun value c hc => ?_
  rw [digitValue_of_isDigit (h c hc), Nat.mul_comm]

theorem isDigit_of_mem_toDigits {n : Nat} {c : Char} (h : c ∈ Nat.toDigits 10 n) :
    c.isDigit = true :=
  Nat.isDigit_of_mem_toDigits (by decide) (Nat.le_refl _) h

@[simp] theorem digitsValue_toDigits (n : Nat) : digitsValue 10 (Nat.toDigits 10 n) = n := by
  rw [digitsValue_ten fun c => isDigit_of_mem_toDigits, Nat.ofDigitChars_ten_toDigits]

theorem digits?_toDigits (n : Nat) : digits? (Nat.toDigits 10 n) = some n := by
  have hempty : (Nat.toDigits 10 n).isEmpty = false :=
    List.isEmpty_eq_false_iff.mpr Nat.toDigits_ne_nil
  have hdigits : (Nat.toDigits 10 n).all Char.isDigit = true :=
    List.all_eq_true.mpr fun c => isDigit_of_mem_toDigits
  rw [digits?, hempty, hdigits, digitsValue_toDigits]
  rfl

theorem splitSign_of_isDigit {cs : List Char} (h : ∀ c ∈ cs.head?, c.isDigit = true) :
    splitSign cs = (false, cs) := by
  unfold splitSign
  split
  · cases h _ rfl
  · cases h _ rfl
  · rfl

end LoxLang.Number
