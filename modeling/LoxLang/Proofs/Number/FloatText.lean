import LoxLang.Number.FloatText
import LoxLang.Proofs.Number.Digits
import LoxLang.Proofs.Number.Shortest
import LoxLang.Token.Lexeme

/-!
# Floats as texts

The text of a float, read as a decimal number, is rounded to this float (`exists_parts`). So no two
floats have one text (`display_inj`).
-/

namespace LoxLang.Number

open Lexeme (pointed)

/-- What the digits stand for, with the point behind the first one. -/
def DecimalDigits.value (d : DecimalDigits) : ℚ :=
  digitsValue 10 d.digits * 10 ^ (d.exponent + 1 - d.digits.length)

def DecimalParts.value (parts : DecimalParts) : ℚ :=
  digitsValue 10 (parts.whole ++ parts.fraction) * 10 ^ (parts.exponent - parts.fraction.length)

/-! ## Digits -/

theorem dropTrailingZeros_append (ds : List Char) :
    ∃ k, ds = dropTrailingZeros ds ++ List.replicate k '0' := by
  cases ds with
  | nil => exact ⟨0, rfl⟩
  | cons d ds =>
    have hzeros : ds.reverse.takeWhile (· = '0') =
        List.replicate (ds.reverse.takeWhile (· = '0')).length '0' :=
      List.eq_replicate_iff.mpr ⟨rfl, fun c hc => of_decide_eq_true
        (List.all_eq_true.mp List.all_takeWhile c hc)⟩
    have hsplit := List.takeWhile_append_dropWhile (p := (· = '0')) (l := ds.reverse)
    refine ⟨(ds.reverse.takeWhile (· = '0')).length, ?_⟩
    rw [dropTrailingZeros, List.cons_append, ← List.reverse_replicate, ← hzeros,
      ← List.reverse_append, hsplit, List.reverse_reverse]

theorem dropTrailingZeros_ne_nil {ds : List Char} (h : ds ≠ []) : dropTrailingZeros ds ≠ [] := by
  cases ds with
  | nil => exact h
  | cons => exact List.cons_ne_nil _ _

theorem mem_of_mem_dropTrailingZeros {ds : List Char} {c : Char} (h : c ∈ dropTrailingZeros ds) :
    c ∈ ds := by
  obtain ⟨k, hk⟩ := dropTrailingZeros_append ds
  rw [hk]
  exact List.mem_append_left _ h

/-- The digits as they are written: at least one, and nothing else. -/
structure DecimalDigits.Written (d : DecimalDigits) : Prop where
  nonempty : d.digits ≠ []
  digits : ∀ c ∈ d.digits, c.isDigit = true

theorem written_shortest (tie : Tie) (m : Nat) (e : Int) : (shortest tie m e).Written where
  nonempty := dropTrailingZeros_ne_nil Nat.toDigits_ne_nil
  digits _ hc := isDigit_of_mem_toDigits (mem_of_mem_dropTrailingZeros hc)

/-- The shortest digits stand for a point of the grid that they were found on. -/
theorem value_shortest (tie : Tie) (m : Nat) (e : Int) :
    (shortest tie m e).value =
      gridValue ((OwnedInterval.ofDyadic m e).digitsFrom tie
        (OwnedInterval.ofDyadic m e).leadingPlace 17 1).1
        ((OwnedInterval.ofDyadic m e).digitsFrom tie
          (OwnedInterval.ofDyadic m e).leadingPlace 17 1).2 := by
  unfold shortest DecimalDigits.value gridValue
  dsimp only
  generalize (OwnedInterval.ofDyadic m e).digitsFrom tie _ 17 1 = found
  obtain ⟨n, places⟩ := found
  dsimp only
  obtain ⟨k, hk⟩ := dropTrailingZeros_append (Nat.toDigits 10 n)
  have hn := digitsValue_toDigits n
  have hlength := congrArg List.length hk
  rw [hk, digitsValue_append, digitsValue_zeros, List.length_replicate, Nat.add_zero] at hn
  rw [List.length_append, List.length_replicate] at hlength
  generalize dropTrailingZeros (Nat.toDigits 10 n) = ds at hn hlength ⊢
  rw [hlength, ← hn]
  push_cast
  rw [mul_assoc, ← zpow_natCast, ← zpow_add₀ (by decide)]
  congr 2
  omega

/-! ## Reading a text as a decimal number -/

theorem takeWhile_isDigit {digits : List Char} (hdigits : ∀ c ∈ digits, c.isDigit = true)
    (rest : List Char) (hrest : ∀ c ∈ rest.head?, c.isDigit = false) :
    (digits ++ rest).takeWhile Char.isDigit = digits ∧
      (digits ++ rest).dropWhile Char.isDigit = rest := by
  rw [List.takeWhile_append_of_pos hdigits, List.dropWhile_append_of_pos hdigits]
  cases rest with
  | nil => simp
  | cons c rest => simp [hrest c rfl]

section

variable {whole fraction : List Char} (hne : whole ≠ []) (hwhole : ∀ c ∈ whole, c.isDigit = true)
  (hfraction : ∀ c ∈ fraction, c.isDigit = true)

include hne hwhole hfraction

theorem decimalParts?_plain :
    decimalParts? (whole ++ '.' :: fraction) = some ⟨whole, fraction, 0⟩ := by
  have hempty : whole.isEmpty = false := List.isEmpty_eq_false_iff.mpr hne
  obtain ⟨htake, hdrop⟩ := takeWhile_isDigit hwhole ('.' :: fraction) fun c hc => by
    cases hc
    rfl
  obtain ⟨htake', hdrop'⟩ := takeWhile_isDigit hfraction [] fun c hc => by cases hc
  rw [List.append_nil] at htake' hdrop'
  unfold decimalParts?
  simp only [htake, hdrop, htake', hdrop', hempty, Bool.false_and, Bool.false_eq_true, if_false]

theorem decimalParts?_scientific (after : List Char) :
    decimalParts? (whole ++ (pointed fraction ++ 'e' :: after)) =
      (exponent? after).map fun exponent => ⟨whole, fraction, exponent⟩ := by
  have hempty : whole.isEmpty = false := List.isEmpty_eq_false_iff.mpr hne
  have hends : ∀ c ∈ (pointed fraction ++ 'e' :: after).head?, c.isDigit = false := by
    unfold pointed
    split <;> exact fun c hc => by
      cases hc
      rfl
  obtain ⟨htake, hdrop⟩ := takeWhile_isDigit hwhole _ hends
  obtain ⟨htake', hdrop'⟩ := takeWhile_isDigit hfraction ('e' :: after) fun c hc => by
    cases hc
    rfl
  unfold decimalParts?
  rw [htake, hdrop]
  cases fraction with
  | nil =>
    simp only [pointed, List.isEmpty_nil, if_true, List.nil_append, hempty, Bool.false_and,
      Bool.false_eq_true, if_false]
    rfl
  | cons d fraction =>
    simp only [pointed, List.isEmpty_cons, Bool.false_eq_true, if_false, List.cons_append, hempty,
      Bool.false_and] at htake' hdrop' ⊢
    rw [htake', hdrop']
    rfl

end

theorem exponent?_text (k : Int) :
    exponent? ((if k < 0 then "-" else "").toList ++ Nat.toDigits 10 k.natAbs) = some k := by
  split
  · next hneg =>
    have hvalue : -(k.natAbs : Int) = k := by omega
    change exponent? ('-' :: Nat.toDigits 10 k.natAbs) = _
    rw [exponent?, splitSign]
    dsimp only
    rw [digits?_toDigits]
    exact congrArg some hvalue
  · next hneg =>
    have hvalue : (k.natAbs : Int) = k := by omega
    change exponent? (Nat.toDigits 10 k.natAbs) = _
    rw [exponent?, splitSign_of_isDigit fun c hc =>
      isDigit_of_mem_toDigits (List.mem_of_mem_head? hc)]
    dsimp only
    rw [digits?_toDigits]
    exact congrArg some hvalue

/-! ## The two notations -/

namespace FloatFormat

variable {d : DecimalDigits}

/-- The text is read as a number of this value. -/
def Reads (text : List Char) (q : ℚ) : Prop :=
  ∃ parts, decimalParts? text = some parts ∧ parts.value = q

theorem isDigit_of_mem_zeros {k : Nat} {c : Char} (h : c ∈ List.replicate k '0') :
    c.isDigit = true := by
  rw [List.eq_of_mem_replicate h]
  rfl

theorem digitsValue_leadingZeros (k : Nat) (ds : List Char) :
    digitsValue 10 (List.replicate k '0' ++ ds) = digitsValue 10 ds := by
  rw [digitsValue_append, digitsValue_zeros, Nat.zero_mul, Nat.zero_add]

theorem reads_small (h : d.Written) (hneg : d.exponent < 0) :
    Reads (plain d.digits d.exponent) d.value := by
  have hfraction : ∀ c ∈ List.replicate (-d.exponent - 1).toNat '0' ++ d.digits,
      c.isDigit = true := by
    intro c hc
    rcases List.mem_append.mp hc with hc | hc
    · exact isDigit_of_mem_zeros hc
    · exact h.digits c hc
  have hwhole : ∀ c ∈ ['0'], c.isDigit = true := fun c hc => isDigit_of_mem_zeros (k := 1) hc
  have hread := decimalParts?_plain (List.cons_ne_nil _ _) hwhole hfraction
  rw [plain, if_pos hneg]
  refine ⟨_, hread, ?_⟩
  have hvalue := digitsValue_leadingZeros ((-d.exponent - 1).toNat + 1) d.digits
  rw [List.replicate_succ] at hvalue
  rw [DecimalParts.value, DecimalDigits.value, ← hvalue]
  congr 2
  rw [List.length_append, List.length_replicate]
  push_cast
  omega

theorem reads_large (h : d.Written) (hnonneg : ¬d.exponent < 0) :
    Reads (plain d.digits d.exponent) d.value := by
  rw [plain, if_neg hnonneg]
  dsimp only
  obtain ⟨width, hwidth⟩ : ∃ width : Nat, d.exponent + 1 = width :=
    ⟨(d.exponent + 1).toNat, by omega⟩
  have hwhole : d.exponent.toNat + 1 = width := by omega
  rw [hwhole, DecimalDigits.value, hwidth]
  rcases Nat.lt_or_ge width d.digits.length with hlong | hshort
  · -- the point stands among the digits
    have hfraction : (d.digits.drop width).isEmpty = false := by
      rw [List.isEmpty_eq_false_iff, ne_eq, List.drop_eq_nil_iff]
      omega
    have hpadding : width - d.digits.length = 0 := by omega
    rw [hpadding, List.replicate_zero, List.append_nil, hfraction, if_neg Bool.false_ne_true]
    have hne : d.digits.take width ≠ [] := by
      rw [ne_eq, List.take_eq_nil_iff]
      exact fun hnil => hnil.elim (by omega) h.nonempty
    refine ⟨_, decimalParts?_plain hne (fun c hc => h.digits c (List.mem_of_mem_take hc))
      fun c hc => h.digits c (List.mem_of_mem_drop hc), ?_⟩
    rw [DecimalParts.value]
    dsimp only
    rw [List.take_append_drop, List.length_drop]
    congr 2
    omega
  · -- zeros stand between the digits and the point
    have hfraction : d.digits.drop width = [] := List.drop_eq_nil_of_le hshort
    have hwidth' : (d.digits ++ List.replicate (width - d.digits.length) '0').take width =
        d.digits ++ List.replicate (width - d.digits.length) '0' := by
      rw [List.take_of_length_le]
      rw [List.length_append, List.length_replicate]
      omega
    rw [hfraction, hwidth', List.isEmpty_nil, if_pos rfl]
    refine ⟨_, decimalParts?_plain ?_ (fun c hc => ?_)
      (fun c hc => isDigit_of_mem_zeros (k := 1) hc), ?_⟩
    · exact List.append_ne_nil_of_left_ne_nil h.nonempty _
    · rcases List.mem_append.mp hc with hc | hc
      · exact h.digits c hc
      · exact isDigit_of_mem_zeros hc
    · rw [DecimalParts.value]
      dsimp only
      rw [List.append_assoc, show ['0'] = List.replicate 1 '0' from rfl, ← List.replicate_add,
        digitsValue_append, digitsValue_zeros, List.length_replicate, List.length_replicate]
      push_cast
      rw [add_zero, mul_assoc, ← zpow_natCast, ← zpow_add₀ (by decide)]
      congr 2
      omega

theorem reads_scientific (h : d.Written) :
    Reads (display.scientific d.digits d.exponent) d.value := by
  obtain ⟨first, others, hdigits⟩ := List.exists_cons_of_ne_nil h.nonempty
  have hfirst : ∀ c ∈ [first], c.isDigit = true := fun c hc =>
    h.digits c (hdigits ▸ List.mem_singleton.mp hc ▸ List.mem_cons_self)
  have hothers : ∀ c ∈ others, c.isDigit = true := fun c hc =>
    h.digits c (hdigits ▸ List.mem_cons_of_mem first hc)
  have hread := decimalParts?_scientific (List.cons_ne_nil first []) hfirst hothers
    ((if d.exponent < 0 then "-" else "").toList ++ Nat.toDigits 10 d.exponent.natAbs)
  rw [exponent?_text, Option.map_some] at hread
  have htext : display.scientific d.digits d.exponent = [first] ++ (pointed others ++
      'e' :: ((if d.exponent < 0 then "-" else "").toList ++ Nat.toDigits 10 d.exponent.natAbs)) := by
    rw [hdigits]
    cases others <;> rfl
  refine ⟨_, htext ▸ hread, ?_⟩
  rw [DecimalParts.value, DecimalDigits.value, hdigits]
  dsimp only
  rw [List.singleton_append, List.length_cons]
  congr 2
  push_cast
  omega

/-- The text of a positive number is read as the shortest digits. -/
theorem reads_magnitude {m : Nat} (hm : 0 < m) (e : Int) :
    Reads (display.magnitude m e) (shortest display.tie m e).value := by
  have hwritten := written_shortest display.tie m e
  unfold magnitude
  rw [if_neg hm.ne']
  dsimp only
  split
  · by_cases hneg : (shortest display.tie m e).exponent < 0
    · exact reads_small hwritten hneg
    · exact reads_large hwritten hneg
  · exact reads_scientific hwritten

/-! ## Characters -/

/-- Digits, then a point or an exponent. -/
inductive Shaped : List Char → Prop
  | mk {whole behind : List Char} {mark : Char} (nonempty : whole ≠ [])
    (digits : ∀ c ∈ whole, c.isDigit = true) (hmark : mark = '.' ∨ mark = 'e')
    (others : ∀ c ∈ behind, c.isDigit = true ∨ c = 'e' ∨ c = '-') : Shaped (whole ++ mark :: behind)

theorem shaped_plain (h : d.Written) : Shaped (plain d.digits d.exponent) := by
  have hzeros {k : Nat} {c : Char} (hc : c ∈ d.digits ++ List.replicate k '0') :
      c.isDigit = true :=
    (List.mem_append.mp hc).elim (h.digits c) isDigit_of_mem_zeros
  unfold plain
  split
  · refine .mk (List.cons_ne_nil '0' []) (fun c hc => isDigit_of_mem_zeros (k := 1) hc) (.inl rfl)
      fun c hc => .inl ?_
    exact (List.mem_append.mp hc).elim isDigit_of_mem_zeros (h.digits c)
  · refine .mk ?_ (fun c hc => hzeros (List.mem_of_mem_take hc)) (.inl rfl) fun c hc => .inl ?_
    · rw [ne_eq, List.take_eq_nil_iff]
      exact fun hnil => hnil.elim (Nat.succ_ne_zero _) (List.append_ne_nil_of_left_ne_nil h.nonempty _)
    · split at hc
      · exact isDigit_of_mem_zeros (k := 1) hc
      · exact h.digits c (List.mem_of_mem_drop hc)

theorem shaped_scientific (h : d.Written) : Shaped (display.scientific d.digits d.exponent) := by
  have hexponent : ∀ c ∈ (if d.exponent < 0 then "-" else display.exponentPlus).toList ++
      Nat.toDigits 10 d.exponent.natAbs, c.isDigit = true ∨ c = 'e' ∨ c = '-' := by
    intro c hc
    rcases List.mem_append.mp hc with hc | hc
    · split at hc
      · exact .inr (.inr (List.mem_singleton.mp hc))
      · cases hc
    · exact .inl (isDigit_of_mem_toDigits hc)
  obtain ⟨first, others, hdigits⟩ := List.exists_cons_of_ne_nil h.nonempty
  have hwritten := h.digits
  rw [hdigits] at hwritten
  obtain ⟨hfirst, hothers⟩ := List.forall_mem_cons.mp hwritten
  have hwhole : ∀ c ∈ [first], c.isDigit = true := fun c hc => List.mem_singleton.mp hc ▸ hfirst
  unfold scientific
  rw [hdigits]
  cases others with
  | nil => exact .mk (List.cons_ne_nil first []) hwhole (.inr rfl) hexponent
  | cons second others =>
    change Shaped ([first] ++ '.' :: (second :: others ++ 'e' :: _))
    refine .mk (List.cons_ne_nil first []) hwhole (.inl rfl) fun c hc => ?_
    rcases List.mem_append.mp hc with hc | hc
    · exact .inl (hothers c hc)
    · rcases List.mem_cons.mp hc with rfl | hc
      · exact .inr (.inl rfl)
      · exact hexponent c hc

theorem shaped_magnitude (m : Nat) (e : Int) : Shaped (display.magnitude m e) := by
  unfold magnitude
  split
  · exact .mk (List.cons_ne_nil '0' []) (fun c hc => isDigit_of_mem_zeros (k := 1) hc) (.inl rfl)
      fun c hc => .inl (isDigit_of_mem_zeros (k := 1) hc)
  · dsimp only
    split
    · exact shaped_plain (written_shortest ..)
    · exact shaped_scientific (written_shortest ..)

/-! ## Reading back -/

theorem Reads.unique {text : List Char} {q r : ℚ} (h : Reads text q) (h' : Reads text r) :
    q = r := by
  obtain ⟨parts, hparts, hq⟩ := h
  obtain ⟨parts', hparts', hr⟩ := h'
  cases hparts.symm.trans hparts'
  exact hq.symm.trans hr

variable {m m' : Nat} {e e' : Int}

/-- The text of a number is read as one that is rounded to it. -/
theorem exists_reads (hx : Dyadic.Canonical ⟨false, m, e⟩) :
    ∃ q, Reads (display.magnitude m e) q ∧ Dyadic.Rounds ⟨false, m, e⟩ q ∧ (m = 0 → q = 0) := by
  rcases Nat.eq_zero_or_pos m with rfl | hm
  · have hzero : ∀ c ∈ ['0'], c.isDigit = true := fun c hc => isDigit_of_mem_zeros (k := 1) hc
    have hrounds := hx.toReduced.rounds
    rw [Dyadic.value_zero] at hrounds
    refine ⟨0, ⟨_, decimalParts?_plain (List.cons_ne_nil _ _) hzero hzero, ?_⟩, hrounds,
      fun _ => rfl⟩
    have hvalue : digitsValue 10 (['0'] ++ ['0']) = 0 := digitsValue_zeros 10 2
    rw [DecimalParts.value, hvalue, Nat.cast_zero, zero_mul]
  · refine ⟨_, reads_magnitude hm e, ?_, fun h => absurd h hm.ne'⟩
    rw [value_shortest]
    exact rounds_of_owns hx.toReduced hm (OwnedInterval.owns_shortest display.tie hx hm)

theorem eq_zero_of_rounds_zero (h : Dyadic.Rounds ⟨false, m, e⟩ 0) : m = 0 := by
  have hnear := h.nearest (Dyadic.reduced_zero false).toFits
  rw [Dyadic.value_zero, sub_self, abs_zero, zero_sub, abs_neg, abs_nonpos_iff,
    Dyadic.value_of_positive] at hnear
  exact_mod_cast (mul_eq_zero.mp hnear).resolve_right (zpow_pos two_pos e).ne'

theorem magnitude_inj (hx : Dyadic.Canonical ⟨false, m, e⟩) (hy : Dyadic.Canonical ⟨false, m', e'⟩)
    (h : display.magnitude m e = display.magnitude m' e') :
    (⟨false, m, e⟩ : Dyadic) = ⟨false, m', e'⟩ := by
  obtain ⟨q, hreads, hrounds, hzero⟩ := exists_reads hx
  obtain ⟨q', hreads', hrounds', hzero'⟩ := exists_reads hy
  obtain rfl : q = q' := hreads.unique (h ▸ hreads')
  have hvalue {n : Nat} {k : Int} (hn : 0 < n) : 0 < Dyadic.value ⟨false, n, k⟩ := by
    rw [Dyadic.value_of_positive]
    exact mul_pos (Nat.cast_pos.mpr hn) (zpow_pos two_pos k)
  by_cases hboth : 0 < m ∧ 0 < m'
  · exact hrounds.unique hrounds' (hvalue hboth.1) (hvalue hboth.2)
  · have hq : q = 0 := by
      rcases Nat.eq_zero_or_pos m with hm | hm
      · exact hzero hm
      · exact hzero' (Nat.eq_zero_of_not_pos fun hm' => hboth ⟨hm, hm'⟩)
    subst hq
    obtain rfl := eq_zero_of_rounds_zero hrounds
    obtain rfl := eq_zero_of_rounds_zero hrounds'
    have hsmall : ¬2 ^ 52 ≤ 0 := by decide
    obtain rfl : e = -1074 := hx.normal.resolve_left hsmall
    obtain rfl : e' = -1074 := hy.normal.resolve_left hsmall
    rfl

/-- Two floats that are not below zero have different texts. -/
theorem display_inj {x y : Float} (hx : Binary64.ofFloat x = .finite ⟨false, m, e⟩)
    (hy : Binary64.ofFloat y = .finite ⟨false, m', e'⟩) (h : display.write x = display.write y) :
    x = y := by
  rw [write, hx, write, hy] at h
  have hsame := magnitude_inj (Binary64.canonical_of_ofFloat hx) (Binary64.canonical_of_ofFloat hy)
    (String.ofList_injective h)
  refine Binary64.ofFloat_inj (hx.trans (hsame ▸ hy.symm)) ?_
  rw [hx]
  exact Binary64.noConfusion

end FloatFormat

end LoxLang.Number
