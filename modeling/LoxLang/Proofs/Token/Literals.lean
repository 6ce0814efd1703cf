import LoxLang.Proofs.Number.Folding
import LoxLang.Proofs.Token.Integers

/-!
# Integer literals

An integer may be written in four bases, with zeros in front and with letters of either case. Up to
the greatest 64-bit integer all these literals are the same integer. Beyond it a decimal literal is
the nearest float, while the digits of the other bases are folded into a float one after the other;
that is the same float unless digits are lost in a tie (`IntegerLiterals`).
-/

namespace LoxLang

open Number Lexeme

/-- The text is an integer literal of this base. -/
inductive Spells (n : Nat) : Base → List Char → Prop
  | decimal (digits : Digits .decimal) (hvalue : digitsValue 10 digits.text = n) :
    Spells n .decimal digits.text
  | marked {base : Base} {marker : Char} (hmarker : Base.ofMarker? marker = some base)
    (digits : Digits base) (hvalue : digitsValue base.radix digits.text = n) :
    Spells n base ('0' :: marker :: digits.text)

/-- The text is read as one number, in a source and as a source. -/
structure IsLiteral (text : List Char) (value : Numeral) : Prop where
  reads : ReadsAsNumber text value
  scans : (scan (String.ofList text)).1.map Token.word = [(.number value, text), (.eof, [])]
  faultless : (scan (String.ofList text)).2 = []

theorem Lexeme.ReadsAsNumber.isLiteral {text : List Char} {value : Numeral}
    (h : ReadsAsNumber text value) : IsLiteral text value := by
  have hscans := Scanned.scansTo_nil.number h completes_nil
  rw [List.append_nil] at hscans
  exact ⟨h, hscans.scan.1, hscans.scan.2⟩

/-- What an integer is read as in each base. -/
structure IntegerLiterals (n : Nat) : Prop where
  small : n ≤ maxInteger → ∃ i : Int64, i.toInt = n ∧
    ∀ base text, Spells n base text → IsLiteral text (.int i)
  large : maxInteger < n → ∃ x, IsNearest n x ∧
    (∀ text, Spells n .decimal text → IsLiteral text (.float x)) ∧
    ∀ base ≠ .decimal, ∃ y, IsNearest (kept base.radix n) y ∧
      (∀ text, Spells n base text → IsLiteral text (.float y)) ∧
      (y = x ↔ ¬FallsShort base.radix n)

theorem Base.exists_width {base : Base} (h : base ≠ .decimal) :
    ∃ w, 0 < w ∧ w ≤ 53 ∧ base.radix = 2 ^ w := by
  cases base with
  | binary => exact ⟨1, by decide, by decide, rfl⟩
  | octal => exact ⟨3, by decide, by decide, rfl⟩
  | hexadecimal => exact ⟨4, by decide, by decide, rfl⟩
  | decimal => exact absurd rfl h

theorem Base.ofMarker?_ne_decimal (marker : Char) : ofMarker? marker ≠ some decimal := by
  unfold ofMarker?
  split <;> exact fun h => by cases h

theorem one_le_kept {base : Base} (h : base ≠ .decimal) {n : Nat} (hn : maxInteger < n) :
    1 ≤ (kept base.radix n : ℚ) := by
  obtain ⟨w, hpos, -, hradix⟩ := Base.exists_width h
  have hlong : 2 ^ 53 ≤ n := le_trans (by decide) hn.le
  have hkept := le_kept (hradix ▸ Nat.one_lt_two_pow hpos.ne') hlong
  exact_mod_cast le_trans (by decide) hkept

/-- Beyond the integers, a literal with a marker is nearest to what is kept of the number. -/
theorem Digits.radixValue_of_large {base : Base} (digits : Digits base) (hbase : base ≠ .decimal)
    {n : Nat} (hvalue : digitsValue base.radix digits.text = n) (hn : maxInteger < n) :
    radixValue base digits.text = .float (Float.ofNat (kept base.radix n)) := by
  obtain ⟨w, hpos, hw, hradix⟩ := Base.exists_width hbase
  have hdigits : ∀ c ∈ digits.text, digitValue c < base.radix := fun c hc =>
    of_decide_eq_true (digits.digits c hc)
  have hfold : IsNearest (kept base.radix n) (foldDigits base.radix digits.text) := by
    rw [← hvalue]
    rw [hradix] at hdigits ⊢
    exact isNearest_fold hpos hw hdigits
  rw [radixValue, hvalue, if_neg (not_le.mpr hn)]
  exact congrArg _ (hfold.unique (isNearest_ofNat _) (one_le_kept hbase hn))

section

variable {n : Nat} {base : Base} {text : List Char}

theorem Spells.isLiteral_int (h : Spells n base text) (hn : n ≤ maxInteger) :
    IsLiteral text (.int (Int64.ofNat n)) := by
  cases h with
  | decimal digits hvalue =>
    have hreads := readsAsNumber_digits digits
    rw [wholeValue, hvalue] at hreads
    exact (if_pos hn ▸ hreads).isLiteral
  | marked hmarker digits hvalue =>
    have hreads := readsAsNumber_marked hmarker digits
    rw [radixValue, hvalue] at hreads
    exact (if_pos hn ▸ hreads).isLiteral

theorem Spells.isLiteral_nearest (h : Spells n .decimal text) (hn : maxInteger < n) :
    IsLiteral text (.float (Float.ofNat n)) := by
  cases h with
  | decimal digits hvalue =>
    have hreads := readsAsNumber_digits digits
    rw [wholeValue, hvalue] at hreads
    exact (if_neg (not_le.mpr hn) ▸ hreads).isLiteral
  | marked hmarker => exact absurd hmarker (Base.ofMarker?_ne_decimal _)

/-- With a marker the literal is nearest to what is kept of the number. -/
theorem Spells.isLiteral_kept (h : Spells n base text) (hbase : base ≠ .decimal)
    (hn : maxInteger < n) : IsLiteral text (.float (Float.ofNat (kept base.radix n))) := by
  cases h with
  | decimal => exact absurd rfl hbase
  | marked hmarker digits hvalue =>
    have hreads := readsAsNumber_marked hmarker digits
    rw [digits.radixValue_of_large hbase hvalue hn] at hreads
    exact hreads.isLiteral

end

/-- All spellings of an integer are the same number, the nearest one, unless the integer falls short
in a base with a marker. -/
theorem integerLiterals (n : Nat) : IntegerLiterals n where
  small hn := ⟨Int64.ofNat n, Int64.toInt_ofNat_of_lt (Nat.lt_succ_of_le hn),
    fun _ _ hspells => hspells.isLiteral_int hn⟩
  large hn := by
    refine ⟨Float.ofNat n, isNearest_ofNat n, fun _ hspells => hspells.isLiteral_nearest hn,
      fun base hbase => ⟨Float.ofNat (kept base.radix n), isNearest_ofNat _,
        fun _ hspells => hspells.isLiteral_kept hbase hn, ?_⟩⟩
    obtain ⟨w, hpos, -, hradix⟩ := Base.exists_width hbase
    have hnearest := isNearest_ofNat (kept base.radix n)
    rw [hradix] at hnearest ⊢
    exact eq_iff_not_fallsShort hpos (le_trans (by decide) hn.le) hnearest (isNearest_ofNat n)

end LoxLang
