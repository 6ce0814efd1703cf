import LoxLang.Number.FloatText
import LoxLang.Proofs.Number.Digits
import LoxLang.Proofs.Token.RoundTrip

/-!
# Texts of integers

The decimal text of an integer is read back in two ways: as an integer by itself, also with blanks
around it (`Number.int64?_intText`, `Text.trim_padded`), and as a literal in a source, behind a minus
for a negative one (`Lexeme.readsAsNumber_toDigits`, `Scanned.ScansTo.minus`).
-/

namespace LoxLang

namespace Number

theorem intText_of_nonneg {n : Int64} (h : 0 ≤ n.toInt) :
    intText n = String.ofList (Nat.toDigits 10 n.toInt.natAbs) := by
  rw [intText, if_neg (Int.not_lt.mpr h)]

theorem intText_of_neg {n : Int64} (h : n.toInt < 0) :
    intText n = String.ofList ('-' :: Nat.toDigits 10 n.toInt.natAbs) := by
  rw [intText, if_pos h]

/-- The text of an integer is read as that integer. -/
theorem int64?_intText (n : Int64) : int64? (intText n).toList = some n := by
  by_cases hneg : n.toInt < 0
  · have hvalue : -(n.toInt.natAbs : Int) = n.toInt := by omega
    rw [intText_of_neg hneg, String.toList_ofList, int64?, splitSign]
    dsimp only
    rw [digits?_toDigits, Option.bind_some, if_pos rfl, hvalue, fit?_toInt]
  · have hvalue : (n.toInt.natAbs : Int) = n.toInt := by omega
    rw [intText_of_nonneg (Int.not_lt.mp hneg), String.toList_ofList, int64?,
      splitSign_of_isDigit fun c hc => isDigit_of_mem_toDigits (List.mem_of_mem_head? hc)]
    dsimp only
    rw [digits?_toDigits, Option.bind_some, if_neg Bool.false_ne_true, hvalue, fit?_toInt]

theorem intText_ne_nil (n : Int64) : (intText n).toList ≠ [] := by
  by_cases hneg : n.toInt < 0
  · rw [intText_of_neg hneg, String.toList_ofList]
    exact List.cons_ne_nil _ _
  · rw [intText_of_nonneg (Int.not_lt.mp hneg), String.toList_ofList]
    exact Nat.toDigits_ne_nil

theorem not_isBlank_of_isDigit {c : Char} (h : c.isDigit = true) : Text.isBlank c = false := by
  simp only [Char.isDigit, Bool.and_eq_true, decide_eq_true_eq, UInt32.le_iff_toNat_le] at h
  obtain ⟨hlow, hhigh⟩ := h
  have hlow : 48 ≤ c.toNat := hlow
  have hhigh : c.toNat ≤ 57 := hhigh
  rw [Text.isBlank, List.any_eq_false]
  have hranges : ∀ range ∈ Text.blankRanges, range.2 < 48 ∨ 57 < range.1 := by decide
  intro range hrange
  have hrange := hranges range hrange
  simp only [Bool.and_eq_true, decide_eq_true_eq]
  omega

theorem not_isBlank_intText (n : Int64) : ∀ c ∈ (intText n).toList, Text.isBlank c = false := by
  intro c hc
  by_cases hneg : n.toInt < 0
  · rw [intText_of_neg hneg, String.toList_ofList] at hc
    rcases List.mem_cons.mp hc with rfl | hc
    · decide
    · exact not_isBlank_of_isDigit (isDigit_of_mem_toDigits hc)
  · rw [intText_of_nonneg (Int.not_lt.mp hneg), String.toList_ofList] at hc
    exact not_isBlank_of_isDigit (isDigit_of_mem_toDigits hc)

end Number

namespace Text

/-- Blanks around a text that neither begins nor ends with one are dropped. -/
theorem trim_padded {before cs after : List Char} (hbefore : ∀ c ∈ before, isBlank c = true)
    (hafter : ∀ c ∈ after, isBlank c = true) (hne : cs ≠ []) (hcs : ∀ c ∈ cs, isBlank c = false) :
    trim (before ++ (cs ++ after)) = cs := by
  have hend {ds : List Char} (h : ∀ c ∈ ds, c ∈ cs) : ∀ c ∈ ds.head?, isBlank c = false :=
    fun c hc => hcs c (h c (List.mem_of_mem_head? hc))
  have hfront : (before ++ (cs ++ after)).dropWhile isBlank = cs ++ after := by
    refine (Lexeme.takeWhile_run before (cs ++ after) hbefore ?_).2
    rw [List.head?_append_of_ne_nil _ hne]
    exact hend fun _ => id
  have hback : (after.reverse ++ cs.reverse).dropWhile isBlank = cs.reverse :=
    (Lexeme.takeWhile_run _ _ (fun c hc => hafter c (List.mem_reverse.mp hc))
      (hend fun c => List.mem_reverse.mp)).2
  rw [trim, hfront, List.reverse_append, hback, List.reverse_reverse]

end Text

namespace Lexeme

theorem completes_nil : Completes [] := by
  intro c hc
  cases hc

theorem completes_semicolon (rest : List Char) : Completes (';' :: rest) := by
  rintro c hc
  obtain rfl : ';' = c := Option.some.inj hc
  exact ⟨rfl, by decide⟩

theorem wholeValue_toDigits {n : Nat} (h : n ≤ maxInteger) :
    wholeValue (Nat.toDigits 10 n) = .int (Int64.ofNat n) := by
  rw [wholeValue, Number.digitsValue_toDigits]
  exact if_pos h

/-- Digits alone are read as an integer. -/
theorem readsAsNumber_digits (digits : Digits .decimal) :
    ReadsAsNumber digits.text (wholeValue digits.text) := by
  have hreads := readsAsNumber_decimal digits none none
  rwa [Word.decimalValue, Word.text, Option.map_none, Option.map_none, Option.getD_none,
    List.append_nil, List.append_nil] at hreads

theorem readsAsNumber_toDigits {n : Nat} (h : n ≤ maxInteger) :
    ReadsAsNumber (Nat.toDigits 10 n) (.int (Int64.ofNat n)) :=
  wholeValue_toDigits h ▸ readsAsNumber_digits ⟨Nat.toDigits 10 n, Nat.toDigits_ne_nil,
    fun c hc => (isDigitIn_decimal c).trans (Number.isDigit_of_mem_toDigits hc)⟩

end Lexeme

/-- What is left of a token without its place. -/
def Token.word (t : Token) : TokenKind × List Char := (t.kind, t.lexeme.toList)

namespace Scanned

variable {cs rest text : List Char} {words : List (TokenKind × List Char)}

/-- What a text scans to, as the scanner gives it. -/
theorem ScansTo.scan (h : ScansTo cs words) :
    (scan (String.ofList cs)).1.map Token.word = words ∧
      (scan (String.ofList cs)).2 = [] := by
  obtain ⟨tokens, hgives, hwords⟩ := h cs.length 0 1 (Nat.le_refl _)
  have hscan : LoxLang.scan (String.ofList cs) = (tokens, []) :=
    scan_of_gives (by rwa [ofSource, String.toList_ofList])
  rw [hscan]
  exact ⟨hwords, rfl⟩

theorem ScansTo.number {value : Numeral} (h : ScansTo rest words)
    (hreads : Lexeme.ReadsAsNumber text value) (hrest : Lexeme.Completes rest) :
    ScansTo (text ++ rest) ((.number value, text) :: words) := by
  obtain ⟨first, others, rfl, hread⟩ := hreads rest hrest
  exact h.token hread

/-- A minus in front of a digit stands alone. -/
theorem ScansTo.minus {d : Char} {others : List Char} (h : ScansTo (d :: others) words)
    (hd : d.isDigit = true) :
    ScansTo ('-' :: d :: others) ((.symbol .minus, ['-']) :: words) := by
  refine h.token ?_
  have hpair : Symbol.ofPair? '-' d = none := by
    unfold Symbol.ofPair?
    split
    all_goals first | rfl | cases hd
  change Lexeme.symbol '-' (d :: others) = _
  rw [Lexeme.symbol, List.head?_cons, Option.bind_some, hpair]
  rfl

end Scanned

end LoxLang
