import LoxLang.Proofs.Number.Unsigned
import LoxLang.Proofs.Token.Literals
import LoxLang.Proofs.Token.Spelling

/-!
# Tokens are words

Whatever the scanner reads as a token is the text of a legal lexeme (`exists_word`, `legible_scan`),
and no number is read with a sign (`Word.isUnsigned`). This is the other direction of reading back
what has been written.
-/

namespace LoxLang

namespace Lexeme

variable {c : Char} {cs : List Char}

/-- The contents that are read end where the quote behind them closes the string. -/
theorem closed_of_stringContents? {inside rest : List Char}
    (h : stringContents? cs = some (inside, rest)) (front back : List Char)
    (hsplit : inside ++ ['"'] = front ++ '"' :: back) :
    front.getLast? = some '\\' ↔ back ≠ [] := by
  induction cs using stringContents?.induct generalizing inside front with
  | case1 => cases h
  | case2 cs =>
    cases h
    cases front with
    | nil =>
      obtain rfl := (List.cons_eq_cons.mp hsplit).2
      exact iff_of_false (by decide) (not_not_intro rfl)
    | cons d front =>
      have hlength := congrArg List.length hsplit
      simp at hlength
  | case3 cs ih =>
    obtain ⟨⟨inside', rest'⟩, hrest, heq⟩ := Option.map_eq_some_iff.mp h
    cases heq
    cases front with
    | nil => exact absurd (List.cons_eq_cons.mp hsplit).1 (by decide)
    | cons d front =>
      obtain ⟨hd, hbehind⟩ := List.cons_eq_cons.mp hsplit
      cases front with
      | nil =>
        have hback := (List.cons_eq_cons.mp hbehind).2
        exact iff_of_true (congrArg some hd.symm) (by rw [← hback]; simp)
      | cons e front =>
        rw [← ih hrest front (List.cons_eq_cons.mp hbehind).2]
        cases front with
        | nil =>
          have he := (List.cons_eq_cons.mp hbehind).1
          simp [← he]
        | cons => simp
  | case4 c cs hquote hescape ih =>
    rw [stringContents?.eq_4 _ _ hquote hescape] at h
    obtain ⟨⟨inside', rest'⟩, hrest, heq⟩ := Option.map_eq_some_iff.mp h
    cases heq
    cases front with
    | nil => exact absurd (List.cons_eq_cons.mp hsplit).1 hquote
    | cons d front =>
      obtain ⟨rfl, hbehind⟩ := List.cons_eq_cons.mp hsplit
      have hclosed := ih hrest front hbehind
      cases front with
      | nil =>
        -- a quote right behind a backslash would have been kept
        obtain ⟨hcs, -⟩ := stringContents?_cut hrest
        have hc : c ≠ '\\' := by
          intro hc
          refine hescape (back ++ rest) hc ?_
          have hfront : inside' ++ ['"'] = '"' :: back := hbehind
          rw [hcs, ← List.singleton_append, ← List.append_assoc, hfront, List.cons_append]
        have hback : back = [] := by
          by_contra hne
          cases hclosed.mpr hne
        exact iff_of_false (fun hlast => hc (Option.some.inj hlast)) (not_not_intro hback)
      | cons e front => simpa using hclosed

/-- The symbol at the front of a text is written as it is. -/
theorem exists_word_symbol {kind : TokenKind} (h : (symbol c cs).kind = .token kind) :
    ∃ w : Word, w.kind = kind ∧ w.text = (symbol c cs).taken := by
  unfold symbol at h ⊢
  split at h
  · next s hpair =>
    cases h
    obtain ⟨d, hd, hs⟩ := Option.bind_eq_some_iff.mp hpair
    obtain ⟨rest, rfl⟩ := List.head?_eq_some_iff.mp hd
    refine ⟨.symbol s, rfl, ?_⟩
    unfold Symbol.ofPair? at hs
    split at hs <;> cases hs <;> rfl
  · split at h
    · next s hs =>
      cases h
      refine ⟨.symbol s, rfl, ?_⟩
      unfold Symbol.ofChar? at hs
      split at hs <;> cases hs <;> rfl
    · cases h

theorem exists_word_word {kind : TokenKind} (hstart : isWordStart c = true)
    (h : (word (c :: cs)).kind = .token kind) :
    ∃ w : Word, w.kind = kind ∧ w.text = (word (c :: cs)).taken := by
  unfold word at h ⊢
  dsimp only at h ⊢
  rw [List.takeWhile_cons_of_pos (isWordCharacter_of_isWordStart hstart)] at h ⊢
  split at h
  · next k hk =>
    cases h
    exact ⟨.keyword k, rfl, by rw [Word.text, Keyword.text_of_ofText? hk, String.toList_ofList]⟩
  · next hfree =>
    cases h
    exact ⟨.identifier ⟨c, _, hstart, List.all_eq_true.mp List.all_takeWhile, hfree⟩, rfl, rfl⟩

theorem exists_word_string {kind : TokenKind} (h : (string cs).kind = .token kind) :
    ∃ w : Word, w.kind = kind ∧ w.text = (string cs).taken := by
  unfold string at h ⊢
  split at h
  · next inside rest hinside =>
    cases h
    exact ⟨.string ⟨inside, closed_of_stringContents? hinside⟩, rfl, rfl⟩
  · cases h

/-! ### Numbers -/

theorem kind_of_finishNumber {base : Base} {value : Numeral} {taken rest : List Char}
    {kind : TokenKind} (h : (finishNumber base value taken rest).kind = .token kind) :
    kind = .number value := by
  unfold finishNumber at h
  split at h
  · split at h <;> cases h
    rfl
  · cases h
    rfl

theorem exists_word_radixNumber {base : Base} {marker : Char}
    (hmarker : Base.ofMarker? marker = some base) {kind : TokenKind}
    (h : (radixNumber base ['0', marker] cs).kind = .token kind) :
    ∃ w : Word, w.kind = kind ∧ w.text = (radixNumber base ['0', marker] cs).taken := by
  rw [radixNumber_taken]
  unfold radixNumber at h
  dsimp only at h
  split at h
  · split at h
    · cases h
    · next hdigits =>
      cases kind_of_finishNumber h
      exact ⟨.marked base marker hmarker ⟨cs.takeWhile (Number.isDigitIn base.radix),
        fun hempty => hdigits (List.isEmpty_iff.mpr hempty),
        List.all_eq_true.mp List.all_takeWhile⟩, rfl, rfl⟩
  · next hkind => exact absurd h (hkind _)

/-- Digits that may be missing. -/
theorem exists_digits {ds : List Char} (h : ∀ c ∈ ds, c.isDigit = true) :
    ∃ digits : Option (Digits .decimal), (digits.map Digits.text).getD [] = ds := by
  by_cases hempty : ds = []
  · exact ⟨none, hempty.symm⟩
  · exact ⟨some ⟨ds, hempty, fun c hc => (isDigitIn_decimal c).trans (h c hc)⟩, rfl⟩

theorem isDigit_fractionPart (cs : List Char) : ∀ c ∈ (fractionPart cs).1, c.isDigit = true := by
  unfold fractionPart
  split
  · split
    · next hd =>
      exact List.forall_mem_cons.mpr ⟨hd, List.all_eq_true.mp List.all_takeWhile⟩
    · exact fun c hc => by cases hc
  · exact fun c hc => by cases hc

/-- An exponent marker and the digits behind it are an exponent. -/
theorem exists_exponent {marker rest digits : List Char}
    (h : exponentMarker cs = some (marker, rest)) (hne : digits ≠ [])
    (hdigits : ∀ c ∈ digits, c.isDigit = true) :
    ∃ exponent : Exponent, exponent.text = marker ++ digits ∧ exponent.value =
      if marker.contains '-' then -(Number.digitsValue 10 digits : Int)
      else Number.digitsValue 10 digits := by
  obtain ⟨letter, hletter, sign, rfl⟩ :
      ∃ letter, (letter = 'e' ∨ letter = 'E') ∧ ∃ sign : Sign, marker = letter :: sign.text := by
    unfold exponentMarker at h
    split at h
    · next letter _ =>
      split at h
      · next hletter =>
        split at h <;> cases h
        · exact ⟨letter, hletter, .plus, rfl⟩
        · exact ⟨letter, hletter, .minus, rfl⟩
        · exact ⟨letter, hletter, .none, rfl⟩
      · cases h
    · cases h
  let exponent : Exponent := ⟨letter, hletter, sign, digits, hne,
    fun d hd => (isDigitIn_decimal d).trans (hdigits d hd)⟩
  exact ⟨exponent, rfl, (exponent_value exponent).symm⟩

theorem exists_word_decimalNumber (hdigit : c.isDigit = true) {kind : TokenKind}
    (h : (decimalNumber (c :: cs)).kind = .token kind) :
    ∃ w : Word, w.kind = kind ∧ w.text = (decimalNumber (c :: cs)).taken := by
  have hrun (cs : List Char) : ∀ c ∈ cs.takeWhile Char.isDigit, c.isDigit = true :=
    List.all_eq_true.mp List.all_takeWhile
  have hfirst : ∀ d ∈ c :: cs.takeWhile Char.isDigit, d.isDigit = true :=
    List.forall_mem_cons.mpr ⟨hdigit, hrun cs⟩
  obtain ⟨whole, hwhole⟩ : ∃ whole : Digits .decimal, whole.text = (c :: cs).takeWhile Char.isDigit :=
    ⟨⟨c :: cs.takeWhile Char.isDigit, List.cons_ne_nil _ _, fun d hd =>
      (isDigitIn_decimal d).trans (hfirst d hd)⟩, (List.takeWhile_cons_of_pos hdigit).symm⟩
  obtain ⟨fraction, hfraction⟩ :=
    exists_digits (isDigit_fractionPart ((c :: cs).dropWhile Char.isDigit))
  unfold decimalNumber at h ⊢
  generalize fractionPart ((c :: cs).dropWhile Char.isDigit) = behind at hfraction h ⊢
  obtain ⟨ds, after⟩ := behind
  dsimp only at hfraction
  rw [← hwhole, ← hfraction] at h ⊢
  simp only [pointed_text] at h ⊢
  split at h
  · cases kind_of_finishNumber h
    refine ⟨.decimal whole fraction none, ?_, ?_⟩
    · cases fraction with
      | none => rfl
      | some digits => simp [Word.kind, Word.decimalValue, digits.nonempty]
    · rw [finishNumber_taken]
      exact congrArg (whole.text ++ ·) (List.append_nil _)
  · next marker afterMarker hexponent =>
    split at h
    · cases h
    · next hdigits =>
      obtain ⟨exponent, htext, hvalue⟩ := exists_exponent hexponent
        (fun hempty => hdigits (List.isEmpty_iff.mpr hempty)) (hrun afterMarker)
      cases kind_of_finishNumber h
      rw [if_neg hdigits, ← hvalue, finishNumber_taken]
      refine ⟨.decimal whole fraction (some exponent), ?_, ?_⟩
      · cases fraction <;> rfl
      · simp only [Word.text, Option.map_some, Option.getD_some, htext, List.append_assoc]

theorem exists_word_number (hdigit : c.isDigit = true) {kind : TokenKind}
    (h : (number c cs).kind = .token kind) :
    ∃ w : Word, w.kind = kind ∧ w.text = (number c cs).taken := by
  unfold number at h ⊢
  split at h
  · split at h
    · next hmarker => exact exists_word_radixNumber hmarker h
    · exact exists_word_decimalNumber hdigit h
  · exact exists_word_decimalNumber hdigit h

/-- Every token is a legal lexeme. -/
theorem exists_word {kind : TokenKind} (h : (read c cs).kind = .token kind) :
    ∃ w : Word, w.kind = kind ∧ w.text = (read c cs).taken := by
  have hbranch := branch_read c cs
  generalize read c cs = lexeme at h hbranch
  cases hbranch with
  | space => cases h
  | string => exact exists_word_string h
  | number hdigit => exact exists_word_number hdigit h
  | word hstart => exact exists_word_word hstart h
  | lineComment => cases h
  | blockComment rest =>
    unfold blockComment at h
    split at h <;> cases h
  | symbol => exact exists_word_symbol h

end Lexeme

/-! ## Numbers have no sign -/

/-- A number that is no less than zero. -/
def Numeral.IsUnsigned : Numeral → Prop
  | .int n => 0 ≤ n.toInt
  | .float x => (Number.Binary64.ofFloat x).isUnsigned = true

open Lexeme (maxInteger)

theorem Numeral.isUnsigned_ofNat {n : Nat} (h : n ≤ maxInteger) :
    IsUnsigned (.int (Int64.ofNat n)) := by
  rw [IsUnsigned, Int64.toInt_ofNat_of_lt (Nat.lt_succ_of_le h)]
  exact Int.natCast_nonneg n

theorem Lexeme.isUnsigned_wholeValue (digits : List Char) : (wholeValue digits).IsUnsigned := by
  unfold wholeValue
  dsimp only
  split
  · next h => exact Numeral.isUnsigned_ofNat h
  · exact Number.isUnsigned_nearest _ _

namespace Word

theorem isUnsigned_decimalValue (whole : Digits .decimal) (fraction : Option (Digits .decimal))
    (exponent : Option Exponent) : (decimalValue whole fraction exponent).IsUnsigned := by
  unfold decimalValue
  split
  · exact Lexeme.isUnsigned_wholeValue _
  · exact Number.isUnsigned_nearest _ _

theorem isUnsigned_radixValue {base : Base} (hbase : base ≠ .decimal) (digits : Digits base) :
    (Lexeme.radixValue base digits.text).IsUnsigned := by
  rcases Nat.lt_or_ge maxInteger (Number.digitsValue base.radix digits.text) with hlarge | hsmall
  · rw [digits.radixValue_of_large hbase rfl hlarge]
    exact (Number.isNearest_ofNat _).isUnsigned (one_le_kept hbase hlarge)
  · rw [Lexeme.radixValue, if_pos hsmall]
    exact Numeral.isUnsigned_ofNat hsmall

/-- A minus is a token of its own. -/
theorem isUnsigned {w : Word} {value : Numeral} (h : w.kind = .number value) :
    value.IsUnsigned := by
  cases w with
  | decimal whole fraction exponent =>
    cases h
    exact isUnsigned_decimalValue whole fraction exponent
  | marked base marker hmarker digits =>
    cases h
    refine isUnsigned_radixValue (fun hbase => ?_) digits
    exact Base.ofMarker?_ne_decimal marker (hbase ▸ hmarker)
  | _ => cases h

end Word

/-! ## Tokens -/

namespace Token

/-- A token is a lexeme, wherever it stands. -/
structure Reads (t : Token) (w : Word) : Prop where
  kind : t.kind = w.kind
  text : t.lexeme.toList = w.text

/-- Tokens are the end of the source or lexemes. -/
def Legible (t : Token) : Prop :=
  t.kind.isEof = true ∨ ∃ w, t.Reads w

end Token

/-- The tokens of a source are lexemes. -/
theorem legible_scan (source : String) : ∀ t ∈ (scan source).1, t.Legible := by
  intro t ht
  rcases read_of_mem_scan ht with hend | ⟨c, rest, hkind, htext⟩
  · exact .inl (by rw [hend]; rfl)
  · obtain ⟨w, hw, hwtext⟩ := Lexeme.exists_word hkind
    exact .inr ⟨w, hw.symm, by rw [← htext, String.toList_ofList, hwtext]⟩

end LoxLang
