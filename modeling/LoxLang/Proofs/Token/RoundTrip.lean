import LoxLang.Proofs.Token.Reading

/-!
# Scanning what has been written

A legal lexeme is written as the text that its data say, and a separator begins with white space
and goes on with white space and comments. A list of lexemes, each with a separator behind it, scans
to just these lexemes (`scan_written`): the white space ends a lexeme wherever a longer one could
have begun (`Lexeme.readsAs_text`).
-/

namespace LoxLang

/-! ## Lexemes as they are written -/

/-- Digits of a base, at least one. -/
structure Digits (base : Base) where
  text : List Char
  nonempty : text ≠ []
  digits : ∀ c ∈ text, Number.isDigitIn base.radix c = true

inductive Sign
  | none | plus | minus
  deriving DecidableEq, Repr

def Sign.text : Sign → List Char
  | none => []
  | plus => ['+']
  | minus => ['-']

/-- The exponent of a decimal number. -/
structure Exponent where
  letter : Char
  isLetter : letter = 'e' ∨ letter = 'E'
  sign : Sign
  digits : Digits .decimal

def Exponent.text (exponent : Exponent) : List Char :=
  exponent.letter :: (exponent.sign.text ++ exponent.digits.text)

def Exponent.value (exponent : Exponent) : Int :=
  let size : Int := Number.digitsValue 10 exponent.digits.text
  if exponent.sign = .minus then -size else size

/-- A letter that is no keyword alone, with letters and digits behind it. -/
structure Identifier where
  first : Char
  others : List Char
  start : Lexeme.isWordStart first = true
  within : ∀ c ∈ others, Lexeme.isWordCharacter c = true
  free : Keyword.ofText? (String.ofList (first :: others)) = none

/-- The contents of a string. Of the quotes behind the opening one the closing quote is the first
that does not follow a backslash. -/
structure Contents where
  text : List Char
  closed : ∀ front back, text ++ ['"'] = front ++ '"' :: back →
    (front.getLast? = some '\\' ↔ back ≠ [])

/-- The legal lexemes. -/
inductive Word
  | symbol (s : Symbol)
  | keyword (k : Keyword)
  | identifier (name : Identifier)
  | decimal (whole : Digits .decimal) (fraction : Option (Digits .decimal))
    (exponent : Option Exponent)
  | marked (base : Base) (marker : Char) (h : Base.ofMarker? marker = some base)
    (digits : Digits base)
  | string (contents : Contents)

namespace Word

def text : Word → List Char
  | symbol s => s.text.toList
  | keyword k => k.text.toList
  | identifier name => name.first :: name.others
  | decimal whole fraction exponent =>
    whole.text ++ ((fraction.map fun digits => '.' :: digits.text).getD [] ++
      (exponent.map Exponent.text).getD [])
  | marked _ marker _ digits => '0' :: marker :: digits.text
  | string contents => '"' :: (contents.text ++ ['"'])

/-- Digits alone are an integer; with a fraction or an exponent they are a binary64 number. -/
def decimalValue (whole : Digits .decimal) : Option (Digits .decimal) → Option Exponent → Numeral
  | none, none => Lexeme.wholeValue whole.text
  | fraction, exponent => .float (Number.DecimalParts.toFloat
    ⟨whole.text, (fraction.map Digits.text).getD [], (exponent.map Exponent.value).getD 0⟩)

def kind : Word → TokenKind
  | symbol s => .symbol s
  | keyword k => .keyword k
  | identifier _ => .identifier
  | decimal whole fraction exponent => .number (decimalValue whole fraction exponent)
  | marked base _ _ digits => .number (Lexeme.radixValue base digits.text)
  | string contents => .string (String.ofList contents.text)

end Word

/-- White space and comments: comments to the end of a line with that end, and closed ones. -/
inductive Filler : List Char → Prop
  | nil : Filler []
  | space {c : Char} {cs : List Char} (h : Lexeme.IsSpace c) (rest : Filler cs) : Filler (c :: cs)
  | lineComment {inside cs : List Char} (within : '\n' ∉ inside) (rest : Filler cs) :
    Filler ('/' :: '/' :: (inside ++ '\n' :: cs))
  | blockComment {inside cs : List Char}
    (first : ∀ front back, inside ++ ['*', '/'] = front ++ '*' :: '/' :: back → back = [])
    (rest : Filler cs) : Filler ('/' :: '*' :: (inside ++ '*' :: '/' :: cs))

structure Separator where
  first : Char
  others : List Char
  space : Lexeme.IsSpace first
  filler : Filler others

def Separator.text (separator : Separator) : List Char :=
  separator.first :: separator.others

/-- Lexemes, each with a separator behind it. -/
def written (words : List (Word × Separator)) : List Char :=
  words.flatMap fun (word, separator) => word.text ++ separator.text

/-! ## Reading a lexeme -/

theorem Digits.exists_cons {base : Base} (digits : Digits base) :
    ∃ d others, digits.text = d :: others ∧ Number.isDigitIn base.radix d = true := by
  obtain ⟨text, hnonempty, hdigits⟩ := digits
  obtain ⟨d, others, rfl⟩ := List.exists_cons_of_ne_nil hnonempty
  exact ⟨d, others, rfl, hdigits d (List.mem_cons_self ..)⟩

theorem isDigitIn_decimal (c : Char) : Number.isDigitIn Base.decimal.radix c = c.isDigit := by
  unfold Number.isDigitIn Number.digitValue Base.radix
  cases hdigit : c.isDigit with
  | true =>
    simp [Char.isDigit, UInt32.le_iff_toNat_le] at hdigit ⊢
    omega
  | false =>
    simp only [Bool.false_eq_true, if_false, decide_eq_false_iff_not, Nat.not_lt]
    split
    · omega
    · split <;> omega

theorem Digits.isDigit (digits : Digits .decimal) : ∀ c ∈ digits.text, c.isDigit = true :=
  fun c hc => isDigitIn_decimal c ▸ digits.digits c hc

namespace Lexeme

variable {c : Char} {cs rest : List Char}

/-- A run of characters is taken up to the first other one. -/
theorem takeWhile_run {p : Char → Bool} (run rest : List Char) (hrun : ∀ c ∈ run, p c = true)
    (hrest : ∀ c ∈ rest.head?, p c = false) :
    (run ++ rest).takeWhile p = run ∧ (run ++ rest).dropWhile p = rest := by
  rw [List.takeWhile_append_of_pos hrun, List.dropWhile_append_of_pos hrun]
  cases rest with
  | nil => simp
  | cons c rest => simp [hrest c rfl]

theorem IsSpace.not_wordCharacter (h : IsSpace c) : isWordCharacter c = false := by
  rcases h with rfl | rfl | rfl | rfl <;> rfl

/-- A number in front of this text is complete. -/
def Completes (rest : List Char) : Prop :=
  ∀ c ∈ rest.head?, isWordCharacter c = false ∧ c ≠ '.'

theorem IsSpace.completes (h : IsSpace c) (rest : List Char) : Completes (c :: rest) := by
  rintro d hd
  obtain rfl : c = d := Option.some.inj hd
  refine ⟨h.not_wordCharacter, ?_⟩
  rcases h with rfl | rfl | rfl | rfl <;> decide

/-- The digits of all bases are letters and digits. -/
theorem not_isDigitIn (h : isWordCharacter c = false) (base : Base) :
    Number.isDigitIn base.radix c = false := by
  have hvalue : Number.digitValue c = 36 := by
    simp only [isWordCharacter, Char.isAlphanum, Bool.or_eq_false_iff] at h
    obtain ⟨⟨hletter, hdigit⟩, -⟩ := h
    have hcase : (c.isUpper || c.isLower) = false := hletter
    obtain ⟨hupper, hlower⟩ := Bool.or_eq_false_iff.mp hcase
    have hlower' : ¬('a' ≤ c ∧ c ≤ 'z') := fun hc =>
      Bool.false_ne_true (hlower.symm.trans ((Bool.and_eq_true ..).mpr
        ⟨decide_eq_true hc.1, decide_eq_true hc.2⟩))
    have hupper' : ¬('A' ≤ c ∧ c ≤ 'Z') := fun hc =>
      Bool.false_ne_true (hupper.symm.trans (decide_eq_true hc))
    rw [Number.digitValue, hdigit, if_neg Bool.false_ne_true, if_neg hlower', if_neg hupper']
  rw [Number.isDigitIn, hvalue]
  cases base <;> rfl

/-- Up to white space, the text is read as one token of this kind. -/
def ReadsAs (text : List Char) (kind : TokenKind) : Prop :=
  ∀ c rest, IsSpace c → ∃ first others, text = first :: others ∧
    read first (others ++ c :: rest) = ⟨.token kind, text, c :: rest⟩

theorem readsAs_symbol (s : Symbol) : ReadsAs s.text.toList (.symbol s) := by
  intro c rest hc
  rcases hc with rfl | rfl | rfl | rfl <;> cases s <;> exact ⟨_, _, rfl, rfl⟩

/-! ### Words -/

theorem not_isDigit_of_isWordStart (h : isWordStart c = true) : ¬c.isDigit = true := by
  intro hdigit
  have hlast : c.val ≤ '9'.val := of_decide_eq_true ((Bool.and_eq_true ..).mp hdigit).2
  rcases (Bool.or_eq_true ..).mp h with h | h
  · rcases (Bool.or_eq_true ..).mp h with hupper | hlower
    · have hfirst : 'A'.val ≤ c.val := (of_decide_eq_true hupper).1
      exact absurd (UInt32.le_trans hfirst hlast) (by decide)
    · have hfirst : 'a'.val ≤ c.val := of_decide_eq_true ((Bool.and_eq_true ..).mp hlower).1
      exact absurd (UInt32.le_trans hfirst hlast) (by decide)
  · obtain rfl := of_decide_eq_true h
    cases hdigit

theorem read_of_isWordStart (h : isWordStart c = true) : read c cs = word (c :: cs) := by
  have hspace : ¬IsSpace c := by
    rintro (rfl | rfl | rfl | rfl) <;> cases h
  have hquote : c ≠ '"' := by
    rintro rfl
    cases h
  exact (if_neg hspace).trans ((if_neg hquote).trans
    ((if_neg (not_isDigit_of_isWordStart h)).trans (if_pos h)))

theorem readsAs_word {first : Char} {others : List Char} {k? : Option Keyword}
    (hfirst : isWordStart first = true) (hothers : ∀ c ∈ others, isWordCharacter c = true)
    (hkeyword : Keyword.ofText? (String.ofList (first :: others)) = k?) :
    ReadsAs (first :: others) ((k?.map .keyword).getD .identifier) := by
  intro c rest hc
  refine ⟨first, others, rfl, ?_⟩
  obtain ⟨htaken, hrest⟩ := takeWhile_run (first :: others) (c :: rest)
    (List.forall_mem_cons.mpr ⟨isWordCharacter_of_isWordStart hfirst, hothers⟩)
    fun d hd => Option.some.inj hd ▸ hc.not_wordCharacter
  rw [read_of_isWordStart hfirst, ← List.cons_append, word, htaken, hrest, hkeyword]
  cases k? <;> rfl

theorem readsAs_keyword (k : Keyword) : ReadsAs k.text.toList (.keyword k) := by
  have hword : ∃ first others, k.text.toList = first :: others ∧ isWordStart first = true ∧
      ∀ c ∈ others, isWordCharacter c = true := by
    cases k <;> exact ⟨_, _, rfl, rfl, List.all_eq_true.mp rfl⟩
  have hself : Keyword.ofText? (String.ofList k.text.toList) = some k := by
    cases k <;> decide
  obtain ⟨first, others, htext, hfirst, hothers⟩ := hword
  rw [htext] at hself ⊢
  exact readsAs_word hfirst hothers hself

theorem readsAs_identifier (name : Identifier) :
    ReadsAs (name.first :: name.others) .identifier :=
  readsAs_word name.start name.within name.free

/-! ### Strings -/

/-- Behind a closed text the closing quote is found. -/
theorem stringContents?_append {text : List Char}
    (h : ∀ front back, text ++ ['"'] = front ++ '"' :: back →
      (front.getLast? = some '\\' ↔ back ≠ [])) :
    stringContents? (text ++ '"' :: rest) = some (text, rest) := by
  induction text using stringContents?.induct with
  | case1 => rfl
  | case2 text =>
    -- the quote at the front follows no backslash, and yet it is not the last character
    have hfirst := (h [] (text ++ ['"']) rfl).mpr (by simp)
    cases hfirst
  | case3 text ih =>
    rw [List.cons_append, List.cons_append, stringContents?, ih, Option.map_some]
    intro front back htext
    rw [← h ('\\' :: '"' :: front) back (by rw [List.cons_append, List.cons_append, htext]; rfl)]
    cases front with
    | nil => decide
    | cons d front => simp
  | case4 c text hquote hescape ih =>
    -- a backslash in front of the rest has a character behind it that is no quote
    have hbehind : c = '\\' → ∃ d others, text = d :: others ∧ d ≠ '"' := by
      rintro rfl
      cases text with
      | nil => exact absurd rfl ((h ['\\'] [] rfl).mp rfl)
      | cons d text => exact ⟨d, text, rfl, fun hd => hescape text rfl (hd ▸ rfl)⟩
    have hescape' : ∀ cs, c = '\\' → text ++ '"' :: rest = '"' :: cs → False := by
      intro cs hc htext
      obtain ⟨d, others, rfl, hd⟩ := hbehind hc
      exact hd (List.cons_eq_cons.mp htext).1
    rw [List.cons_append, stringContents?.eq_4 _ _ hquote hescape', ih, Option.map_some]
    intro front back htext
    rw [← h (c :: front) back (by rw [List.cons_append, htext]; rfl)]
    cases front with
    | nil =>
      have hc : c ≠ '\\' := by
        intro hc
        obtain ⟨d, others, rfl, hd⟩ := hbehind hc
        exact hd (List.cons_eq_cons.mp htext).1
      simp [hc]
    | cons d front => simp

theorem readsAs_string (contents : Contents) :
    ReadsAs ('"' :: (contents.text ++ ['"'])) (.string (String.ofList contents.text)) := by
  intro c rest hc
  refine ⟨'"', contents.text ++ ['"'], rfl, ?_⟩
  have hread (cs : List Char) : read '"' cs = string cs := rfl
  rw [hread, List.append_assoc, List.singleton_append, string,
    stringContents?_append contents.closed]

/-! ### Comments -/

/-- The first end mark is found. -/
theorem blockComment?_append {inside : List Char}
    (h : ∀ front back, inside ++ ['*', '/'] = front ++ '*' :: '/' :: back → back = []) :
    blockComment? (inside ++ '*' :: '/' :: rest) = some (inside ++ ['*', '/'], rest) := by
  induction inside with
  | nil => rfl
  | cons c inside ih =>
    have hclose : ∀ cs, c = '*' → inside ++ '*' :: '/' :: rest = '/' :: cs → False := by
      rintro cs rfl hinside
      cases inside with
      | nil => cases hinside
      | cons d inside =>
        obtain ⟨rfl, -⟩ := List.cons_eq_cons.mp hinside
        have hempty := h [] (inside ++ ['*', '/']) rfl
        simp at hempty
    have hinside := ih fun front back hfront =>
      h (c :: front) back (by rw [List.cons_append, hfront]; rfl)
    rw [List.cons_append, blockComment?.eq_3 _ _ hclose, hinside, Option.map_some]
    rfl

/-! ### Numbers -/

theorem read_of_isDigit (h : c.isDigit = true) : read c cs = number c cs := by
  have hspace : ¬IsSpace c := by
    rintro (rfl | rfl | rfl | rfl) <;> cases h
  have hquote : c ≠ '"' := by
    rintro rfl
    cases h
  exact (if_neg hspace).trans ((if_neg hquote).trans (if_pos h))

/-- A text is read as one number, wherever it is complete. -/
def ReadsAsNumber (text : List Char) (value : Numeral) : Prop :=
  ∀ rest, Completes rest → ∃ first others, text = first :: others ∧
    read first (others ++ rest) = ⟨.token (.number value), text, rest⟩

theorem ReadsAsNumber.readsAs {text : List Char} {value : Numeral} (h : ReadsAsNumber text value) :
    ReadsAs text (.number value) :=
  fun c rest hc => h (c :: rest) (hc.completes rest)

theorem Completes.finishNumber (h : Completes rest) (base : Base) (value : Numeral)
    (taken : List Char) :
    finishNumber base value taken rest = ⟨.token (.number value), taken, rest⟩ := by
  cases rest with
  | nil => rfl
  | cons c rest => simp [Lexeme.finishNumber, h c rfl]

theorem readsAsNumber_marked {base : Base} {marker : Char} (hmarker : Base.ofMarker? marker = some base)
    (digits : Digits base) :
    ReadsAsNumber ('0' :: marker :: digits.text) (radixValue base digits.text) := by
  intro rest hrest
  refine ⟨'0', marker :: digits.text, rfl, ?_⟩
  obtain ⟨htaken, hbehind⟩ := takeWhile_run _ rest digits.digits fun c hc => not_isDigitIn (hrest c hc).1 base
  have hdigits : digits.text.isEmpty = false :=
    List.isEmpty_eq_false_iff.mpr digits.nonempty
  rw [read_of_isDigit rfl, List.cons_append, number, hmarker]
  simp only [radixNumber, htaken, hbehind, hrest.finishNumber, hdigits, Bool.false_eq_true,
    if_false]
  rfl

/-- What may stand behind the digits of a decimal number is no digit and no base marker. -/
structure EndsDigits (cs : List Char) : Prop where
  digit : ∀ c ∈ cs.head?, c.isDigit = false
  marker : ∀ c ∈ cs.head?, Base.ofMarker? c = none

/-- What may stand behind the digits of a fraction is no point either. -/
structure EndsFraction (cs : List Char) : Prop extends EndsDigits cs where
  point : ∀ c ∈ cs.head?, c ≠ '.'

theorem EndsFraction.cons (hdigit : c.isDigit = false) (hmarker : Base.ofMarker? c = none)
    (hpoint : c ≠ '.') : EndsFraction (c :: rest) :=
  ⟨⟨fun _ h => Option.some.inj h ▸ hdigit, fun _ h => Option.some.inj h ▸ hmarker⟩,
    fun _ h => Option.some.inj h ▸ hpoint⟩

theorem Completes.endsFraction (h : Completes rest) : EndsFraction rest where
  digit c hc := isDigitIn_decimal c ▸ not_isDigitIn (h c hc).1 .decimal
  marker c hc := by
    have hword := (h c hc).1
    unfold Base.ofMarker?
    split
    all_goals first | rfl | cases hword
  point c hc := (h c hc).2

theorem endsFraction_exponent (exponent : Option Exponent) (h : EndsFraction rest) :
    EndsFraction ((exponent.map Exponent.text).getD [] ++ rest) := by
  cases exponent with
  | none => exact h
  | some exponent =>
    have hends (hletter : exponent.letter = 'e' ∨ exponent.letter = 'E') :
        EndsFraction (exponent.letter :: (exponent.sign.text ++ exponent.digits.text ++ rest)) := by
      rcases hletter with hletter | hletter <;> rw [hletter] <;> exact .cons rfl rfl (by decide)
    exact hends exponent.isLetter

theorem endsDigits_fraction (fraction : Option (Digits .decimal)) (h : EndsFraction rest) :
    EndsDigits ((fraction.map fun digits => '.' :: digits.text).getD [] ++ rest) := by
  cases fraction with
  | none => exact h.toEndsDigits
  | some digits =>
    exact ⟨fun _ h => Option.some.inj h ▸ rfl, fun _ h => Option.some.inj h ▸ rfl⟩

theorem fractionPart_text (fraction : Option (Digits .decimal)) (h : EndsFraction rest) :
    fractionPart ((fraction.map fun digits => '.' :: digits.text).getD [] ++ rest) =
      ((fraction.map Digits.text).getD [], rest) := by
  cases fraction with
  | none =>
    rcases fractionPart_eq_or rest with hrest | ⟨d, rest', rfl, -⟩
    · exact hrest rest (List.prefix_refl _)
    · exact absurd rfl (h.point '.' rfl)
  | some digits =>
    obtain ⟨d, others, htext, hd⟩ := digits.exists_cons
    rw [isDigitIn_decimal] at hd
    have hdigits := digits.isDigit
    rw [htext] at hdigits
    obtain ⟨htaken, hrest⟩ := takeWhile_run _ _ (List.forall_mem_cons.mp hdigits).2 h.digit
    simp only [Option.map_some, Option.getD_some, htext, List.cons_append, fractionPart, hd,
      if_true, htaken, hrest]

theorem pointed_text (fraction : Option (Digits .decimal)) :
    pointed ((fraction.map Digits.text).getD []) =
      (fraction.map fun digits => '.' :: digits.text).getD [] := by
  cases fraction with
  | none => rfl
  | some digits => exact if_neg (by simp [digits.nonempty])

theorem exponentMarker_text (exponent : Exponent) :
    exponentMarker (exponent.text ++ rest) =
      some (exponent.letter :: exponent.sign.text, exponent.digits.text ++ rest) := by
  obtain ⟨letter, hletter, sign, digits⟩ := exponent
  obtain ⟨d, others, htext, hd⟩ := digits.exists_cons
  simp only [Exponent.text, exponentMarker, List.cons_append, hletter, if_true]
  cases sign with
  | plus => rfl
  | minus => rfl
  | none =>
    simp only [Sign.text, List.nil_append, htext, List.cons_append]
    split
    · next h =>
      obtain ⟨rfl, -⟩ := List.cons_eq_cons.mp h
      cases hd
    · next h =>
      obtain ⟨rfl, -⟩ := List.cons_eq_cons.mp h
      cases hd
    · rfl

theorem Completes.exponentMarker (h : Completes rest) : exponentMarker rest = none := by
  cases rest with
  | nil => rfl
  | cons c rest =>
    refine if_neg ?_
    rintro (rfl | rfl) <;> cases (h _ rfl).1

theorem exponent_value (exponent : Exponent) :
    (if (exponent.letter :: exponent.sign.text).contains '-' then
      -(Number.digitsValue 10 exponent.digits.text : Int)
      else Number.digitsValue 10 exponent.digits.text) = exponent.value := by
  obtain ⟨letter, rfl | rfl, sign, digits⟩ := exponent <;> cases sign <;> rfl

theorem decimalNumber_text (hrest : Completes rest) (whole : Digits .decimal)
    (fraction : Option (Digits .decimal)) (exponent : Option Exponent) :
    decimalNumber ((Word.decimal whole fraction exponent).text ++ rest) =
      ⟨.token (Word.decimal whole fraction exponent).kind,
        (Word.decimal whole fraction exponent).text, rest⟩ := by
  have hends : EndsFraction ((exponent.map Exponent.text).getD [] ++ rest) :=
    endsFraction_exponent exponent hrest.endsFraction
  obtain ⟨htaken, hbehind⟩ := takeWhile_run _ _ whole.isDigit (endsDigits_fraction fraction hends).digit
  have hfraction := fractionPart_text fraction hends
  simp only [Word.text, Word.kind, List.append_assoc, decimalNumber, htaken, hbehind, hfraction,
    pointed_text]
  cases exponent with
  | none =>
    simp only [Option.map_none, Option.getD_none, List.nil_append, hrest.exponentMarker,
      hrest.finishNumber, List.append_nil]
    cases fraction with
    | none => rfl
    | some digits => simp [digits.nonempty, Word.decimalValue]
  | some exponent =>
    obtain ⟨hdigits, hbehind⟩ := takeWhile_run _ rest exponent.digits.isDigit
      hrest.endsFraction.digit
    have hnonempty : exponent.digits.text.isEmpty = false :=
      List.isEmpty_eq_false_iff.mpr exponent.digits.nonempty
    simp only [Option.map_some, Option.getD_some, exponentMarker_text, hdigits, hbehind, hnonempty,
      Bool.false_eq_true, if_false, exponent_value, hrest.finishNumber]
    cases fraction <;> simp [Word.decimalValue, Exponent.text]

theorem readsAsNumber_decimal (whole : Digits .decimal) (fraction : Option (Digits .decimal))
    (exponent : Option Exponent) : ReadsAsNumber (Word.decimal whole fraction exponent).text
      (Word.decimalValue whole fraction exponent) := by
  intro rest hrest
  obtain ⟨d, others, hwhole, hd⟩ := whole.exists_cons
  rw [isDigitIn_decimal] at hd
  have hends := endsDigits_fraction fraction (endsFraction_exponent exponent hrest.endsFraction)
  refine ⟨d, others ++ ((fraction.map fun digits => '.' :: digits.text).getD [] ++
    (exponent.map Exponent.text).getD []), by rw [Word.text, hwhole]; rfl, ?_⟩
  rw [read_of_isDigit hd, number_of_unmarked]
  · have hnumber := decimalNumber_text hrest whole fraction exponent
    simpa only [Word.text, Word.kind, hwhole, List.cons_append] using hnumber
  · rintro marker rest' - hrest'
    cases others with
    | nil =>
      refine hends.marker marker ?_
      rw [List.nil_append, List.append_assoc] at hrest'
      rw [hrest']
      rfl
    | cons e others =>
      obtain ⟨rfl, -⟩ := List.cons_eq_cons.mp hrest'
      have he : e.isDigit = true := whole.isDigit e (by simp [hwhole])
      unfold Base.ofMarker?
      split
      all_goals first | rfl | cases he

theorem readsAs_text (word : Word) : ReadsAs word.text word.kind := by
  cases word with
  | symbol s => exact readsAs_symbol s
  | keyword k => exact readsAs_keyword k
  | identifier name => exact readsAs_identifier name
  | decimal whole fraction exponent => exact (readsAsNumber_decimal whole fraction exponent).readsAs
  | marked base marker hmarker digits => exact (readsAsNumber_marked hmarker digits).readsAs
  | string contents => exact readsAs_string contents

end Lexeme

/-! ## Scanning -/

namespace Scanned

/-- Wherever it stands, a text scans to tokens of these kinds and texts, and to no fault. -/
def ScansTo (cs : List Char) (words : List (TokenKind × List Char)) : Prop :=
  ∀ fuel offset line, cs.length ≤ fuel → ∃ tokens, Gives (ofChars fuel offset line cs) tokens ∧
    tokens.map (fun t => (t.kind, t.lexeme.toList)) = words

variable {c : Char} {cs taken rest : List Char} {words : List (TokenKind × List Char)}

theorem scansTo_nil : ScansTo [] [(.eof, [])] :=
  fun _ _ _ _ => ⟨_, gives_nil, rfl⟩

theorem ScansTo.skipped (h : ScansTo rest words)
    (hread : Lexeme.read c cs = ⟨.skipped, taken, rest⟩) : ScansTo (c :: cs) words := by
  intro fuel offset line hfuel
  cases fuel with
  | zero => cases hfuel
  | succ fuel =>
    have hshorter := hread ▸ (Lexeme.parts_read c cs).length_rest_lt
    obtain ⟨tokens, hgives, hwords⟩ :=
      h fuel _ _ (Nat.le_of_lt_succ (Nat.lt_of_lt_of_le hshorter hfuel))
    exact ⟨tokens, hgives.of_skipped hread, hwords⟩

theorem ScansTo.token {kind : TokenKind} (h : ScansTo rest words)
    (hread : Lexeme.read c cs = ⟨.token kind, taken, rest⟩) :
    ScansTo (c :: cs) ((kind, taken) :: words) := by
  intro fuel offset line hfuel
  cases fuel with
  | zero => cases hfuel
  | succ fuel =>
    have hshorter := hread ▸ (Lexeme.parts_read c cs).length_rest_lt
    obtain ⟨tokens, hgives, hwords⟩ :=
      h fuel _ _ (Nat.le_of_lt_succ (Nat.lt_of_lt_of_le hshorter hfuel))
    refine ⟨_ :: tokens, hgives.of_token hread, ?_⟩
    rw [List.map_cons, hwords, String.toList_ofList]

theorem ScansTo.filler {filler : List Char} (hfiller : Filler filler) (h : ScansTo rest words) :
    ScansTo (filler ++ rest) words := by
  induction hfiller with
  | nil => exact h
  | space hspace _ ih => exact ih.skipped (if_pos hspace)
  | @lineComment inside cs hinside _ ih =>
    -- the line feed behind a comment is not part of it
    have hline : ScansTo ('\n' :: (cs ++ rest)) words := ih.skipped rfl
    obtain ⟨htaken, hrest⟩ := Lexeme.takeWhile_run (p := (· ≠ '\n')) inside ('\n' :: (cs ++ rest))
      (fun c hc => decide_eq_true fun heq => hinside (heq ▸ hc))
      fun c hc => Option.some.inj hc ▸ rfl
    have hread : Lexeme.read '/' ('/' :: (inside ++ '\n' :: (cs ++ rest))) =
        ⟨.skipped, '/' :: '/' :: inside, '\n' :: (cs ++ rest)⟩ := by
      change Lexeme.lineComment _ = _
      rw [Lexeme.lineComment, htaken, hrest]
    have hscans := hline.skipped hread
    simpa using hscans
  | @blockComment inside cs hfirst _ ih =>
    have hread : Lexeme.read '/' ('*' :: (inside ++ '*' :: '/' :: (cs ++ rest))) =
        ⟨.skipped, '/' :: '*' :: (inside ++ ['*', '/']), cs ++ rest⟩ := by
      change Lexeme.blockComment _ = _
      rw [Lexeme.blockComment, Lexeme.blockComment?_append hfirst]
    have hscans := ih.skipped hread
    simpa using hscans

theorem ScansTo.word (h : ScansTo rest words) (word : Word) (separator : Separator) :
    ScansTo (word.text ++ (separator.text ++ rest)) ((word.kind, word.text) :: words) := by
  obtain ⟨first, others, htext, hread⟩ :=
    Lexeme.readsAs_text word separator.first (separator.others ++ rest) separator.space
  have hbehind : ScansTo (separator.text ++ rest) words :=
    h.filler (.space separator.space separator.filler)
  rw [htext] at hread ⊢
  exact hbehind.token hread

theorem scansTo_written (words : List (Word × Separator)) :
    ScansTo (written words) (words.map (fun (word, _) => (word.kind, word.text)) ++
      [(.eof, [])]) := by
  induction words with
  | nil => exact scansTo_nil
  | cons item words ih =>
    obtain ⟨word, separator⟩ := item
    rw [written, List.flatMap_cons, List.append_assoc]
    exact ih.word word separator

end Scanned

/-- Written lexemes scan to themselves, then to the end of the source, and to no fault. -/
theorem scan_written (words : List (Word × Separator)) :
    (scan (String.ofList (written words))).1.map (fun t => (t.kind, t.lexeme.toList)) =
        words.map (fun (word, _) => (word.kind, word.text)) ++ [(.eof, [])] ∧
      (scan (String.ofList (written words))).2 = [] := by
  obtain ⟨tokens, hgives, hwords⟩ :=
    Scanned.scansTo_written words (written words).length 0 1 (Nat.le_refl _)
  have hscan : scan (String.ofList (written words)) = (tokens, []) :=
    Scanned.scan_of_gives (by rwa [Scanned.ofSource, String.toList_ofList])
  rw [hscan]
  exact ⟨hwords, rfl⟩

end LoxLang
