import Mathlib.Data.List.Forall2
import LoxLang.Token.Scan

/-!
# Cutting a source

A lexeme is still there if the text is cut behind it (`Lexeme.read_stays`): what ends it is the
character behind it or the end of the text. So the text from the beginning of one token to the end
of another scans to just the tokens between them, in other places (`scan_textOf`).
-/

namespace LoxLang

/-! ## Lexemes -/

def LexemeKind.isMalformed : LexemeKind → Bool
  | malformed _ => true
  | _ => false

/-- Where a list of characters begins like another, both are at their end or have one first
character. -/
theorem eq_nil_or_cons_of_prefix {kept rest : List Char} (h : kept <+: rest) :
    kept = [] ∨ ∃ c kept' rest', kept = c :: kept' ∧ rest = c :: rest' ∧ kept' <+: rest' := by
  cases kept with
  | nil => exact .inl rfl
  | cons c kept' =>
    obtain ⟨behind, rfl⟩ := h
    exact .inr ⟨c, kept', kept' ++ behind, rfl, rfl, List.prefix_append _ _⟩

theorem takeWhile_cut {p : Char → Bool} {cs kept : List Char} (h : kept <+: cs.dropWhile p) :
    (cs.takeWhile p ++ kept).takeWhile p = cs.takeWhile p ∧
      (cs.takeWhile p ++ kept).dropWhile p = kept := by
  induction cs with
  | nil =>
    obtain rfl : kept = [] := List.prefix_nil.mp h
    exact ⟨rfl, rfl⟩
  | cons c cs ih =>
    cases hc : p c with
    | true => simpa [hc] using ih (by simpa [hc] using h)
    | false =>
      rw [List.dropWhile_cons_of_neg (by simp [hc])] at h
      rw [List.takeWhile_cons_of_neg (by simp [hc]), List.nil_append]
      rcases eq_nil_or_cons_of_prefix h with rfl | ⟨d, kept', rest', rfl, heq, -⟩
      · exact ⟨rfl, rfl⟩
      · cases heq
        simp [hc]

namespace Lexeme

/-- The lexeme that is read off a text is the same if the text is cut anywhere behind it. The
characters `lead` have been taken before. -/
def Stays (lead : List Char) (read : List Char → Lexeme) (cs : List Char) : Prop :=
  (read cs).kind.isMalformed = false → ∃ front, (read cs).taken = lead ++ front ∧
    cs = front ++ (read cs).rest ∧
    ∀ kept, kept <+: (read cs).rest → read (front ++ kept) = { read cs with rest := kept }

theorem word_stays (cs : List Char) : Stays [] word cs := fun _ =>
  ⟨cs.takeWhile isWordCharacter, rfl, (List.takeWhile_append_dropWhile ..).symm,
    fun kept hkept => by
    obtain ⟨htaken, hrest⟩ := takeWhile_cut hkept
    simp only [word, htaken, hrest]⟩

theorem lineComment_stays (cs : List Char) : Stays ['/', '/'] lineComment cs := fun _ =>
  ⟨cs.takeWhile (· ≠ '\n'), rfl, (List.takeWhile_append_dropWhile ..).symm, fun kept hkept => by
    obtain ⟨htaken, hrest⟩ := takeWhile_cut hkept
    simp only [lineComment, htaken, hrest]⟩

theorem stringContents?_cut {cs inside rest : List Char}
    (h : stringContents? cs = some (inside, rest)) : cs = inside ++ '"' :: rest ∧
      ∀ kept, stringContents? (inside ++ '"' :: kept) = some (inside, kept) := by
  induction cs using stringContents?.induct generalizing inside with
  | case1 => cases h
  | case2 cs =>
    cases h
    exact ⟨rfl, fun _ => rfl⟩
  | case3 cs ih =>
    obtain ⟨⟨inside', rest'⟩, hrest, heq⟩ := Option.map_eq_some_iff.mp h
    cases heq
    obtain ⟨rfl, hkept⟩ := ih hrest
    exact ⟨rfl, fun kept => by
      rw [List.cons_append, List.cons_append, stringContents?, hkept, Option.map_some]⟩
  | case4 c cs hquote hescape ih =>
    rw [stringContents?.eq_4 _ _ hquote hescape] at h
    obtain ⟨⟨inside', rest'⟩, hrest, heq⟩ := Option.map_eq_some_iff.mp h
    cases heq
    obtain ⟨rfl, hkept⟩ := ih hrest
    refine ⟨rfl, fun kept => ?_⟩
    -- the quote that would keep the string open stands in both texts or in neither
    have hescape' : ∀ cs', c = '\\' → inside' ++ '"' :: kept = '"' :: cs' → False := by
      intro cs' hc hcs'
      cases inside' with
      | nil => exact hescape _ hc rfl
      | cons d inside' =>
        cases hcs'
        exact hescape _ hc rfl
    rw [List.cons_append, stringContents?.eq_4 _ _ hquote hescape', hkept, Option.map_some]

theorem string_stays (cs : List Char) : Stays ['"'] string cs := by
  intro hwhole
  cases hinside : stringContents? cs with
  | none => simp [string, hinside, LexemeKind.isMalformed] at hwhole
  | some found =>
    obtain ⟨inside, rest⟩ := found
    obtain ⟨hcs, hkept⟩ := stringContents?_cut hinside
    refine ⟨inside ++ ['"'], by simp [string, hinside], by simpa [string, hinside] using hcs, ?_⟩
    intro kept _
    simp [string, hinside, hkept]

theorem blockComment?_cut {cs inside rest : List Char}
    (h : blockComment? cs = some (inside, rest)) : cs = inside ++ rest ∧
      ∀ kept, blockComment? (inside ++ kept) = some (inside, kept) := by
  induction cs using blockComment?.induct generalizing inside with
  | case1 cs =>
    cases h
    exact ⟨rfl, fun _ => rfl⟩
  | case2 => cases h
  | case3 c cs hclose ih =>
    rw [blockComment?.eq_3 _ _ hclose] at h
    obtain ⟨⟨inside', rest'⟩, hrest, heq⟩ := Option.map_eq_some_iff.mp h
    cases heq
    obtain ⟨rfl, hkept⟩ := ih hrest
    refine ⟨rfl, fun kept => ?_⟩
    have hclose' : ∀ cs', c = '*' → inside' ++ kept = '/' :: cs' → False := by
      intro cs' hc hcs'
      cases inside' with
      | nil =>
        have hempty := hkept []
        cases hempty
      | cons d inside' =>
        cases hcs'
        exact hclose _ hc rfl
    rw [List.cons_append, blockComment?.eq_3 _ _ hclose', hkept, Option.map_some]

theorem blockComment_stays (cs : List Char) : Stays ['/', '*'] blockComment cs := by
  intro hwhole
  cases hinside : blockComment? cs with
  | none => simp [blockComment, hinside, LexemeKind.isMalformed] at hwhole
  | some found =>
    obtain ⟨inside, rest⟩ := found
    obtain ⟨hcs, hkept⟩ := blockComment?_cut hinside
    refine ⟨inside, by simp [blockComment, hinside], by simpa [blockComment, hinside] using hcs, ?_⟩
    intro kept _
    simp [blockComment, hinside, hkept]

theorem symbol_stays (c : Char) (cs : List Char) : Stays [c] (symbol c) cs := by
  intro hwhole
  cases hpair : cs.head?.bind (Symbol.ofPair? c) with
  | some s =>
    obtain ⟨d, hd, hs⟩ := Option.bind_eq_some_iff.mp hpair
    obtain ⟨rest, rfl⟩ : ∃ rest, cs = d :: rest := List.head?_eq_some_iff.mp hd
    exact ⟨[d], by simp [symbol, hs], by simp [symbol, hs], fun kept _ => by simp [symbol, hs]⟩
  | none =>
    have hrest : (symbol c cs).rest = cs := by
      rw [symbol, hpair]
      dsimp only
      split <;> rfl
    refine ⟨[], ?_, by rw [hrest]; rfl, fun kept hkept => ?_⟩
    · rw [symbol, hpair]
      dsimp only
      split <;> rfl
    · have hnone : kept.head?.bind (Symbol.ofPair? c) = none := by
        rcases eq_nil_or_cons_of_prefix (hrest ▸ hkept) with rfl | ⟨d, kept', rest', rfl, rfl, -⟩
        · rfl
        · exact hpair
      rw [List.nil_append, symbol, hnone, symbol, hpair]
      dsimp only
      split <;> rfl

/-! ### Numbers -/

theorem finishNumber_cut {base : Base} {value : Numeral} {taken rest kept : List Char}
    (h : (finishNumber base value taken rest).kind.isMalformed = false) (hkept : kept <+: rest) :
    finishNumber base value taken rest = ⟨.token (.number value), taken, rest⟩ ∧
      finishNumber base value taken kept = ⟨.token (.number value), taken, kept⟩ ∧
      ∀ c ∈ rest.head?, isWordCharacter c = false ∧ c ≠ '.' := by
  cases rest with
  | nil =>
    obtain rfl : kept = [] := List.prefix_nil.mp hkept
    exact ⟨rfl, rfl, nofun⟩
  | cons c rest =>
    cases hc : isWordCharacter c || c = '.' with
    | true => simp [finishNumber, hc, LexemeKind.isMalformed] at h
    | false =>
      have hc' : isWordCharacter c = false ∧ c ≠ '.' := by simpa using hc
      refine ⟨by simp [finishNumber, hc'], ?_, fun d hd => by cases hd; exact hc'⟩
      rcases eq_nil_or_cons_of_prefix hkept with rfl | ⟨d, kept', rest', rfl, heq, -⟩
      · rfl
      · cases heq
        simp [finishNumber, hc']

theorem radixNumber_stays (base : Base) (marker cs : List Char) :
    Stays marker (radixNumber base marker) cs := by
  intro hwhole
  have hnumber : (finishNumber base (radixValue base (cs.takeWhile (Number.isDigitIn base.radix)))
      (marker ++ cs.takeWhile (Number.isDigitIn base.radix))
      (cs.dropWhile (Number.isDigitIn base.radix))).kind.isMalformed = false := by
    unfold radixNumber at hwhole
    dsimp only at hwhole
    split at hwhole
    · next hkind => rw [hkind]; rfl
    · exact hwhole
  obtain ⟨hfinish, -, -⟩ := finishNumber_cut hnumber (List.prefix_refl _)
  have hdigits : (cs.takeWhile (Number.isDigitIn base.radix)).isEmpty = false := by
    refine Bool.eq_false_iff.mpr fun hempty => ?_
    simp [radixNumber, hfinish, hempty, LexemeKind.isMalformed] at hwhole
  have hread : radixNumber base marker cs =
      ⟨.token (.number (radixValue base (cs.takeWhile (Number.isDigitIn base.radix)))),
        marker ++ cs.takeWhile (Number.isDigitIn base.radix),
        cs.dropWhile (Number.isDigitIn base.radix)⟩ := by
    simp only [radixNumber, hfinish, hdigits, Bool.false_eq_true, if_false]
  rw [hread]
  refine ⟨_, rfl, (List.takeWhile_append_dropWhile ..).symm, fun kept hkept => ?_⟩
  obtain ⟨htaken, hrest⟩ := takeWhile_cut hkept
  obtain ⟨-, hfinish', -⟩ := finishNumber_cut hnumber hkept
  simp only [radixNumber, htaken, hrest, hfinish', hdigits, Bool.false_eq_true, if_false]

theorem fractionPart_eq_or (cs : List Char) :
    (∀ kept, kept <+: cs → fractionPart kept = ([], kept)) ∨
      ∃ d rest, cs = '.' :: d :: rest ∧ d.isDigit = true := by
  by_cases h : ∃ d rest, cs = '.' :: d :: rest ∧ d.isDigit = true
  · exact .inr h
  · refine .inl fun kept hkept => ?_
    obtain ⟨behind, rfl⟩ := hkept
    unfold fractionPart
    split
    · next d rest => exact if_neg fun hd => h ⟨d, rest ++ behind, rfl, hd⟩
    · rfl

theorem fractionPart_cut (cs : List Char) :
    cs = pointed (fractionPart cs).1 ++ (fractionPart cs).2 ∧
    ∀ kept, kept <+: (fractionPart cs).2 →
      fractionPart (pointed (fractionPart cs).1 ++ kept) = ((fractionPart cs).1, kept) := by
  rcases fractionPart_eq_or cs with h | ⟨d, rest, rfl, hd⟩
  · rw [h cs (List.prefix_refl _)]
    exact ⟨rfl, h⟩
  · have hread : fractionPart ('.' :: d :: rest) =
        (d :: rest.takeWhile Char.isDigit, rest.dropWhile Char.isDigit) := if_pos hd
    rw [hread]
    refine ⟨by simp [pointed], fun kept hkept => ?_⟩
    obtain ⟨htaken, hrest⟩ := takeWhile_cut hkept
    simp [pointed, fractionPart, hd, htaken, hrest]

theorem exponentMarker_cut {cs marker rest : List Char}
    (h : exponentMarker cs = some (marker, rest)) : cs = marker ++ rest ∧
      ∀ kept, kept <+: rest → exponentMarker (marker ++ kept) = some (marker, kept) := by
  unfold exponentMarker at h
  split at h
  · next c cs =>
    split at h
    · next hc =>
      split at h
      · cases h
        exact ⟨rfl, fun kept _ => if_pos hc⟩
      · cases h
        exact ⟨rfl, fun kept _ => if_pos hc⟩
      · next hplus hminus =>
        cases h
        refine ⟨rfl, fun kept hkept => ?_⟩
        obtain ⟨behind, rfl⟩ := hkept
        unfold exponentMarker
        dsimp only [List.singleton_append]
        rw [if_pos hc]
        split
        · exact absurd rfl (hplus _)
        · exact absurd rfl (hminus _)
        · rfl
    · cases h
  · cases h

theorem exponentMarker_none_cut {cs kept : List Char} (h : exponentMarker cs = none)
    (hkept : kept <+: cs) : exponentMarker kept = none := by
  rcases eq_nil_or_cons_of_prefix hkept with rfl | ⟨c, kept', rest', rfl, rfl, -⟩
  · rfl
  · unfold exponentMarker at h ⊢
    dsimp only at h ⊢
    split at h
    · split at h <;> cases h
    · next hc => rw [if_neg hc]

/-- The digits before an exponent. -/
theorem mantissa_cut (cs : List Char) : ∃ whole fraction after,
    cs = whole ++ (pointed fraction ++ after) ∧ ∀ kept, kept <+: after →
      (whole ++ (pointed fraction ++ kept)).takeWhile Char.isDigit = whole ∧
        fractionPart ((whole ++ (pointed fraction ++ kept)).dropWhile Char.isDigit) =
          (fraction, kept) := by
  obtain ⟨hfraction, hfraction'⟩ := fractionPart_cut (cs.dropWhile Char.isDigit)
  refine ⟨cs.takeWhile Char.isDigit, (fractionPart (cs.dropWhile Char.isDigit)).1,
    (fractionPart (cs.dropWhile Char.isDigit)).2, ?_, fun kept hkept => ?_⟩
  · conv => lhs; rw [← List.takeWhile_append_dropWhile (p := Char.isDigit) (l := cs), hfraction]
  · have hprefix : pointed (fractionPart (cs.dropWhile Char.isDigit)).1 ++ kept <+:
        cs.dropWhile Char.isDigit := by
      conv => rhs; rw [hfraction]
      exact (List.prefix_append_right_inj _).mpr hkept
    obtain ⟨htaken, hrest⟩ := takeWhile_cut hprefix
    exact ⟨htaken, by rw [hrest, hfraction' kept hkept]⟩

theorem decimalNumber_stays (cs : List Char) : Stays [] decimalNumber cs := by
  intro hwhole
  obtain ⟨whole, fraction, after, rfl, hmantissa⟩ := mantissa_cut cs
  obtain ⟨htaken, hfraction⟩ := hmantissa after (List.prefix_refl _)
  cases hexponent : exponentMarker after with
  | none =>
    simp only [decimalNumber, htaken, hfraction, hexponent] at hwhole ⊢
    obtain ⟨hfinish, -, -⟩ := finishNumber_cut hwhole (List.prefix_refl _)
    rw [hfinish]
    refine ⟨whole ++ pointed fraction, rfl, (List.append_assoc ..).symm, fun kept hkept => ?_⟩
    obtain ⟨htaken', hfraction'⟩ := hmantissa kept hkept
    obtain ⟨-, hfinish', -⟩ := finishNumber_cut hwhole hkept
    rw [List.append_assoc]
    simp only [htaken', hfraction', exponentMarker_none_cut hexponent hkept, hfinish']
  | some found =>
    obtain ⟨marker, afterMarker⟩ := found
    obtain ⟨rfl, hmarker⟩ := exponentMarker_cut hexponent
    simp only [decimalNumber, htaken, hfraction, hexponent] at hwhole ⊢
    cases hdigits : (afterMarker.takeWhile Char.isDigit).isEmpty with
    | true => simp [hdigits, LexemeKind.isMalformed] at hwhole
    | false =>
      simp only [hdigits, Bool.false_eq_true, if_false] at hwhole ⊢
      obtain ⟨hfinish, -, -⟩ := finishNumber_cut hwhole (List.prefix_refl _)
      rw [hfinish]
      refine ⟨whole ++ pointed fraction ++ marker ++ afterMarker.takeWhile Char.isDigit, rfl, ?_,
        fun kept hkept => ?_⟩
      · simp [List.takeWhile_append_dropWhile]
      · obtain ⟨hdigit, hrest⟩ := takeWhile_cut hkept
        have hbehind : afterMarker.takeWhile Char.isDigit ++ kept <+: afterMarker := by
          conv => rhs; rw [← List.takeWhile_append_dropWhile (p := Char.isDigit) (l := afterMarker)]
          exact (List.prefix_append_right_inj _).mpr hkept
        obtain ⟨htaken', hfraction'⟩ :=
          hmantissa _ ((List.prefix_append_right_inj marker).mpr hbehind)
        obtain ⟨-, hfinish', -⟩ := finishNumber_cut hwhole hkept
        simp only [List.append_assoc, htaken', hfraction', hmarker _ hbehind, hdigit, hrest,
          hdigits, Bool.false_eq_true, if_false]
        simpa only [List.append_assoc] using hfinish'

theorem finishNumber_taken (base : Base) (value : Numeral) (taken rest : List Char) :
    (finishNumber base value taken rest).taken = taken := by
  unfold finishNumber
  split
  · split <;> rfl
  · rfl

theorem head?_decimalNumber {first : Char} (hfirst : first.isDigit = true) (cs : List Char) :
    (decimalNumber (first :: cs)).taken.head? = some first := by
  unfold decimalNumber
  rw [List.takeWhile_cons_of_pos hfirst]
  dsimp only
  split
  · rw [finishNumber_taken]; rfl
  · split
    · rfl
    · rw [finishNumber_taken]; rfl

theorem number_of_unmarked {first : Char} {cs : List Char}
    (h : ∀ marker rest, first = '0' → cs = marker :: rest → Base.ofMarker? marker = none) :
    number first cs = decimalNumber (first :: cs) := by
  unfold number
  split
  · next marker rest => rw [h marker rest rfl rfl]
  · rfl

/-! ### All pieces -/

section Stays

variable {lead cs : List Char} {read read' : List Char → Lexeme}

theorem Stays.congr (h : Stays lead read cs)
    (hsame : ∀ text, text <+: cs → read' text = read text) :
    Stays lead read' cs := by
  intro hwhole
  have hread := hsame cs (List.prefix_refl _)
  rw [hread] at hwhole ⊢
  obtain ⟨front, htaken, hcs, hkept⟩ := h hwhole
  refine ⟨front, htaken, hcs, fun kept hprefix => ?_⟩
  rw [hsame _ (hcs ▸ (List.prefix_append_right_inj front).mpr hprefix), hkept kept hprefix]

/-- What has been read behind a character. -/
theorem Stays.behind {c : Char} (h : Stays (lead ++ [c]) read cs)
    (hsame : ∀ text, text <+: cs → read' (c :: text) = read text) : Stays lead read' (c :: cs) := by
  intro hwhole
  have hread := hsame cs (List.prefix_refl _)
  rw [hread] at hwhole ⊢
  obtain ⟨front, htaken, hcs, hkept⟩ := h hwhole
  refine ⟨c :: front, by rw [htaken, List.append_assoc]; rfl, congrArg (c :: ·) hcs,
    fun kept hprefix => ?_⟩
  rw [List.cons_append, hsame _ (hcs ▸ (List.prefix_append_right_inj front).mpr hprefix),
    hkept kept hprefix]

/-- What has been read with the character before it. -/
theorem Stays.with {c : Char} (h : Stays [] read (c :: cs))
    (hhead : (read (c :: cs)).taken.head? = some c)
    (hsame : ∀ text, text <+: cs → read' text = read (c :: text)) : Stays [c] read' cs := by
  intro hwhole
  have hread := hsame cs (List.prefix_refl _)
  rw [hread] at hwhole ⊢
  obtain ⟨front, htaken, hcs, hkept⟩ := h hwhole
  rw [List.nil_append] at htaken
  obtain ⟨front', rfl⟩ : ∃ front', front = c :: front' := List.head?_eq_some_iff.mp (htaken ▸ hhead)
  injection hcs with _ hcs
  refine ⟨front', htaken, hcs, fun kept hprefix => ?_⟩
  rw [hsame _ (hcs ▸ (List.prefix_append_right_inj front').mpr hprefix), ← hkept kept hprefix]
  rfl

end Stays

theorem number_stays {first : Char} (hfirst : first.isDigit = true) (cs : List Char) :
    Stays [first] (number first) cs := by
  by_cases h : ∀ marker rest, first = '0' → cs = marker :: rest → Base.ofMarker? marker = none
  · refine (decimalNumber_stays (first :: cs)).with (head?_decimalNumber hfirst cs)
      fun text htext =>
      number_of_unmarked fun marker rest hzero hrest => ?_
    obtain ⟨behind, rfl⟩ := htext
    exact h marker (rest ++ behind) hzero (by rw [hrest]; rfl)
  · simp only [Classical.not_forall] at h
    obtain ⟨marker, rest, rfl, rfl, hmarker⟩ := h
    obtain ⟨base, hbase⟩ := Option.ne_none_iff_exists'.mp hmarker
    exact (radixNumber_stays base ['0', marker] rest).behind fun text _ => by
      simp only [number, hbase]

/-- The lexeme at the front of a text is the same if the text is cut behind it. -/
theorem read_stays (c : Char) (cs : List Char) : Stays [c] (read c) cs := by
  by_cases hblank : c = ' ' ∨ c = '\r' ∨ c = '\t' ∨ c = '\n'
  · intro _
    have hread (text : List Char) : read c text = ⟨.skipped, [c], text⟩ := if_pos hblank
    exact ⟨[], by rw [hread]; rfl, by rw [hread]; rfl, fun kept _ => by rw [hread, hread]; rfl⟩
  by_cases hquote : c = '"'
  · subst hquote
    exact (string_stays cs).congr fun text _ => rfl
  by_cases hdigit : c.isDigit = true
  · exact (number_stays hdigit cs).congr fun text _ => by
      unfold read
      rw [if_neg hblank, if_neg hquote, if_pos hdigit]
  by_cases hword : isWordStart c = true
  · have hcharacter : isWordCharacter c = true := by
      simp only [isWordStart, isWordCharacter, Char.isAlphanum, Bool.or_eq_true] at hword ⊢
      exact hword.imp_left .inl
    have hhead : (word (c :: cs)).taken.head? = some c := by
      rw [word, List.takeWhile_cons_of_pos hcharacter]
      rfl
    exact (word_stays (c :: cs)).with hhead fun text _ => by
      unfold read
      rw [if_neg hblank, if_neg hquote, if_neg hdigit, if_pos hword]
  by_cases hcomment : ∃ d rest, c = '/' ∧ cs = d :: rest ∧ (d = '/' ∨ d = '*')
  · obtain ⟨d, rest, rfl, rfl, rfl | rfl⟩ := hcomment
    · exact (lineComment_stays rest).behind fun _ _ => rfl
    · exact (blockComment_stays rest).behind fun _ _ => rfl
  · refine (symbol_stays c cs).congr fun text htext => ?_
    obtain ⟨behind, rfl⟩ := htext
    unfold read
    rw [if_neg hblank, if_neg hquote, if_neg hdigit, if_neg hword]
    split
    · exact absurd ⟨_, _, rfl, rfl, .inl rfl⟩ hcomment
    · exact absurd ⟨_, _, rfl, rfl, .inr rfl⟩ hcomment
    · rfl

end Lexeme

/-! ## Sources -/

/-- Tokens that differ only in their places. -/
def Token.SameWord (t t' : Token) : Prop := t.kind = t'.kind ∧ t.lexeme = t'.lexeme

namespace Scanned

/-- Scanning finds no fault. -/
def Gives (items : List Scanned) (tokens : List Token) : Prop := items = tokens.map token

variable {fuel offset line : Nat} {c : Char} {cs : List Char} {tokens : List Token}

theorem ofChars_of_skipped (h : (Lexeme.read c cs).kind = .skipped) :
    ofChars (fuel + 1) offset line (c :: cs) =
      ofChars fuel (offset + Text.byteLength (Lexeme.read c cs).taken)
        (line + Text.lineFeeds (Lexeme.read c cs).taken) (Lexeme.read c cs).rest := by
  simp only [ofChars, h]

theorem ofChars_of_token {kind : TokenKind} (h : (Lexeme.read c cs).kind = .token kind) :
    ofChars (fuel + 1) offset line (c :: cs) =
      token ⟨kind, String.ofList (Lexeme.read c cs).taken,
        line + Text.lineFeeds (Lexeme.read c cs).taken,
        ⟨offset, offset + Text.byteLength (Lexeme.read c cs).taken⟩⟩ ::
      ofChars fuel (offset + Text.byteLength (Lexeme.read c cs).taken)
        (line + Text.lineFeeds (Lexeme.read c cs).taken) (Lexeme.read c cs).rest := by
  simp only [ofChars, h]

/-- The first lexeme of a text without faults. -/
inductive Step (fuel offset line : Nat) (c : Char) (cs : List Char) (tokens : List Token) : Prop
  | skipped (front rest : List Char) (text : cs = front ++ rest)
    (cut : ∀ kept, kept <+: rest → Lexeme.read c (front ++ kept) = ⟨.skipped, c :: front, kept⟩)
    (gives : Gives (ofChars fuel (offset + Text.byteLength (c :: front))
      (line + Text.lineFeeds (c :: front)) rest) tokens)
  | token (front rest : List Char) (kind : TokenKind) (behind : List Token)
    (text : cs = front ++ rest)
    (cut : ∀ kept, kept <+: rest → Lexeme.read c (front ++ kept) = ⟨.token kind, c :: front, kept⟩)
    (tokens : tokens = ⟨kind, String.ofList (c :: front), line + Text.lineFeeds (c :: front),
      ⟨offset, offset + Text.byteLength (c :: front)⟩⟩ :: behind)
    (gives : Gives (ofChars fuel (offset + Text.byteLength (c :: front))
      (line + Text.lineFeeds (c :: front)) rest) behind)

theorem Gives.step (h : Gives (ofChars (fuel + 1) offset line (c :: cs)) tokens) :
    Step fuel offset line c cs tokens := by
  have hstays := Lexeme.read_stays c cs
  cases hkind : (Lexeme.read c cs).kind with
  | malformed cause =>
    simp only [Gives, ofChars, hkind] at h
    cases tokens <;> cases h
  | skipped =>
    obtain ⟨front, htaken, hcs, hcut⟩ := hstays (by rw [hkind]; rfl)
    rw [ofChars_of_skipped hkind, htaken] at h
    exact .skipped front _ hcs
      (fun kept hkept => by simp only [hcut kept hkept, hkind, htaken]; rfl) h
  | token kind =>
    obtain ⟨front, htaken, hcs, hcut⟩ := hstays (by rw [hkind]; rfl)
    rw [ofChars_of_token hkind, htaken] at h
    cases tokens with
    | nil => cases h
    | cons t behind =>
      injection h with ht hbehind
      injection ht with ht
      exact .token front _ kind behind hcs
        (fun kept hkept => by simp only [hcut kept hkept, hkind, htaken]; rfl)
          (by rw [← ht]; rfl) hbehind

theorem gives_nil : Gives (ofChars fuel offset line []) [⟨.eof, "", line, ⟨offset, offset⟩⟩] := by
  cases fuel <;> rfl

/-- The end alone is no other token. -/
theorem Gives.not_end {before more : List Token} {t last : Token}
    (h : Gives [token last] (before ++ t :: more)) (hlast : last.kind.isEof = true) :
    t.kind.isEof = true := by
  cases before with
  | nil =>
    cases more with
    | nil => cases h; exact hlast
    | cons => cases h
  | cons _ before => cases before <;> cases h

theorem Gives.of_skipped {taken rest : List Char}
    (h : Gives (ofChars fuel (offset + Text.byteLength taken) (line + Text.lineFeeds taken) rest)
      tokens)
    (hread : Lexeme.read c cs = ⟨.skipped, taken, rest⟩) :
    Gives (ofChars (fuel + 1) offset line (c :: cs)) tokens := by
  rw [ofChars_of_skipped (by rw [hread]), hread]
  exact h

theorem Gives.of_token {kind : TokenKind} {taken rest : List Char}
    (h : Gives (ofChars fuel (offset + Text.byteLength taken) (line + Text.lineFeeds taken) rest)
      tokens)
    (hread : Lexeme.read c cs = ⟨.token kind, taken, rest⟩) :
    Gives (ofChars (fuel + 1) offset line (c :: cs))
      (⟨kind, String.ofList taken, line + Text.lineFeeds taken,
        ⟨offset, offset + Text.byteLength taken⟩⟩ :: tokens) := by
  have hkind : (Lexeme.read c cs).kind = .token kind := by rw [hread]
  rw [ofChars_of_token hkind, hread]
  exact congrArg (token _ :: ·) h

/-- The text from a token on. -/
theorem Gives.behind {before more : List Token} {t : Token}
    (h : Gives (ofChars fuel offset line cs) (before ++ t :: more)) (ht : t.kind.isEof = false) :
    ∃ front back fuel' line', cs = front ++ back ∧ t.span.start = offset + Text.byteLength front ∧
      Gives (ofChars fuel' t.span.start line' back) (t :: more) := by
  induction fuel generalizing offset line cs before with
  | zero => cases cs <;> cases ht.symm.trans (h.not_end rfl)
  | succ fuel ih =>
    cases cs with
    | nil => cases ht.symm.trans (h.not_end rfl)
    | cons c cs =>
      have hbehind {front rest : List Char} (hcs : cs = front ++ rest) {before : List Token}
          {line : Nat} (hgives : Gives (ofChars fuel (offset + Text.byteLength (c :: front)) line
            rest) (before ++ t :: more)) : ∃ front back fuel' line', c :: cs = front ++ back ∧
              t.span.start = offset + Text.byteLength front ∧
              Gives (ofChars fuel' t.span.start line' back) (t :: more) := by
        obtain ⟨front', back, fuel', line', rfl, hstart, hmore⟩ := ih hgives
        exact ⟨c :: front ++ front', back, fuel', line', by simp [hcs],
          by rw [hstart, Text.byteLength_append, Nat.add_assoc], hmore⟩
      cases h.step with
      | skipped front rest hcs _ gives => exact hbehind hcs gives
      | token front rest kind behind hcs _ htokens gives =>
        cases before with
        | nil =>
          obtain ⟨rfl, rfl⟩ := List.cons_eq_cons.mp htokens
          exact ⟨[], c :: cs, fuel + 1, line, rfl, rfl, h⟩
        | cons first before =>
          obtain ⟨rfl, rfl⟩ := List.cons_eq_cons.mp htokens
          exact hbehind hcs gives

/-- The text up to an offset scans to some tokens, wherever it stands. -/
def Cuts (offset stop : Nat) (cs : List Char) (tokens : List Token) : Prop :=
  ∃ front, front <+: cs ∧ stop = offset + Text.byteLength front ∧
    ∀ fuel offset' line, front.length ≤ fuel → ∃ tokens' last, last.kind.isEof = true ∧
      List.Forall₂ Token.SameWord tokens tokens' ∧
      Gives (ofChars fuel offset' line front) (tokens' ++ [last])

namespace Cuts

variable {stop : Nat} {front rest : List Char}

theorem nil : Cuts offset offset cs [] :=
  ⟨[], List.nil_prefix, rfl, fun _ _ _ _ => ⟨[], _, rfl, .nil, gives_nil⟩⟩

/-- One more lexeme before the text. -/
theorem extend {tokens' : List Token}
    (h : Cuts (offset + Text.byteLength (c :: front)) stop rest tokens)
    (hlexeme : ∀ kept fuel offset' line given last, kept <+: rest →
      List.Forall₂ Token.SameWord tokens given →
      Gives (ofChars fuel (offset' + Text.byteLength (c :: front))
        (line + Text.lineFeeds (c :: front)) kept) (given ++ [last]) →
      ∃ given', List.Forall₂ Token.SameWord tokens' given' ∧
        Gives (ofChars (fuel + 1) offset' line (c :: front ++ kept)) (given' ++ [last])) :
    Cuts offset stop (c :: front ++ rest) tokens' := by
  obtain ⟨kept, hprefix, hstop, hgives⟩ := h
  refine ⟨c :: front ++ kept, (List.prefix_append_right_inj (c :: front)).mpr hprefix,
    by rw [hstop, Text.byteLength_append, Nat.add_assoc], fun fuel offset' line hle => ?_⟩
  simp only [List.length_append, List.length_cons] at hle
  obtain ⟨fuel, rfl⟩ := Nat.exists_eq_add_of_le' (show 1 ≤ fuel by omega)
  obtain ⟨given, last, hlast, hsame, hbehind⟩ := hgives fuel _ _ (by omega)
  obtain ⟨given', hsame', hall⟩ := hlexeme kept fuel offset' line given last hprefix hsame hbehind
  exact ⟨given', last, hlast, hsame', hall⟩

theorem skipped (h : Cuts (offset + Text.byteLength (c :: front)) stop rest tokens)
    (hcut : ∀ kept, kept <+: rest →
      Lexeme.read c (front ++ kept) = ⟨.skipped, c :: front, kept⟩) :
    Cuts offset stop (c :: front ++ rest) tokens :=
  h.extend fun kept _ _ _ given _ hprefix hsame hgives =>
    ⟨given, hsame, hgives.of_skipped (hcut kept hprefix)⟩

theorem token {kind : TokenKind} {place : Nat} {span : Span}
    (h : Cuts (offset + Text.byteLength (c :: front)) stop rest tokens)
    (hcut : ∀ kept, kept <+: rest →
      Lexeme.read c (front ++ kept) = ⟨.token kind, c :: front, kept⟩) :
    Cuts offset stop (c :: front ++ rest)
      (⟨kind, String.ofList (c :: front), place, span⟩ :: tokens) := by
  refine h.extend fun kept _ _ _ given _ hprefix hsame hgives => ?_
  refine ⟨_ :: given, ?_, hgives.of_token (hcut kept hprefix)⟩
  exact .cons ⟨rfl, rfl⟩ hsame

end Cuts

/-- The text up to the end of a token. -/
theorem Gives.cut {before more : List Token} {t : Token}
    (h : Gives (ofChars fuel offset line cs) (before ++ t :: more)) (ht : t.kind.isEof = false) :
    Cuts offset t.span.stop cs (before ++ [t]) := by
  induction fuel generalizing offset line cs before with
  | zero => cases cs <;> cases ht.symm.trans (h.not_end rfl)
  | succ fuel ih =>
    cases cs with
    | nil => cases ht.symm.trans (h.not_end rfl)
    | cons c cs =>
      cases h.step with
      | skipped front rest hcs hcut gives =>
        rw [hcs]
        exact (ih gives).skipped hcut
      | token front rest kind behind hcs hcut htokens gives =>
        rw [hcs]
        cases before with
        | nil =>
          obtain ⟨rfl, rfl⟩ := List.cons_eq_cons.mp htokens
          exact Cuts.nil.token hcut
        | cons first before =>
          obtain ⟨rfl, rfl⟩ := List.cons_eq_cons.mp htokens
          exact (ih gives).token hcut

end Scanned

/-- The text between two byte offsets, both at the beginning of a character. -/
def Text.between (start stop : Nat) (cs : List Char) : List Char :=
  (((splitAtByte? start cs).bind fun (_, back) => splitAtByte? (stop - start) back).map
    Prod.fst).getD []

/-- The text that tokens take up in their source, with what stands between them. -/
def textOf (source : String) (tokens : List Token) : String :=
  String.ofList (Text.between ((tokens.head?.map fun t => t.span.start).getD 0)
    ((tokens.getLast?.map fun t => t.span.stop).getD 0) source.toList)

theorem Text.between_eq {start stop : Nat} {before cs behind : List Char}
    (hstart : start = byteLength before) (hstop : stop = start + byteLength cs) :
    between start stop (before ++ (cs ++ behind)) = cs := by
  subst hstop hstart
  simp [between, splitAtByte?_byteLength]

theorem Scanned.gives_of_scan {source : String} {tokens : List Token}
    (h : scan source = (tokens, [])) : Gives (ofSource source) tokens := by
  simp only [scan, Prod.mk.injEq] at h
  obtain ⟨htokens, hfaults⟩ := h
  subst htokens
  unfold Gives
  generalize ofSource source = items at hfaults
  induction items with
  | nil => rfl
  | cons item items ih =>
    cases item with
    | token t => exact congrArg (token t :: ·) (ih hfaults)
    | fault => cases hfaults

theorem Scanned.scan_of_gives {source : String} {tokens : List Token}
    (h : Gives (ofSource source) tokens) : scan source = (tokens, []) := by
  rw [scan, h]
  simp [List.filterMap_map, Function.comp_def, Scanned.token?]

/-- The text of some tokens of a source scans to these tokens, in other places, and the end. -/
theorem scan_textOf {source : String} {before tokens more : List Token}
    (h : scan source = (before ++ tokens ++ more, [])) (hne : tokens ≠ [])
    (hkind : ∀ t ∈ tokens, t.kind.isEof = false) :
    ∃ tokens' last, last.kind.isEof = true ∧ List.Forall₂ Token.SameWord tokens tokens' ∧
      scan (textOf source tokens) = (tokens' ++ [last], []) := by
  obtain ⟨first, rest, hfirst⟩ := List.exists_cons_of_ne_nil hne
  obtain ⟨init, final, hfinal⟩ : ∃ init final, tokens = init ++ [final] :=
    ⟨_, _, (List.dropLast_append_getLast hne).symm⟩
  have hgives := Scanned.gives_of_scan h
  rw [List.append_assoc, hfirst, List.cons_append] at hgives
  obtain ⟨front, back, fuel, line, hsource, hstart, hback⟩ :=
    hgives.behind (hkind first (by simp [hfirst]))
  rw [← List.cons_append, ← hfirst, hfinal, List.append_assoc, List.singleton_append] at hback
  obtain ⟨text, ⟨behind, rfl⟩, hstop, hcut⟩ := hback.cut (hkind final (by simp [hfinal]))
  have htext : textOf source tokens = String.ofList text := by
    have hhead : tokens.head? = some first := by rw [hfirst, List.head?_cons]
    have hlast : tokens.getLast? = some final := by rw [hfinal, List.getLast?_concat]
    rw [textOf, hhead, hlast, hsource]
    exact congrArg String.ofList (Text.between_eq (by simpa using hstart) hstop)
  obtain ⟨tokens', last, hend, hsame, htokens⟩ :=
    hcut text.length 0 1 (Nat.le_refl _)
  refine ⟨tokens', last, hend, hfinal ▸ hsame, ?_⟩
  rw [htext]
  refine Scanned.scan_of_gives ?_
  rw [Scanned.ofSource, String.toList_ofList]
  exact htokens

end LoxLang
