import LoxLang.Proofs.Token.Cutting

/-!
# What a lexeme is made of

The branches of `Lexeme.read`, and what a lexeme says of the characters it takes: it and the text
behind it are the text it was read off (`parts_read`), only white space and comments are skipped,
and the contents of a string are what stands between its quotes (`shape_read`).
-/

namespace LoxLang.Lexeme

/-- The characters that may stand between tokens. -/
def IsSpace (c : Char) : Prop :=
  c = ' ' ∨ c = '\r' ∨ c = '\t' ∨ c = '\n'

/-- A comment, with the text behind it: one that runs up to the end of its line, or one that runs
up to the first end mark behind its opener. -/
inductive Comment : List Char → List Char → Prop
  | line {inside behind : List Char} (within : '\n' ∉ inside) (ends : ∀ c ∈ behind.head?, c = '\n') :
    Comment ('/' :: '/' :: inside) behind
  | block {inside behind : List Char}
    (first : ∀ front back, inside ++ ['*', '/'] = front ++ '*' :: '/' :: back → back = []) :
    Comment ('/' :: '*' :: (inside ++ ['*', '/'])) behind

/-- What may stand between tokens, with the text behind it. -/
inductive Gap : List Char → List Char → Prop
  | space {c : Char} (h : IsSpace c) (behind : List Char) : Gap [c] behind
  | comment {text behind : List Char} (h : Comment text behind) : Gap text behind

/-- The ways to read a lexeme. -/
inductive Branch (c : Char) (cs : List Char) : Lexeme → Prop
  | space (h : IsSpace c) : Branch c cs ⟨.skipped, [c], cs⟩
  | string (h : c = '"') : Branch c cs (string cs)
  | number (h : c.isDigit = true) : Branch c cs (number c cs)
  | word (h : isWordStart c = true) : Branch c cs (word (c :: cs))
  | lineComment (rest : List Char) (h : c = '/') (hcs : cs = '/' :: rest) :
    Branch c cs (lineComment rest)
  | blockComment (rest : List Char) (h : c = '/') (hcs : cs = '*' :: rest) :
    Branch c cs (blockComment rest)
  | symbol (hspace : ¬IsSpace c) (hquote : c ≠ '"') : Branch c cs (symbol c cs)

theorem branch_read (c : Char) (cs : List Char) : Branch c cs (read c cs) := by
  unfold read
  split
  · next h => exact .space h
  · next hspace =>
    split
    · next h => exact .string h
    · next hquote =>
      split
      · next h => exact .number h
      · split
        · next h => exact .word h
        · split
          · next rest _ _ => exact .lineComment rest rfl rfl
          · next rest _ _ => exact .blockComment rest rfl rfl
          · exact .symbol hspace hquote

/-! ## Parts -/

/-- A lexeme takes a first part of a text, which is not empty, and leaves the rest. -/
def Parts (text : List Char) (lexeme : Lexeme) : Prop :=
  lexeme.taken ++ lexeme.rest = text ∧ lexeme.taken ≠ []

theorem Parts.length_rest_lt {text : List Char} {lexeme : Lexeme} (h : Parts text lexeme) :
    lexeme.rest.length < text.length := by
  obtain ⟨rfl, hne⟩ := h
  have hpos := List.length_pos_iff.mpr hne
  rw [List.length_append]
  omega

theorem finishNumber_rest (base : Base) (value : Numeral) (taken rest : List Char) :
    (finishNumber base value taken rest).rest = rest := by
  unfold finishNumber
  split
  · split <;> rfl
  · rfl

theorem radixNumber_taken (base : Base) (marker cs : List Char) :
    (radixNumber base marker cs).taken = marker ++ cs.takeWhile (Number.isDigitIn base.radix) := by
  unfold radixNumber
  dsimp only
  split
  · split <;> exact finishNumber_taken ..
  · exact finishNumber_taken ..

theorem radixNumber_rest (base : Base) (marker cs : List Char) :
    (radixNumber base marker cs).rest = cs.dropWhile (Number.isDigitIn base.radix) := by
  unfold radixNumber
  dsimp only
  split
  · split <;> exact finishNumber_rest ..
  · exact finishNumber_rest ..

theorem decimalNumber_append (cs : List Char) :
    (decimalNumber cs).taken ++ (decimalNumber cs).rest = cs := by
  obtain ⟨whole, fraction, after, rfl, hmantissa⟩ := mantissa_cut cs
  obtain ⟨htaken, hfraction⟩ := hmantissa after (List.prefix_refl _)
  unfold decimalNumber
  simp only [htaken, hfraction]
  cases hexponent : exponentMarker after with
  | none =>
    dsimp only
    rw [finishNumber_taken, finishNumber_rest, List.append_assoc]
  | some found =>
    obtain ⟨marker, afterMarker⟩ := found
    obtain ⟨rfl, -⟩ := exponentMarker_cut hexponent
    dsimp only
    split
    · simp only [List.append_assoc]
    · rw [finishNumber_taken, finishNumber_rest]
      simp only [List.append_assoc, List.takeWhile_append_dropWhile]

theorem parts_number {first : Char} (hfirst : first.isDigit = true) (cs : List Char) :
    Parts (first :: cs) (number first cs) := by
  unfold number
  split
  · next marker rest =>
    split
    · next base _ =>
      rw [Parts, radixNumber_taken, radixNumber_rest, List.append_assoc,
        List.takeWhile_append_dropWhile]
      exact ⟨rfl, List.cons_ne_nil _ _⟩
    · refine ⟨decimalNumber_append _, fun hempty => ?_⟩
      have hhead := head?_decimalNumber hfirst (marker :: rest)
      rw [hempty] at hhead
      cases hhead
  · refine ⟨decimalNumber_append _, fun hempty => ?_⟩
    have hhead := head?_decimalNumber hfirst cs
    rw [hempty] at hhead
    cases hhead

theorem isWordCharacter_of_isWordStart {c : Char} (h : isWordStart c = true) :
    isWordCharacter c = true := by
  simp only [isWordStart, isWordCharacter, Char.isAlphanum, Bool.or_eq_true] at h ⊢
  exact h.imp_left .inl

/-- A lexeme and the rest of the text make up the text again. -/
theorem parts_read (c : Char) (cs : List Char) : Parts (c :: cs) (read c cs) := by
  have hbranch := branch_read c cs
  generalize read c cs = lexeme at hbranch
  cases hbranch with
  | space => exact ⟨rfl, List.cons_ne_nil _ _⟩
  | string h =>
    subst h
    unfold string
    split
    · next inside rest hinside =>
      obtain ⟨rfl, -⟩ := stringContents?_cut hinside
      exact ⟨by simp, List.cons_ne_nil _ _⟩
    · exact ⟨List.append_nil _, List.cons_ne_nil _ _⟩
  | number h => exact parts_number h cs
  | word h =>
    refine ⟨List.takeWhile_append_dropWhile, ?_⟩
    rw [word, List.takeWhile_cons_of_pos (isWordCharacter_of_isWordStart h)]
    exact List.cons_ne_nil _ _
  | lineComment rest h hcs =>
    subst h hcs
    exact ⟨by simp only [lineComment, List.cons_append, List.takeWhile_append_dropWhile],
      List.cons_ne_nil _ _⟩
  | blockComment rest h hcs =>
    subst h hcs
    unfold blockComment
    split
    · next inside rest' hinside =>
      obtain ⟨rfl, -⟩ := blockComment?_cut hinside
      exact ⟨rfl, List.cons_ne_nil _ _⟩
    · exact ⟨List.append_nil _, List.cons_ne_nil _ _⟩
  | symbol =>
    unfold symbol
    split
    · exact ⟨congrArg (c :: ·) (List.take_append_drop 1 cs), List.cons_ne_nil _ _⟩
    · split <;> exact ⟨rfl, List.cons_ne_nil _ _⟩

/-! ## Kinds -/

theorem blockComment?_first {cs inside rest : List Char}
    (h : blockComment? cs = some (inside, rest)) : ∃ front, inside = front ++ ['*', '/'] ∧
      ∀ before behind, inside = before ++ '*' :: '/' :: behind → behind = [] := by
  induction cs using blockComment?.induct generalizing inside with
  | case1 cs =>
    cases h
    refine ⟨[], rfl, fun before behind hinside => ?_⟩
    have hlength := congrArg List.length hinside
    simp only [List.length_append, List.length_cons, List.length_nil] at hlength
    exact List.length_eq_zero_iff.mp (by omega)
  | case2 => cases h
  | case3 c cs hclose ih =>
    rw [blockComment?.eq_3 _ _ hclose] at h
    obtain ⟨⟨inside', rest'⟩, hrest, heq⟩ := Option.map_eq_some_iff.mp h
    cases heq
    obtain ⟨front, rfl, hfirst⟩ := ih hrest
    refine ⟨c :: front, rfl, fun before behind hinside => ?_⟩
    cases before with
    | nil =>
      -- an end mark at the very front would have ended the comment there
      obtain ⟨rfl, hbehind⟩ := List.cons_eq_cons.mp hinside
      obtain ⟨hcs, -⟩ := blockComment?_cut hrest
      exact (hclose (behind ++ rest) rfl (by rw [hcs, hbehind]; rfl)).elim
    | cons d before =>
      obtain ⟨rfl, hbehind⟩ := List.cons_eq_cons.mp hinside
      exact hfirst before behind hbehind

/-- The kinds of lexemes with what they say of their text. -/
inductive Shape : Lexeme → Prop
  | gap {taken rest : List Char} (h : Gap taken rest) : Shape ⟨.skipped, taken, rest⟩
  | string (inside rest : List Char) :
    Shape ⟨.token (.string (String.ofList inside)), '"' :: (inside ++ ['"']), rest⟩
  | number (value : Numeral) (taken rest : List Char) : Shape ⟨.token (.number value), taken, rest⟩
  | keyword (k : Keyword) {taken : List Char} (rest : List Char)
    (h : Keyword.ofText? (String.ofList taken) = some k) : Shape ⟨.token (.keyword k), taken, rest⟩
  | identifier {taken : List Char} (rest : List Char)
    (h : Keyword.ofText? (String.ofList taken) = none) : Shape ⟨.token .identifier, taken, rest⟩
  | symbol (s : Symbol) (taken rest : List Char) : Shape ⟨.token (.symbol s), taken, rest⟩
  | malformed (fault : LexicalFault) (taken rest : List Char) : Shape ⟨.malformed fault, taken, rest⟩

theorem shape_finishNumber (base : Base) (value : Numeral) (taken rest : List Char) :
    Shape (finishNumber base value taken rest) := by
  unfold finishNumber
  split
  · split
    · exact .malformed ..
    · exact .number ..
  · exact .number ..

theorem shape_radixNumber (base : Base) (marker cs : List Char) :
    Shape (radixNumber base marker cs) := by
  unfold radixNumber
  dsimp only
  split
  · split
    · exact .malformed ..
    · exact shape_finishNumber ..
  · exact shape_finishNumber ..

theorem shape_decimalNumber (cs : List Char) : Shape (decimalNumber cs) := by
  unfold decimalNumber
  dsimp only
  split
  · exact shape_finishNumber ..
  · split
    · exact .malformed ..
    · exact shape_finishNumber ..

theorem shape_lineComment (cs : List Char) : Shape (lineComment cs) := by
  refine .gap (.comment (.line (fun hmem => ?_) fun c hc => ?_))
  · simpa using List.all_eq_true.mp List.all_takeWhile _ hmem
  · have hhead := List.head?_dropWhile_not (· ≠ '\n') cs
    rw [show (cs.dropWhile (· ≠ '\n')).head? = some c from hc] at hhead
    simpa using hhead

theorem shape_blockComment (cs : List Char) : Shape (blockComment cs) := by
  unfold blockComment
  split
  · next inside rest hinside =>
    obtain ⟨front, rfl, hfirst⟩ := blockComment?_first hinside
    exact .gap (.comment (.block hfirst))
  · exact .malformed ..

theorem shape_read (c : Char) (cs : List Char) : Shape (read c cs) := by
  have hbranch := branch_read c cs
  generalize read c cs = lexeme at hbranch
  cases hbranch with
  | space h => exact .gap (.space h cs)
  | string =>
    unfold string
    split
    · exact .string ..
    · exact .malformed ..
  | number =>
    unfold number
    split
    · split
      · exact shape_radixNumber ..
      · exact shape_decimalNumber _
    · exact shape_decimalNumber _
  | word =>
    unfold word
    dsimp only
    split
    · next h => exact .keyword _ _ h
    · next h => exact .identifier _ h
  | lineComment rest => exact shape_lineComment rest
  | blockComment rest => exact shape_blockComment rest
  | symbol =>
    unfold symbol
    split
    · exact .symbol ..
    · split
      · exact .symbol ..
      · exact .malformed ..

/-- No lexeme is the end of the source. -/
theorem Shape.isEof {lexeme : Lexeme} {kind : TokenKind} (h : Shape lexeme)
    (hkind : lexeme.kind = .token kind) : kind.isEof = false := by
  cases h <;> cases hkind <;> rfl

/-- The contents of a string are what stands between its quotes. -/
theorem Shape.contents {lexeme : Lexeme} {contents : String} (h : Shape lexeme)
    (hkind : lexeme.kind = .token (.string contents)) :
    lexeme.taken = '"' :: (contents.toList ++ ['"']) := by
  cases h with
  | string inside rest =>
    cases hkind
    simp only [String.toList_ofList]
  | _ => cases hkind

/-- Only white space and comments are skipped. -/
theorem Shape.skipped {lexeme : Lexeme} (h : Shape lexeme) (hkind : lexeme.kind = .skipped) :
    Gap lexeme.taken lexeme.rest := by
  cases h with
  | gap h => exact h
  | _ => cases hkind

end LoxLang.Lexeme
