import LoxLang.Proofs.Token.Tiling

/-!
# One fault per malformed run

A fault is detected at the first character with which the piece before it cannot go on
(`Lexeme.Detected`). From there scanning passes over the text up to the first line feed or brace and
goes on with what it would find in the rest of the text (`Scanned.Resumed`). Neither of these
characters begins a malformed piece, so that any two faults have one of them between their spans
(`Scanned.Runs.separated`).
-/

namespace LoxLang

/-- The characters that end a malformed run. -/
def EndsRun (c : Char) : Prop :=
  c = '\n' ∨ c = '{' ∨ c = '}'

instance (c : Char) : Decidable (EndsRun c) :=
  inferInstanceAs (Decidable (_ ∨ _ ∨ _))

theorem Scanned.isResumePoint_iff {c : Char} : isResumePoint c = true ↔ EndsRun c := by
  simp only [isResumePoint, EndsRun, Bool.or_eq_true, decide_eq_true_eq, or_assoc]

/-! ## Where a fault is detected -/

namespace Lexeme

/-- What may not stand directly behind a number. -/
def Glues (c : Char) : Prop :=
  isWordCharacter c = true ∨ c = '.'

/-- How each fault shows: the malformed piece, and the text behind it, at whose beginning the fault
is detected. -/
inductive Detected : LexicalFault → List Char → List Char → Prop
  | strayCharacter {c : Char} (hspace : ¬IsSpace c) (hquote : c ≠ '"')
    (hword : isWordCharacter c = false) (hsymbol : Symbol.ofChar? c = none) (behind : List Char) :
    Detected (.strayCharacter c) [c] behind
  | unterminatedString {inside : List Char} (hopen : stringContents? inside = none) :
    Detected .unterminatedString ('"' :: inside) []
  | unterminatedComment {inside : List Char} (hopen : blockComment? inside = none) :
    Detected .unterminatedComment ('/' :: '*' :: inside) []
  | gluedCharacter (base : Base) {first c : Char} (hfirst : first.isDigit = true)
    (digits : List Char) (hglues : Glues c) (behind : List Char) :
    Detected (.gluedCharacter base c) (first :: digits) (c :: behind)
  | noDigits {base : Base} {marker : Char} (hmarker : Base.ofMarker? marker = some base)
    {behind : List Char} (hfree : ∀ c ∈ behind.head?, ¬Glues c) :
    Detected (.noDigits base (String.ofList ['0', marker])) ['0', marker] behind
  | noExponentDigits {first : Char} (hfirst : first.isDigit = true) (digits : List Char)
    {marker behind : List Char}
    (hmarker : exponentMarker (marker ++ behind) = some (marker, behind))
    (hdigit : ∀ c ∈ behind.head?, c.isDigit = false) :
    Detected .noExponentDigits (first :: (digits ++ marker)) behind

/-- If the lexeme is malformed, then it shows as its fault does. -/
def Shows (lexeme : Lexeme) : Prop :=
  ∀ fault, lexeme.kind = .malformed fault → Detected fault lexeme.taken lexeme.rest

theorem shows_of_token {kind : TokenKind} {taken rest : List Char} :
    Shows ⟨.token kind, taken, rest⟩ := fun _ h => by cases h

theorem shows_of_skipped {taken rest : List Char} : Shows ⟨.skipped, taken, rest⟩ :=
  fun _ h => by cases h

theorem shows_finishNumber (base : Base) (value : Numeral) {first : Char}
    (hfirst : first.isDigit = true) (digits rest : List Char) :
    Shows (finishNumber base value (first :: digits) rest) := by
  unfold finishNumber
  split
  · next c behind =>
    split
    · next hglued =>
      rintro _ ⟨⟩
      simp only [Bool.or_eq_true, decide_eq_true_eq] at hglued
      exact .gluedCharacter base hfirst digits hglued behind
    · exact shows_of_token
  · exact shows_of_token

/-- What a finished number is followed by. -/
theorem not_glues_of_finishNumber {base : Base} {value : Numeral} {taken rest : List Char}
    {kind : TokenKind} (h : (finishNumber base value taken rest).kind = .token kind) :
    ∀ c ∈ rest.head?, ¬Glues c := by
  rintro c hc
  cases rest with
  | nil => cases hc
  | cons d behind =>
    obtain rfl : d = c := Option.some.inj hc
    unfold finishNumber at h
    split at h
    · next heq =>
      cases heq
      split at h
      · cases h
      · next hfree => simpa only [Glues, Bool.or_eq_true, decide_eq_true_eq] using hfree
    · next heq => cases heq

theorem shows_radixNumber {base : Base} {marker : Char}
    (hmarker : Base.ofMarker? marker = some base) (cs : List Char) :
    Shows (radixNumber base ['0', marker] cs) := by
  have hzero : '0'.isDigit = true := rfl
  have hshows := shows_finishNumber base
    (radixValue base (cs.takeWhile (Number.isDigitIn base.radix))) hzero
    (marker :: cs.takeWhile (Number.isDigitIn base.radix))
    (cs.dropWhile (Number.isDigitIn base.radix))
  unfold radixNumber
  dsimp only
  split
  · next kind hkind =>
    split
    · next hempty =>
      rintro _ ⟨⟩
      have hfree := not_glues_of_finishNumber hkind
      rw [finishNumber_taken, finishNumber_rest, List.isEmpty_iff.mp hempty]
      exact .noDigits hmarker hfree
    · exact hshows
  · exact hshows

/-- The mantissa of a number begins with its first digit. -/
theorem exists_mantissa {first : Char} (hfirst : first.isDigit = true) (cs fraction : List Char) :
    ∃ digits, (first :: cs).takeWhile Char.isDigit ++ pointed fraction = first :: digits :=
  ⟨_, by rw [List.takeWhile_cons_of_pos hfirst, List.cons_append]⟩

theorem shows_decimalNumber {first : Char} (hfirst : first.isDigit = true) (cs : List Char) :
    Shows (decimalNumber (first :: cs)) := by
  unfold decimalNumber
  dsimp only
  generalize fractionPart ((first :: cs).dropWhile Char.isDigit) = parts
  obtain ⟨fraction, after⟩ := parts
  obtain ⟨digits, hmantissa⟩ := exists_mantissa hfirst cs fraction
  simp only [hmantissa]
  split
  · exact shows_finishNumber _ _ hfirst _ _
  · next marker behind hmarker =>
    split
    · next hempty =>
      rintro _ ⟨⟩
      obtain ⟨rfl, -⟩ := exponentMarker_cut hmarker
      refine .noExponentDigits hfirst digits hmarker fun c hc => ?_
      cases behind with
      | nil => cases hc
      | cons d rest =>
        obtain rfl : d = c := Option.some.inj hc
        by_contra hdigit
        rw [List.takeWhile_cons_of_pos (Bool.not_eq_false _ ▸ hdigit)] at hempty
        cases hempty
    · rw [List.cons_append, List.cons_append, List.append_assoc]
      exact shows_finishNumber _ _ hfirst _ _

theorem shows_number {first : Char} (hfirst : first.isDigit = true) (cs : List Char) :
    Shows (number first cs) := by
  unfold number
  split
  · split
    · next hmarker => exact shows_radixNumber hmarker _
    · exact shows_decimalNumber hfirst _
  · exact shows_decimalNumber hfirst _

theorem shows_symbol {c : Char} (hspace : ¬IsSpace c) (hquote : c ≠ '"')
    (hword : isWordCharacter c = false) (cs : List Char) : Shows (symbol c cs) := by
  unfold symbol
  split
  · exact shows_of_token
  · split
    · exact shows_of_token
    · next hsymbol =>
      rintro _ ⟨⟩
      exact .strayCharacter hspace hquote hword hsymbol cs

theorem shows_read (c : Char) (cs : List Char) : Shows (read c cs) := by
  unfold read
  split
  · exact shows_of_skipped
  · next hspace =>
    split
    · unfold string
      split
      · exact shows_of_token
      · next hopen =>
        rintro _ ⟨⟩
        exact .unterminatedString hopen
    · next hquote =>
      split
      · next hdigit => exact shows_number hdigit cs
      · next hdigit =>
        split
        · exact shows_of_token
        · next hstart =>
          have hword : isWordCharacter c = false := by
            simp only [isWordStart, isWordCharacter, Char.isAlphanum, Bool.or_eq_true, not_or,
              Bool.not_eq_true, Bool.or_eq_false_iff] at hdigit hstart ⊢
            exact ⟨⟨hstart.1, hdigit⟩, hstart.2⟩
          split
          · exact shows_of_skipped
          · unfold blockComment
            split
            · exact shows_of_skipped
            · next hopen =>
              rintro _ ⟨⟩
              exact .unterminatedComment hopen
          · exact shows_symbol hspace hquote hword _

theorem Detected.ne_nil {fault : LexicalFault} {piece behind : List Char}
    (h : Detected fault piece behind) : piece ≠ [] := by
  cases h <;> exact List.cons_ne_nil _ _

/-- No malformed piece begins with the end of a run. -/
theorem Detected.not_endsRun {fault : LexicalFault} {piece behind : List Char}
    (h : Detected fault piece behind) : ∀ c ∈ piece.head?, ¬EndsRun c := by
  have hdigit {c d : Char} (hd : d.isDigit = true) (hc : some d = some c) : ¬EndsRun c := by
    cases hc
    rintro (rfl | rfl | rfl) <;> cases hd
  rintro c hc
  cases h with
  | strayCharacter hspace _ _ hsymbol =>
    cases hc
    rintro (rfl | rfl | rfl)
    · exact hspace (.inr (.inr (.inr rfl)))
    · cases hsymbol
    · cases hsymbol
  | unterminatedString | unterminatedComment | noDigits =>
    cases hc
    decide
  | gluedCharacter _ hfirst | noExponentDigits hfirst => exact hdigit hfirst hc

end Lexeme

/-! ## Scanning behind a text -/

namespace Scanned

def isFault : Scanned → Bool
  | token _ => false
  | fault _ _ => true

/-- What scanning finds in a text that stands behind another one. -/
def scanBehind (before text : List Char) : List Scanned :=
  ofChars text.length (Text.byteLength before) (1 + Text.lineFeeds before) text

/-- A step that has no character to read changes nothing. -/
theorem ofChars_succ (fuel offset line : Nat) (text : List Char) (h : text.length ≤ fuel) :
    ofChars (fuel + 1) offset line text = ofChars fuel offset line text := by
  induction fuel generalizing offset line text with
  | zero =>
    obtain rfl : text = [] := List.length_eq_zero_iff.mp (Nat.le_zero.mp h)
    rfl
  | succ fuel ih =>
    cases text with
    | nil => rfl
    | cons c cs =>
      have hrest : (Lexeme.read c cs).rest.length ≤ fuel :=
        Nat.le_of_lt_succ (Nat.lt_of_lt_of_le (Lexeme.parts_read c cs).length_rest_lt h)
      have hbehind := Nat.le_trans
        (List.dropWhile_suffix (l := (Lexeme.read c cs).rest) fun c => !isResumePoint c).length_le
        hrest
      rw [ofChars, ofChars]
      simp only [ih _ _ _ hrest, ih _ _ _ hbehind]

theorem ofChars_eq_of_le {fuel : Nat} (offset line : Nat) {text : List Char}
    (h : text.length ≤ fuel) :
    ofChars fuel offset line text = ofChars text.length offset line text := by
  obtain ⟨more, rfl⟩ := Nat.exists_eq_add_of_le h
  induction more with
  | zero => rfl
  | succ more ih =>
    rw [← Nat.add_assoc, ofChars_succ _ _ _ _ (Nat.le_add_right ..), ih (Nat.le_add_right ..)]

/-- Scanning goes on behind a piece. -/
theorem ofChars_eq_scanBehind {fuel : Nat} (before taken : List Char) {rest : List Char}
    (h : rest.length ≤ fuel) :
    ofChars fuel (Text.byteLength before + Text.byteLength taken)
      (1 + Text.lineFeeds before + Text.lineFeeds taken) rest =
    scanBehind (before ++ taken) rest := by
  rw [ofChars_eq_of_le _ _ h, scanBehind, Text.byteLength_append, Text.lineFeeds_append,
    Nat.add_assoc 1]

theorem behind_eq (before piece : List Char) (kind : TokenKind) :
    Token.behind before piece kind =
      ⟨kind, String.ofList piece, 1 + Text.lineFeeds before + Text.lineFeeds piece,
        ⟨Text.byteLength before, Text.byteLength before + Text.byteLength piece⟩⟩ := by
  rw [Token.behind, Text.lineFeeds_append, Nat.add_assoc]

/-- Behind a text that has been scanned, another one is read piece by piece. What a malformed piece
makes scanning pass over ends before the first end of a run. -/
inductive Runs : List Char → List Char → List Scanned → Prop
  | done (before : List Char) : Runs before [] [token (.behind before [] .eof)]
  | skipped {before piece text : List Char} {items : List Scanned} (hpiece : piece ≠ [])
    (rest : Runs (before ++ piece) text items) : Runs before (piece ++ text) items
  | token {before piece text : List Char} {items : List Scanned} (hpiece : piece ≠ [])
    (kind : TokenKind) (rest : Runs (before ++ piece) text items) :
    Runs before (piece ++ text) (token (.behind before piece kind) :: items)
  | fault {before piece passed resumed : List Char} {items : List Scanned} {cause : LexicalFault}
    (hdetected : Lexeme.Detected cause piece (passed ++ resumed))
    (hpassed : ∀ c ∈ passed, ¬EndsRun c) (hresumed : ∀ c ∈ resumed.head?, EndsRun c)
    (hitems : items = scanBehind (before ++ piece ++ passed) resumed)
    (rest : Runs (before ++ piece ++ passed) resumed items) :
    Runs before (piece ++ (passed ++ resumed))
      (fault cause (.behind before piece .unknown) :: items)

theorem runs_scanBehind (before text : List Char) : Runs before text (scanBehind before text) := by
  induction hlength : text.length using Nat.strongRecOn generalizing before text with
  | ind length ih =>
    subst hlength
    cases text with
    | nil => simpa [scanBehind, ofChars, Token.behind, Text.byteLength] using Runs.done before
    | cons c cs =>
      obtain ⟨htext, hpiece⟩ := Lexeme.parts_read c cs
      have hshows := Lexeme.shows_read c cs
      have hrest : (Lexeme.read c cs).rest.length ≤ cs.length :=
        Nat.le_of_lt_succ (Lexeme.parts_read c cs).length_rest_lt
      replace ih {before rest : List Char} (h : rest.length ≤ cs.length) :
          Runs before rest (scanBehind before rest) :=
        ih rest.length (Nat.lt_succ_of_le h) _ _ rfl
      rw [scanBehind, List.length_cons, ofChars]
      generalize Lexeme.read c cs = lexeme at htext hpiece hshows hrest
      obtain ⟨kind, piece, rest⟩ := lexeme
      dsimp only at htext hpiece hrest ⊢
      rw [← htext]
      cases kind with
      | skipped =>
        dsimp only
        rw [ofChars_eq_scanBehind before piece hrest]
        exact .skipped hpiece (ih hrest)
      | token kind =>
        dsimp only
        rw [ofChars_eq_scanBehind before piece hrest, ← behind_eq]
        exact .token hpiece kind (ih hrest)
      | malformed cause =>
        have hbehind : (rest.dropWhile fun c => !isResumePoint c).length ≤ cs.length :=
          Nat.le_trans (List.dropWhile_suffix fun c => !isResumePoint c).length_le hrest
        have hpassed : ∀ c ∈ rest.takeWhile (fun c => !isResumePoint c), isResumePoint c = false :=
          fun c hc => by simpa using List.all_eq_true.mp List.all_takeWhile _ hc
        have hresumed : ∀ c ∈ (rest.dropWhile fun c => !isResumePoint c).head?, EndsRun c :=
          fun c hc => by
            have hhead := List.head?_dropWhile_not (fun c => !isResumePoint c) rest
            rw [show (rest.dropWhile fun c => !isResumePoint c).head? = some c from hc] at hhead
            simpa [isResumePoint_iff] using hhead
        have hitems := ofChars_eq_scanBehind before
          (piece ++ rest.takeWhile fun c => !isResumePoint c) hbehind
        rw [Text.byteLength_append, Text.lineFeeds_append, lineFeeds_of_passed hpassed,
          Nat.add_zero, ← Nat.add_assoc, ← List.append_assoc] at hitems
        have hdetected := hshows cause rfl
        rw [← List.takeWhile_append_dropWhile (p := fun c => !isResumePoint c)
          (l := rest)] at hdetected
        have hruns : Runs before _ _ := .fault hdetected
          (fun c hc hends => Bool.false_ne_true
            ((hpassed c hc).symm.trans (isResumePoint_iff.mpr hends))) hresumed rfl (ih hbehind)
        rw [List.takeWhile_append_dropWhile] at hruns
        dsimp only
        rwa [hitems, ← behind_eq]

/-! ## The faults of a text -/

/-- The text between two items, the end of a run in it. -/
def Apart (cs : List Char) (a b : Scanned) : Prop :=
  ∃ between, Span.cut? ⟨a.located.span.stop, b.located.span.start⟩ cs = some between ∧
    ∃ c ∈ between, EndsRun c

/-- A fault in a text: the malformed piece that it covers, detected with what stands behind; what
is passed over, up to the first end of a run or the end of the text; and what is found from there
on. -/
inductive Resumed (cs : List Char) (cause : LexicalFault) (t : Token) (rest : List Scanned) : Prop
  | intro (before piece passed resumed : List Char)
    (text : cs = before ++ (piece ++ (passed ++ resumed)))
    (located : t = .behind before piece .unknown)
    (detected : Lexeme.Detected cause piece (passed ++ resumed))
    (passed_over : ∀ c ∈ passed, ¬EndsRun c) (ended : ∀ c ∈ resumed.head?, EndsRun c)
    (found : rest = scanBehind (before ++ piece ++ passed) resumed)

theorem exists_of_isFault {item : Scanned} (h : item.isFault = true) :
    ∃ cause t, item = fault cause t := by
  cases item with
  | token => cases h
  | fault cause t => exact ⟨cause, t, rfl⟩

namespace Runs

variable {before text : List Char} {items : List Scanned}

/-- There are no more faults than ends of runs, but for one before the first end. -/
theorem length_faults_le (h : Runs before text items) :
    (items.filter isFault).length ≤ 1 + text.countP EndsRun ∧
      ((∀ c ∈ text.head?, EndsRun c) → (items.filter isFault).length ≤ text.countP EndsRun) := by
  -- a piece that begins with the end of a run pays for a fault behind it
  have hcount {piece : List Char} (hpiece : piece ≠ []) {text : List Char}
      (hends : ∀ c ∈ (piece ++ text).head?, EndsRun c) : 0 < piece.countP EndsRun := by
    obtain ⟨c, piece, rfl⟩ := List.exists_cons_of_ne_nil hpiece
    exact List.countP_pos_iff.mpr ⟨c, List.mem_cons_self, decide_eq_true (hends c rfl)⟩
  induction h with
  | done => exact ⟨Nat.zero_le _, fun _ => Nat.zero_le _⟩
  | skipped hpiece _ ih =>
    rw [List.countP_append]
    refine ⟨by omega, fun hends => ?_⟩
    have hself := hcount hpiece hends
    omega
  | token hpiece kind _ ih =>
    rw [List.countP_append, List.filter_cons_of_neg Bool.false_ne_true]
    refine ⟨by omega, fun hends => ?_⟩
    have hself := hcount hpiece hends
    omega
  | @fault before piece passed resumed items cause hdetected _ hresumed _ _ ih =>
    have hbehind := ih.2 hresumed
    rw [List.countP_append, List.countP_append, List.filter_cons_of_pos rfl, List.length_cons]
    refine ⟨by omega, fun hends => ?_⟩
    obtain ⟨c, inside, rfl⟩ := List.exists_cons_of_ne_nil hdetected.ne_nil
    exact absurd (hends c rfl) (hdetected.not_endsRun c rfl)

/-- A fault lies in the text that it was found in, and does not begin with the end of a run. -/
theorem placed (h : Runs before text items) {cause : LexicalFault} {t : Token}
    (hmem : Scanned.fault cause t ∈ items) :
    ∃ front piece behind, text = front ++ (piece ++ behind) ∧
      t = .behind (before ++ front) piece .unknown ∧ piece ≠ [] ∧
        ∀ c ∈ piece.head?, ¬EndsRun c := by
  -- what stands behind a piece and what was passed over is placed behind the whole
  have hwiden {before first text : List Char}
      (h : ∃ front piece behind, text = front ++ (piece ++ behind) ∧
        t = .behind (before ++ first ++ front) piece .unknown ∧ piece ≠ [] ∧
          ∀ c ∈ piece.head?, ¬EndsRun c) :
      ∃ front piece behind, first ++ text = front ++ (piece ++ behind) ∧
        t = .behind (before ++ front) piece .unknown ∧ piece ≠ [] ∧
          ∀ c ∈ piece.head?, ¬EndsRun c := by
    obtain ⟨front, piece, behind, rfl, ht, hpiece⟩ := h
    exact ⟨first ++ front, piece, behind, (List.append_assoc ..).symm,
      by rw [ht, List.append_assoc], hpiece⟩
  induction h with
  | done => cases List.mem_singleton.mp hmem
  | skipped _ _ ih => exact hwiden (ih hmem)
  | token _ _ _ ih =>
    rcases List.mem_cons.mp hmem with heq | hmem
    · cases heq
    · exact hwiden (ih hmem)
  | @fault before piece passed resumed _ _ hdetected _ _ _ _ ih =>
    rcases List.mem_cons.mp hmem with heq | hmem
    · cases heq
      exact ⟨[], piece, _, rfl, by rw [List.append_nil], hdetected.ne_nil, hdetected.not_endsRun⟩
    · rw [List.append_assoc] at ih
      rw [← List.append_assoc]
      exact hwiden (ih hmem)

/-- Between any two faults stands the end of a run. -/
theorem separated (h : Runs before text items) :
    items.Pairwise fun a b => a.isFault = true → b.isFault = true → Apart (before ++ text) a b := by
  induction h with
  | done => exact List.pairwise_singleton ..
  | skipped _ _ ih => rwa [List.append_assoc] at ih
  | token _ _ _ ih =>
    rw [List.append_assoc] at ih
    exact List.pairwise_cons.mpr ⟨fun _ _ h => (Bool.false_ne_true h).elim, ih⟩
  | @fault before piece passed resumed _ _ _ _ hresumed _ hrest ih =>
    simp only [List.append_assoc] at ih
    refine List.pairwise_cons.mpr ⟨fun item hmem _ hfault => ?_, ih⟩
    obtain ⟨cause, t, rfl⟩ := exists_of_isFault hfault
    obtain ⟨front, second, behind, rfl, ht, hsecond, hhead⟩ := hrest.placed hmem
    -- the second fault does not begin where scanning went on, as the end of a run stands there
    obtain ⟨c, hc, hends⟩ : ∃ c ∈ front, EndsRun c := by
      cases front with
      | nil =>
        obtain ⟨c, inside, rfl⟩ := List.exists_cons_of_ne_nil hsecond
        exact absurd (hresumed c rfl) (hhead c rfl)
      | cons c front => exact ⟨c, List.mem_cons_self, hresumed c rfl⟩
    refine ⟨passed ++ front, ?_, c, List.mem_append_right _ hc, hends⟩
    have hcut : Span.cut? ⟨Text.byteLength (before ++ piece),
        Text.byteLength (before ++ piece ++ passed ++ front)⟩
        (before ++ piece ++ (passed ++ front ++ (second ++ behind))) = some (passed ++ front) :=
      Span.cut?_eq rfl (by simp only [Text.byteLength_append, Nat.add_assoc])
    simp only [located, ht]
    simpa only [Token.behind, Text.byteLength_append, List.append_assoc] using hcut

/-- Behind a fault scanning goes on with the first end of a run. -/
theorem resumed (h : Runs before text items) {front rest : List Scanned} {cause : LexicalFault}
    {t : Token} (hitems : items = front ++ Scanned.fault cause t :: rest) :
    Resumed (before ++ text) cause t rest := by
  induction h generalizing front with
  | done =>
    rcases List.append_eq_cons_iff.mp hitems.symm with ⟨-, heq⟩ | ⟨_, -, hnil⟩
    · cases heq
    · exact absurd hnil.symm (List.append_ne_nil_of_right_ne_nil _ (List.cons_ne_nil _ _))
  | skipped _ _ ih =>
    rw [← List.append_assoc]
    exact ih hitems
  | token _ _ _ ih =>
    rw [← List.append_assoc]
    rcases List.append_eq_cons_iff.mp hitems.symm with ⟨-, heq⟩ | ⟨front, -, heq⟩
    · cases heq
    · exact ih heq
  | @fault before piece passed resumed _ _ hdetected hpassed hresumed hscan hrest ih =>
    rcases List.append_eq_cons_iff.mp hitems.symm with ⟨-, heq⟩ | ⟨front, -, heq⟩
    · cases heq
      exact ⟨before, piece, passed, resumed, rfl, rfl, hdetected, hpassed, hresumed, hscan⟩
    · simpa only [List.append_assoc] using ih heq

end Runs

/-- How the faults of a source lie in it: one for each malformed run. -/
structure FaultPerRun (source : String) : Prop where
  separated : (ofSource source).Pairwise fun a b =>
    a.isFault = true → b.isFault = true → Apart source.toList a b
  bounded : (scan source).2.length ≤ 1 + source.toList.countP EndsRun
  resumed : ∀ front cause t rest, ofSource source = front ++ fault cause t :: rest →
    Resumed source.toList cause t rest

theorem length_faults_scan (source : String) :
    (scan source).2.length = ((ofSource source).filter isFault).length := by
  unfold scan
  generalize ofSource source = items
  dsimp only
  induction items with
  | nil => rfl
  | cons item items ih =>
    cases item with
    | token t =>
      rw [List.filter_cons_of_neg Bool.false_ne_true, ← ih]
      rfl
    | fault cause t =>
      rw [List.filter_cons_of_pos rfl, List.length_cons, ← ih]
      rfl

theorem runs_ofSource (source : String) : Runs [] source.toList (ofSource source) :=
  runs_scanBehind [] source.toList

theorem faultPerRun_ofSource (source : String) : FaultPerRun source where
  separated := (runs_ofSource source).separated
  bounded := by
    rw [length_faults_scan]
    exact (runs_ofSource source).length_faults_le.1
  resumed := fun _ _ _ _ hitems => (runs_ofSource source).resumed hitems

example : (scan "@#$ \"x\" {@ /* }").2.length = 2 := by decide +kernel

end Scanned

end LoxLang
