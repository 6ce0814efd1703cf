import LoxLang.Proofs.Token.Reading

/-!
# The spelling of names and keywords

Every token that is scanned has a spelling that fits its kind (`spelled_scan`): a keyword is spelled
as it is, and no name is spelled like a keyword.
-/

namespace LoxLang

theorem TokenKind.eq_of_isSymbol {kind : TokenKind} {s : Symbol} (h : kind.isSymbol s = true) :
    kind = symbol s := by
  cases kind with
  | symbol s' => exact congrArg symbol (of_decide_eq_true h).symm
  | _ => cases h

/-- An identifier that is not spelled like a keyword. -/
structure Token.IsName (t : Token) : Prop where
  kind : t.kind.isIdentifier = true
  spelling : Keyword.ofText? t.lexeme = none

/-- The spelling of a token fits its kind. -/
structure Token.Spelled (t : Token) : Prop where
  keyword : ∀ k, t.kind = .keyword k → t.lexeme = k.text
  name : t.kind.isIdentifier = true → t.IsName

theorem Keyword.text_of_ofText? {word : String} {k : Keyword} (h : ofText? word = some k) :
    k.text = word := by
  simpa using List.find?_some h

theorem Keyword.ofText?_text (k : Keyword) : ofText? k.text = some k := by
  cases k <;> decide

theorem Token.IsName.ne {t : Token} (h : t.IsName) (k : Keyword) : t.lexeme ≠ k.text := by
  intro heq
  have hspelling := h.spelling
  rw [heq, k.ofText?_text] at hspelling
  cases hspelling

/-- Of a token that is neither a keyword nor a name nothing is asked. -/
theorem Token.Spelled.of_kind {t : Token} (hkeyword : ∀ k, t.kind ≠ .keyword k)
    (hname : t.kind.isIdentifier = false) : t.Spelled :=
  ⟨fun k h => absurd h (hkeyword k), fun h => absurd h (by simp [hname])⟩

theorem Lexeme.Shape.spelled {lexeme : Lexeme} {t : Token} (h : Shape lexeme)
    (hkind : lexeme.kind = .token t.kind) (htext : String.ofList lexeme.taken = t.lexeme) :
    t.Spelled := by
  obtain ⟨kind, _, line, span⟩ := t
  subst htext
  cases h with
  | keyword k rest h =>
    cases hkind
    refine ⟨fun _ hk => ?_, fun hname => absurd hname Bool.false_ne_true⟩
    cases hk
    exact (Keyword.text_of_ofText? h).symm
  | identifier rest h =>
    cases hkind
    exact ⟨fun _ hk => (by cases hk), fun hname => ⟨hname, h⟩⟩
  | gap | malformed => cases hkind
  | string | number | symbol =>
    cases hkind
    exact .of_kind (fun _ hk => by cases hk) rfl

theorem Scanned.read_of_mem_ofChars (fuel offset line : Nat) (cs : List Char) :
    ∀ t, token t ∈ ofChars fuel offset line cs → t.kind = .eof ∨ ∃ c rest,
      (Lexeme.read c rest).kind = .token t.kind ∧
        String.ofList (Lexeme.read c rest).taken = t.lexeme := by
  have hend (offset : Nat) (line : Nat) : ∀ t,
      token t ∈ [token ⟨.eof, "", line, ⟨offset, offset⟩⟩] → t.kind = .eof := by
    intro t ht
    cases List.mem_singleton.mp ht
    rfl
  induction fuel generalizing offset line cs with
  | zero => cases cs <;> exact fun t ht => .inl (hend offset line t ht)
  | succ fuel ih =>
    cases cs with
    | nil => exact fun t ht => .inl (hend offset line t ht)
    | cons c cs =>
      intro t ht
      rw [ofChars] at ht
      cases hread : (Lexeme.read c cs).kind with
      | skipped =>
        simp only [hread] at ht
        exact ih _ _ _ t ht
      | token kind =>
        simp only [hread] at ht
        rcases List.mem_cons.mp ht with heq | ht
        · cases heq
          exact .inr ⟨c, cs, hread, rfl⟩
        · exact ih _ _ _ t ht
      | malformed cause =>
        simp only [hread] at ht
        rcases List.mem_cons.mp ht with heq | ht
        · cases heq
        · exact ih _ _ _ t ht

/-- A token is the end of the source or the lexeme at the front of some text. -/
theorem read_of_mem_scan {source : String} {t : Token} (ht : t ∈ (scan source).1) :
    t.kind = .eof ∨ ∃ c rest, (Lexeme.read c rest).kind = .token t.kind ∧
      String.ofList (Lexeme.read c rest).taken = t.lexeme := by
  obtain ⟨item, hitem, htoken⟩ := List.mem_filterMap.mp ht
  cases item with
  | fault => cases htoken
  | token =>
    cases htoken
    exact Scanned.read_of_mem_ofChars _ _ _ _ t hitem

/-- The tokens of a source are spelled as their kinds say. -/
theorem spelled_scan (source : String) : ∀ t ∈ (scan source).1, t.Spelled := by
  intro t ht
  rcases read_of_mem_scan ht with hend | ⟨c, rest, hkind, htext⟩
  · exact .of_kind (fun k hk => by cases hend.symm.trans hk) (by rw [hend]; rfl)
  · exact (Lexeme.shape_read c rest).spelled hkind htext

end LoxLang
