import LoxLang.Proofs.Grammar.Progress
import LoxLang.Proofs.Grammar.Steps
import LoxLang.Proofs.Token.Words

/-!
# Reading lexemes

What a step of a parse gives where all tokens ahead are lexemes, as those of a source are
(`Legibly`). There is one lemma for each primitive step, so that the lexemes that a rule puts into a
tree are known by their kinds.
-/

namespace LoxLang

namespace Token

variable {t : Token}

theorem Legible.exists_word (h : t.Legible) (hkind : t.kind.isEof = false) : ∃ w, t.Reads w :=
  h.resolve_left (by rw [hkind]; exact Bool.false_ne_true)

theorem Legible.symbol {s : Symbol} (h : t.Legible) (hkind : t.kind = .symbol s) :
    t.Reads (.symbol s) := by
  obtain ⟨w, hw⟩ := h.exists_word (by rw [hkind]; rfl)
  have hword := hw.kind.symm.trans hkind
  cases w <;> cases hword
  exact hw

theorem Legible.keyword {k : Keyword} (h : t.Legible) (hkind : t.kind = .keyword k) :
    t.Reads (.keyword k) := by
  obtain ⟨w, hw⟩ := h.exists_word (by rw [hkind]; rfl)
  have hword := hw.kind.symm.trans hkind
  cases w <;> cases hword
  exact hw

theorem Legible.identifier (h : t.Legible) (hkind : t.kind.isIdentifier = true) :
    ∃ i, t.Reads (.identifier i) := by
  have hname : t.kind = .identifier := by
    cases heq : t.kind with
    | identifier => rfl
    | _ =>
      rw [heq] at hkind
      cases hkind
  obtain ⟨w, hw⟩ := h.exists_word (by rw [hname]; rfl)
  have hword := hw.kind.symm.trans hname
  cases w <;> cases hword
  exact ⟨_, hw⟩

theorem Legible.number {value : Numeral} (h : t.Legible) (hkind : t.kind = .number value) :
    value.IsUnsigned := by
  obtain ⟨w, hw⟩ := h.exists_word (by rw [hkind]; rfl)
  exact Word.isUnsigned (hw.kind.symm.trans hkind)

theorem Legible.string {contents : String} (h : t.Legible) (hkind : t.kind = .string contents) :
    ∃ c : Contents, contents = String.ofList c.text := by
  obtain ⟨w, hw⟩ := h.exists_word (by rw [hkind]; rfl)
  have hword := hw.kind.symm.trans hkind
  cases w <;> cases hword
  exact ⟨_, rfl⟩

end Token

/-- All tokens are names. -/
def AreNames (params : List Token) : Prop :=
  ∃ is, List.Forall₂ (fun t i => Token.Reads t (.identifier i)) params is

theorem AreNames.nil : AreNames [] := ⟨[], .nil⟩

theorem AreNames.cons {t : Token} {ts : List Token} (h : ∃ i, t.Reads (.identifier i))
    (hts : AreNames ts) : AreNames (t :: ts) := by
  obtain ⟨i, hi⟩ := h
  obtain ⟨is, his⟩ := hts
  exact ⟨i :: is, .cons hi his⟩

theorem AreNames.of_forall {ts : List Token} (h : ∀ t ∈ ts, ∃ i, t.Reads (.identifier i)) :
    AreNames ts := by
  induction ts with
  | nil => exact .nil
  | cons t ts ih =>
    obtain ⟨ht, hts⟩ := List.forall_mem_cons.mp h
    exact .cons ht (ih hts)

/-- The head of an arrow as it is read. -/
structure ArrowHead (params : List Token) (arrow : Token) : Prop where
  params : AreNames params
  arrow : arrow.Reads (.symbol .arrow)

namespace ParseState

/-- The tokens ahead are lexemes. -/
def Legible (s : ParseState) : Prop := ∀ t ∈ s.rest, t.Legible

variable {s : ParseState}

theorem Legible.advance (h : s.Legible) : s.advance.Legible :=
  fun t ht => h t ((remains_advance s).mem ht)

theorem Legible.next? (h : s.Legible) : ∀ t ∈ s.next?, t.Legible := by
  intro t ht
  rw [ParseState.next?] at ht
  split at ht
  · next hrest =>
    split at ht
    · cases ht
    · cases ht
      exact h _ (by rw [hrest]; exact List.mem_cons_self)
  · cases ht

/-- A declaration that is given up. -/
theorem Legible.skip (h : s.Legible) (error : GrammarError) :
    (s.note error).synchronize.Legible :=
  fun t ht => h t (((remains_skipTokens _ _).trans (remains_advance (s.note error))).mem ht)

end ParseState

namespace Parse

variable {α : Type} {act : Parse α} {P : α → Prop}

/-! ## Steps and their results -/

/-- Behind a step in front of lexemes, what is left are lexemes too. -/
abbrev legibility : Conduct ParseStop ParseState where
  good := ParseState.Legible
  keeps _ t := t.Legible
  stops _ := True
  refl := id
  trans _ h := h
  stays h _ := h

/-- What a step gives in front of lexemes. -/
abbrev Legibly (act : Parse α) (P : α → Prop) : Prop := legibility.Always act P

namespace Legibly

/-! ## Steps on tokens -/

theorem outOfFuel : Legibly (outOfFuel : Parse α) P := fun _ hs => ⟨hs, trivial⟩

theorem failAt {fault : GrammarFault} {token : Token} : Legibly (failAt fault token : Parse α) P :=
  fun _ hs => ⟨hs, trivial⟩

theorem failHere {fault : GrammarFault} : Legibly (failHere fault : Parse α) P :=
  fun _ hs => ⟨hs, trivial⟩

theorem get : Legibly (get : Parse ParseState) ParseState.Legible := fun _ hs => ⟨hs, hs⟩

theorem advance : Legibly (modify ParseState.advance) fun _ => True :=
  fun _ hs => ⟨hs.advance, trivial⟩

theorem noteAt {fault : GrammarFault} {token : Token} :
    Legibly (noteAt fault token) fun _ => True :=
  fun _ hs => ⟨hs, trivial⟩

theorem nextIs {wanted : TokenKind → Bool} : Legibly (nextIs wanted) fun _ => True :=
  fun _ hs => ⟨hs, trivial⟩

theorem nextKind? : Legibly nextKind? fun _ => True := fun _ hs => ⟨hs, trivial⟩

theorem atEnd : Legibly atEnd fun _ => True := fun _ hs => ⟨hs, trivial⟩

theorem freshId : Legibly freshId fun _ => True := fun _ hs => ⟨hs, trivial⟩

/-- A token that is taken is a lexeme of the wanted kind. -/
theorem accept? {wanted : TokenKind → Bool} :
    Legibly (accept? wanted) fun found => ∀ t ∈ found, t.Legible ∧ wanted t.kind = true :=
  fun _ => .accept? (fun _ ht => nomatch ht) fun t hnext hwanted hs =>
    ⟨hs.advance, fun _ ht => Option.some.inj ht ▸ ⟨hs.next? t hnext, hwanted⟩⟩

theorem accept {wanted : TokenKind → Bool} : Legibly (accept wanted) fun _ => True :=
  accept?.bind fun _ _ => .pure trivial

theorem acceptSymbol {symbol : Symbol} : Legibly (acceptSymbol symbol) fun _ => True := accept

theorem expect {wanted : TokenKind → Bool} {what : String} :
    Legibly (expect wanted what) fun t => t.Legible ∧ wanted t.kind = true :=
  accept?.bind fun found hfound => by
    cases found with
    | some t => exact .pure (hfound t rfl)
    | none => exact Legibly.failHere

theorem expectSymbol {symbol : Symbol} {what : String} :
    Legibly (expectSymbol symbol what) fun _ => True := expect.discard

theorem expectName {what : String} :
    Legibly (expectName what) fun t => ∃ i, t.Reads (.identifier i) :=
  expect.imp fun _ ht => ht.1.identifier ht.2

theorem limit {count : Nat} {what : String} : Legibly (limit count what) fun _ => True :=
  .ite (fun _ => get.andThen fun _ => noteAt) fun _ => .pure trivial

/-! ## Parameters -/

theorem arrowHead :
    Legibly arrowHead fun found => ∀ head ∈ found, ArrowHead head.1 head.2 :=
  get.bind fun s hs => by
    cases hhead : arrowHead? s.rest with
    | none => exact .pure fun _ hfound => by cases hfound
    | some head =>
      obtain ⟨params, arrow, after⟩ := head
      have hbegins := beginsArrow_of_arrowHead? hhead
      obtain ⟨hmem, harrow⟩ := hbegins.mem_arrow
      have hparams : ArrowHead params arrow :=
        { params := .of_forall fun p hp =>
            (hs p (hbegins.mem_names p hp).1).identifier (hbegins.mem_names p hp).2
          arrow := (hs arrow hmem).symbol (TokenKind.eq_of_isSymbol harrow) }
      have hmove : Legibly
          (modify fun s : ParseState => { s with last := some arrow, rest := after })
          fun _ => True := fun _ _ => ⟨fun t ht => hs t (hbegins.mem_after ht), trivial⟩
      exact hmove.andThen fun _ => .pure fun _ hfound => Option.some.inj hfound ▸ hparams

theorem someParameters (fuel count : Nat) : Legibly (someParameters fuel count) AreNames := by
  induction fuel generalizing count with
  | zero => exact .outOfFuel
  | succ fuel ih =>
    refine limit.andThen fun _ => expectName.bind fun name hname =>
      acceptSymbol.andThen fun more => ?_
    split
    · exact (ih (count + 1)).bind fun others ho => .pure (.cons hname ho)
    · exact .pure (.cons hname .nil)

theorem parameters (fuel : Nat) : Legibly (parameters fuel) AreNames :=
  nextIs.andThen fun closed => by
    split
    · exact .pure .nil
    · exact Legibly.someParameters fuel 0

end Legibly

end Parse

end LoxLang
