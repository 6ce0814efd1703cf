import LoxLang.Proofs.Grammar.Paired
import LoxLang.Proofs.Grammar.Rendering

/-!
# Consuming tokens

What a step of a parse does in front of known tokens: it comes to stand in front of the tokens left
and notes no fault, unless the bound on its depth is too small (`Consumes`). There is one lemma for
each primitive step, so that a rule of the grammar is followed step by step.
-/

namespace LoxLang.Parse

/-- A step notes no fault, and stops only where the bound on its depth is too small. -/
abbrev cleanliness : Conduct ParseStop ParseState where
  good _ := True
  keeps s t := t.errors = s.errors ∧ t.failed = s.failed
  stops stop := stop = .outOfFuel
  refl _ := ⟨rfl, rfl⟩
  trans h h' := ⟨h'.1.trans h.1, h'.2.trans h.2⟩
  stays _ := id

variable {α β : Type}

/-- In front of some tokens, a step consumes them up to others. -/
def Consumes (given left : List Token) (act : Parse α) (P : α → Prop) : Prop :=
  ∀ s : ParseState, s.rest = given → cleanliness.From act s fun a after => after.rest = left ∧ P a

namespace Consumes

variable {given mid left : List Token} {t : Token} {ts : List Token} {act : Parse α}
  {k : α → Parse β} {P : α → Prop} {Q : β → Prop} {wanted : TokenKind → Bool}

theorem pure {a : α} (h : P a) : Consumes given given (pure a) P := fun _ hs => .pure ⟨hs, h⟩

theorem bind (h : Consumes given mid act P) (hk : ∀ a, P a → Consumes mid left (k a) Q) :
    Consumes given left (act >>= k) Q := fun s hs =>
  (h s hs).bind fun a between _ _ ⟨hmid, ha⟩ => hk a ha between hmid

theorem outOfFuel : Consumes given left (outOfFuel : Parse α) P :=
  fun _ _ _ => ⟨⟨rfl, rfl⟩, rfl⟩

/-- A step that looks at the state sees the tokens. -/
theorem getting {k : ParseState → Parse β}
    (hk : ∀ s, s.rest = given → Consumes given left (k s) Q) :
    Consumes given left (MonadState.get >>= k) Q :=
  fun s hs => hk s hs s hs

theorem next?_of_cons {s : ParseState} (hs : s.rest = t :: ts) (ht : t.kind.isEof = false) :
    s.next? = some t := by
  rw [ParseState.next?_of_rest hs, ht]
  rfl

/-- The next token is not of a wanted kind, or there is none. -/
def Unwanted (wanted : TokenKind → Bool) (given : List Token) : Prop :=
  ∀ t ∈ given.head?, t.kind.isEof = false → wanted t.kind = false

theorem next?_of_unwanted {s : ParseState} (hs : s.rest = given) (h : Unwanted wanted given) :
    s.next? = none ∨ ∃ t, s.next? = some t ∧ wanted t.kind = false := by
  cases given with
  | nil => exact .inl (by rw [ParseState.next?, hs])
  | cons t ts =>
    cases heof : t.kind.isEof with
    | true => exact .inl (by rw [ParseState.next?_of_rest hs, heof]; rfl)
    | false => exact .inr ⟨t, next?_of_cons hs heof, h t rfl heof⟩

theorem advance (ht : t.kind.isEof = false) :
    Consumes (t :: ts) ts (modify ParseState.advance) fun _ => True := by
  intro s hs _
  have hrun : (modify ParseState.advance : Parse Unit) s = .ok () s.advance := rfl
  rw [hrun, ParseState.advance_of_next? (next?_of_cons hs ht)]
  exact ⟨⟨rfl, rfl⟩, by rw [hs]; rfl, trivial⟩

theorem accept? (ht : t.kind.isEof = false) (hwanted : wanted t.kind = true) :
    Consumes (t :: ts) ts (Parse.accept? wanted) (· = some t) := by
  intro s hs _
  have hnext := next?_of_cons hs ht
  rw [accept?_of_wanted hnext hwanted, ParseState.advance_of_next? hnext]
  exact ⟨⟨rfl, rfl⟩, by rw [hs]; rfl, rfl⟩

theorem accept?_none (h : Unwanted wanted given) :
    Consumes given given (Parse.accept? wanted) (· = none) := by
  intro s hs _
  rcases next?_of_unwanted hs h with hnext | ⟨t, hnext, hwanted⟩
  · rw [accept?_of_none hnext]
    exact ⟨⟨rfl, rfl⟩, hs, rfl⟩
  · rw [accept?_of_not hnext hwanted]
    exact ⟨⟨rfl, rfl⟩, hs, rfl⟩

theorem accept (ht : t.kind.isEof = false) (hwanted : wanted t.kind = true) :
    Consumes (t :: ts) ts (Parse.accept wanted) (· = true) :=
  (accept? ht hwanted).bind fun _ hfound => .pure (by rw [hfound]; rfl)

theorem accept_false (h : Unwanted wanted given) :
    Consumes given given (Parse.accept wanted) (· = false) :=
  (accept?_none h).bind fun _ hfound => .pure (by rw [hfound]; rfl)

theorem expect {what : String} (ht : t.kind.isEof = false) (hwanted : wanted t.kind = true) :
    Consumes (t :: ts) ts (Parse.expect wanted what) (· = t) := by
  refine (accept? ht hwanted).bind ?_
  rintro found rfl
  exact .pure rfl

theorem expectSymbol {symbol : Symbol} {what : String} (ht : t.kind = .symbol symbol) :
    Consumes (t :: ts) ts (Parse.expectSymbol symbol what) fun _ => True := by
  rw [Parse.expectSymbol, Functor.discard, Functor.mapConst]
  exact (expect (by rw [ht]; rfl) (by rw [ht]; exact decide_eq_true rfl)).bind
    fun _ _ => .pure trivial

theorem expectName {what : String} (ht : t.kind = .identifier) :
    Consumes (t :: ts) ts (Parse.expectName what) (· = t) :=
  expect (by rw [ht]; rfl) (by rw [ht]; rfl)

theorem nextIs (ht : t.kind.isEof = false) :
    Consumes (t :: ts) (t :: ts) (Parse.nextIs wanted) (· = wanted t.kind) :=
  getting fun s hs => .pure (by rw [next?_of_cons hs ht]; rfl)

theorem nextKind? (ht : t.kind.isEof = false) :
    Consumes (t :: ts) (t :: ts) Parse.nextKind? (· = some t.kind) :=
  getting fun s hs => .pure (by rw [next?_of_cons hs ht]; rfl)

theorem freshId : Consumes given given Parse.freshId fun _ => True :=
  fun _ hs _ => ⟨⟨rfl, rfl⟩, hs, trivial⟩

theorem arrowHead_none (h : arrowHead? given = none) :
    Consumes given given Parse.arrowHead (· = none) := by
  intro s hs _
  rw [arrowHead_of_none (hs ▸ h)]
  exact ⟨⟨rfl, rfl⟩, hs, rfl⟩

theorem arrowHead {params : List Token} {arrow : Token}
    (h : arrowHead? given = some (params, arrow, left)) :
    Consumes given left Parse.arrowHead (· = some (params, arrow)) := by
  intro s hs _
  rw [arrowHead_of_some (hs ▸ h)]
  exact ⟨⟨rfl, rfl⟩, rfl, rfl⟩

/-- Below the limit no fault is noted. -/
theorem limit {count : Nat} {what : String} (h : count < maxArguments) :
    Consumes given given (Parse.limit count what) fun _ => True := by
  rw [Parse.limit, if_neg (Nat.ne_of_lt h)]
  exact .pure trivial

end Consumes

/-! ## Heads of arrows -/

/-- Parameters, a parenthesis and `=>` are the head of an arrow. -/
theorem nameList?_intersperse {name : Token} {names : List Token} (behind : List Token)
    {comma close : Token}
    (hname : name.kind = .identifier) (hnames : ∀ t ∈ names, t.kind = .identifier)
    (hcomma : comma.kind = .symbol .comma) (hclose : close.kind = .symbol .rightParen) :
    nameList? ((name :: names).intersperse comma ++ close :: behind) =
      some (name :: names, behind) := by
  induction names generalizing name with
  | nil =>
    rw [List.intersperse_singleton, List.singleton_append, nameList?, hname, hclose]
    rfl
  | cons other names ih =>
    obtain ⟨hother, hnames⟩ := List.forall_mem_cons.mp hnames
    rw [List.intersperse_cons_cons, List.cons_append, List.cons_append, nameList?, hname, hcomma,
      ih hother hnames]
    rfl

theorem arrowHead?_intersperse {params behind : List Token} {comma close arrow : Token}
    (hparams : ∀ param ∈ params, param.kind = .identifier) (hcomma : comma.kind = .symbol .comma)
    (hclose : close.kind = .symbol .rightParen) (harrow : arrow.kind = .symbol .arrow) :
    arrowHead? (params.intersperse comma ++ close :: arrow :: behind) =
      some (params, arrow, behind) := by
  cases params with
  | nil =>
    simp [arrowHead?, hclose, harrow, TokenKind.isSymbol]
  | cons name names =>
    obtain ⟨hname, hnames⟩ := List.forall_mem_cons.mp hparams
    have hlist := nameList?_intersperse (arrow :: behind) hname hnames hcomma hclose
    obtain ⟨others, hothers⟩ : ∃ others, (name :: names).intersperse comma = name :: others := by
      cases names with
      | nil => exact ⟨_, List.intersperse_singleton⟩
      | cons => exact ⟨_, List.intersperse_cons_cons⟩
    rw [hothers, List.cons_append] at hlist ⊢
    simp [arrowHead?, hname, hlist, harrow, TokenKind.isSymbol]

/-- A list of names ends with the parenthesis that closes the tokens. -/
theorem nameList?_unclosed {ts behind names after : List Token} {close : Token}
    (hts : Unclosed ts) (hclose : close.kind = .symbol .rightParen)
    (h : nameList? (ts ++ close :: behind) = some (names, after)) : after = behind := by
  induction ts using nameList?.induct generalizing names with
  | case1 name separator ts hname hcomma ih =>
    rw [List.cons_append, List.cons_append, nameList?, if_pos hname, if_pos hcomma] at h
    obtain ⟨⟨names', after'⟩, hrest, heq⟩ := Option.map_eq_some_iff.mp h
    cases heq
    have hname' : name.isListed = true := by rw [Token.isListed, hname, Bool.true_or]
    have hcomma' : separator.isListed = true := by rw [Token.isListed, hcomma, Bool.or_true]
    exact ih ((hts.tail hname').tail hcomma') hrest
  | case2 name separator ts hname hcomma hclosed =>
    -- the parenthesis would stand within the tokens
    have hname' : name.isListed = true := by rw [Token.isListed, hname, Bool.true_or]
    rw [(hts.tail hname').head] at hclosed
    cases hclosed
  | case3 name separator ts hname hcomma hclosed =>
    rw [List.cons_append, List.cons_append, nameList?, if_pos hname, if_neg hcomma,
      if_neg hclosed] at h
    cases h
  | case4 name separator ts hname =>
    rw [List.cons_append, List.cons_append, nameList?, if_neg hname] at h
    cases h
  | case5 ts hshort =>
    cases ts with
    | nil =>
      cases behind with
      | nil => cases h
      | cons t behind =>
        rw [List.nil_append, nameList?, hclose] at h
        cases h
    | cons name ts =>
      cases ts with
      | nil =>
        rw [List.singleton_append, nameList?, hclose] at h
        cases hname : name.kind.isIdentifier with
        | true =>
          rw [hname] at h
          cases h
          rfl
        | false =>
          rw [hname] at h
          cases h
      | cons separator ts => exact absurd rfl (hshort _ _ _)

/-- A parenthesis that is closed before anything but `=>` opens a grouping. -/
theorem arrowHead?_unclosed {ts behind : List Token} {close : Token} (hts : Unclosed ts)
    (hne : ts ≠ []) (hclose : close.kind = .symbol .rightParen)
    (hbehind : ∀ t ∈ behind.head?, t.kind.isSymbol .arrow = false) :
    arrowHead? (ts ++ close :: behind) = none := by
  obtain ⟨t, ts, rfl⟩ := List.exists_cons_of_ne_nil hne
  rw [List.cons_append, arrowHead?, hts.head]
  dsimp only
  rw [if_neg Bool.false_ne_true, ← List.cons_append]
  cases hnames : nameList? (t :: ts ++ close :: behind) with
  | none => rfl
  | some found =>
    obtain ⟨names, after⟩ := found
    obtain rfl := nameList?_unclosed hts hclose hnames
    cases after with
    | nil => rfl
    | cons u after => exact if_neg (by rw [hbehind u rfl]; exact Bool.false_ne_true)

end LoxLang.Parse
