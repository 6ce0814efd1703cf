import LoxLang.Proofs.Grammar.Steps

/-!
# Progress

Every rule takes tokens from the front, never gives one back and, but for the lists that may be
empty, takes at least one (`Takes`). A bound on the depth that is twenty times the number of tokens
ahead and a little more is never reached, so every parse comes to the end of its tokens
(`program_finished`). There is one lemma for each rule, and `rulesTake` puts them together.
-/

namespace LoxLang

/-- What remains of tokens where some have been taken from the front. The end is never taken. -/
def Remains (left rest : List Token) : Prop :=
  ∃ taken, rest = taken ++ left ∧ ∀ t ∈ taken, t.kind.isEof = false

namespace Remains

variable {left mid rest : List Token}

theorem refl : Remains rest rest := ⟨[], rfl, nofun⟩

theorem trans (h : Remains left mid) (h' : Remains mid rest) : Remains left rest := by
  obtain ⟨taken, rfl, htaken⟩ := h
  obtain ⟨before, rfl, hbefore⟩ := h'
  exact ⟨before ++ taken, (List.append_assoc ..).symm, fun t ht =>
    (List.mem_append.mp ht).elim (hbefore t) (htaken t)⟩

theorem tail {t : Token} (h : t.kind.isEof = false) : Remains rest (t :: rest) :=
  ⟨[t], rfl, fun _ ht => List.mem_singleton.mp ht ▸ h⟩

theorem length_le (h : Remains left rest) : left.length ≤ rest.length := by
  obtain ⟨taken, rfl, -⟩ := h
  simp

theorem mem {t : Token} (h : Remains left rest) (ht : t ∈ left) : t ∈ rest := by
  obtain ⟨taken, rfl, -⟩ := h
  exact List.mem_append_right taken ht

end Remains

namespace ParseState

theorem remains_advance (s : ParseState) : Remains s.advance.rest s.rest := by
  unfold advance next?
  cases hrest : s.rest with
  | nil => simp only [hrest]; exact .refl
  | cons t rest =>
    dsimp only
    split
    · next heq =>
      split at heq
      · cases heq
      · next heof => exact .tail (by simpa using heof)
    · rw [hrest]; exact .refl

theorem length_advance {s : ParseState} {t : Token} (h : s.next? = some t) :
    s.advance.rest.length < s.rest.length := by
  unfold advance
  rw [h]
  cases hrest : s.rest with
  | nil => simp [next?, hrest] at h
  | cons => simp

end ParseState

/-- The number of rules that may be entered from a level before a token is taken. -/
def Level.rank : Level → Nat
  | .comma => 13
  | .assignment => 12
  | .ternary => 11
  | .or => 10
  | .and => 9
  | .equality => 8
  | .comparison => 7
  | .term => 6
  | .factor => 5
  | .unary => 4
  | .call => 3
  | .primary => 2

namespace Parse

variable {α β : Type} {rest : List Token} {enough enough' : Prop} {act : Parse α} {k : α → Parse β}
  {P P' : α → List Token → Prop} {Q : β → List Token → Prop}

/-! ## Steps and their results -/

/-- Steps leave what remains of the tokens ahead of them. If the bound on their depth is large
enough, it is not reached. -/
abbrev taking (enough : Prop) : Conduct ParseStop ParseState where
  good _ := True
  keeps s t := Remains t.rest s.rest
  stops stop := stop = .outOfFuel → ¬enough
  refl _ := .refl
  trans h h' := h'.trans h
  stays _ := id

/-- What a step gives in front of some tokens, and what it leaves of them. -/
def Takes (rest : List Token) (enough : Prop) (act : Parse α) (P : α → List Token → Prop) : Prop :=
  ∀ s : ParseState, s.rest = rest → (taking enough).From act s fun a after => P a after.rest

/-- A step that only looks at the tokens. -/
def Looks (act : Parse α) : Prop := ∀ rest, Takes rest True act fun _ left => left = rest

namespace Takes

theorem pure {a : α} (h : P a rest) : Takes rest enough (pure a) P := fun _ hs => .pure (hs ▸ h)

theorem bind (h : Takes rest enough act P)
    (hk : ∀ a left, left.length ≤ rest.length → P a left → Takes left enough (k a) Q) :
    Takes rest enough (act >>= k) Q := fun s hs =>
  (h s hs).bind fun a mid hremains _ ha => hk a mid.rest (hs ▸ hremains.length_le) ha mid rfl

theorem imp (h : Takes rest enough act P) (henough : enough' → enough)
    (himp : ∀ a left, left.length ≤ rest.length → P a left → P' a left) :
    Takes rest enough' act P' := fun s hs =>
  ((h s hs).imp fun a after hremains => himp a after.rest (hs ▸ hremains.length_le)).weaken id
    (fun _ _ => id) fun _ hstops heq hbound => hstops heq (henough hbound)

/-- With a bound that is enough for more. -/
theorem given (h : Takes rest enough act P) (henough : enough' → enough) :
    Takes rest enough' act P := h.imp henough fun _ _ _ => id

theorem ite {c : Prop} [Decidable c] {other : Parse α} (h : c → Takes rest enough act P)
    (h' : ¬c → Takes rest enough other P) : Takes rest enough (if c then act else other) P :=
  fun s hs => .ite (fun hc => h hc s hs) fun hc => h' hc s hs

theorem discard (h : Takes rest enough act P) :
    Takes rest enough (discard act) fun _ left => ∃ a, P a left := fun s hs => (h s hs).discard

theorem readUnless {absent : Parse Bool} {found : Bool → List Token → Prop}
    {Q : Option α → List Token → Prop} (habsent : Takes rest enough absent found)
    (hread : ∀ left, left.length ≤ rest.length →
      Takes left enough act fun a after => Q (some a) after)
    (hnone : ∀ left, found true left → Q none left) :
    Takes rest enough (Parse.readUnless absent act) Q := fun s hs =>
  .readUnless (habsent s hs)
    (fun mid hremains _ => hread mid.rest (hs ▸ hremains.length_le) mid rfl)
    fun mid _ => hnone mid.rest

theorem readIf {present : Parse Bool} {found : Bool → List Token → Prop}
    (hpresent : Takes rest enough present found)
    (hread : ∀ left, left.length ≤ rest.length → Takes left enough act fun _ _ => True) :
    Takes rest enough (Parse.readIf present act) fun _ _ => True := fun s hs =>
  .readIf (hpresent s hs) (fun mid hremains _ => hread mid.rest (hs ▸ hremains.length_le) mid rfl)
    fun _ _ _ => trivial

/-! ## Steps on tokens -/

theorem failAt {fault : GrammarFault} {token : Token} :
    Takes rest enough (failAt fault token : Parse α) P := fun _ _ _ => ⟨.refl, nofun⟩

theorem failHere {fault : GrammarFault} : Takes rest enough (failHere fault : Parse α) P :=
  fun _ _ _ => ⟨.refl, nofun⟩

theorem outOfFuel {n : Nat} (h : 0 < n) : Takes rest (n ≤ 0) (outOfFuel : Parse α) P :=
  fun _ _ _ => ⟨.refl, fun _ => Nat.not_le_of_lt h⟩

/-- A step that looks at the state goes on from it. -/
theorem getting {k : ParseState → Parse β} (hk : ∀ s, s.rest = rest → Takes rest enough (k s) Q) :
    Takes rest enough (MonadState.get >>= k) Q := fun s hs => hk s hs s hs

/-- A choice by the kind of the next token. -/
theorem choosing {k : Option TokenKind → Parse β}
    (hk : ∀ s : ParseState, s.rest = rest → Takes rest enough (k (s.next?.map Token.kind)) Q) :
    Takes rest enough (nextKind? >>= k) Q := fun s hs => hk s hs s hs

theorem advance {t : Token} {s : ParseState} (hs : s.rest = rest) (h : s.next? = some t) :
    Takes rest enough (modify ParseState.advance) fun _ left => left.length < rest.length := by
  intro s' hs' _
  have hnext : s'.next? = some t := by rw [← h, ParseState.next?, ParseState.next?, hs, hs']
  subst hs'
  exact ⟨s'.remains_advance, ParseState.length_advance hnext⟩

/-- A token that is found is taken. -/
theorem accept? {wanted : TokenKind → Bool} :
    Takes rest enough (accept? wanted) fun found left =>
      found.isSome → left.length < rest.length := by
  rintro s rfl
  exact .accept? nofun fun _ hnext _ _ =>
    ⟨s.remains_advance, fun _ => ParseState.length_advance hnext⟩

theorem accept {wanted : TokenKind → Bool} :
    Takes rest enough (accept wanted) fun found left => found → left.length < rest.length :=
  accept?.bind fun _ _ _ hleft => .pure hleft

theorem acceptSymbol {symbol : Symbol} :
    Takes rest enough (acceptSymbol symbol) fun found left => found → left.length < rest.length :=
  accept

theorem expect {wanted : TokenKind → Bool} {what : String} :
    Takes rest enough (expect wanted what) fun _ left => left.length < rest.length :=
  accept?.bind fun
    | some _, _, _, hleft => .pure (hleft rfl)
    | none, _, _, _ => .failHere

theorem expectSymbol {symbol : Symbol} {what : String} :
    Takes rest enough (expectSymbol symbol what) fun _ left => left.length < rest.length :=
  expect.discard.imp id fun _ _ _ ⟨_, hleft⟩ => hleft

theorem expectName {what : String} :
    Takes rest enough (expectName what) fun _ left => left.length < rest.length := expect

end Takes

namespace Looks

/-- A step that only looks at the tokens, and then another. -/
theorem andThen (h : Looks act) (hk : ∀ a, Takes rest enough (k a) Q) :
    Takes rest enough (act >>= k) Q :=
  ((h rest).given fun _ => trivial).bind fun a _ _ hleft => hleft ▸ hk a

theorem get : Looks (get : Parse ParseState) := fun _ _ hs _ => ⟨.refl, hs⟩

theorem freshId : Looks freshId := fun _ _ hs _ => ⟨.refl, hs⟩

theorem noteAt {fault : GrammarFault} {token : Token} : Looks (noteAt fault token) :=
  fun _ _ hs _ => ⟨.refl, hs⟩

theorem nextIs {wanted : TokenKind → Bool} : Looks (nextIs wanted) :=
  fun _ => get.andThen fun _ => .pure rfl

theorem atEnd : Looks atEnd := fun _ => get.andThen fun _ => .pure rfl

theorem limit {count : Nat} {what : String} : Looks (limit count what) :=
  fun rest => .ite (fun _ => get.andThen fun _ => noteAt rest) fun _ => .pure rfl

end Looks

/-! ## Forms without parts of their own -/

theorem not_eof_of_isSymbol {kind : TokenKind} {symbol : Symbol} (h : kind.isSymbol symbol = true) :
    kind.isEof = false := by
  cases kind <;> first | rfl | cases h

theorem not_eof_of_isIdentifier {kind : TokenKind} (h : kind.isIdentifier = true) :
    kind.isEof = false := by
  cases kind <;> first | rfl | cases h

theorem NameList.remains {tokens after names : List Token} (h : NameList tokens names after) :
    Remains after tokens := by
  induction h with
  | last hname hclose =>
    exact .trans (.tail (not_eof_of_isSymbol hclose)) (.tail (not_eof_of_isIdentifier hname))
  | more hname hcomma _ ih =>
    exact ih.trans (.trans (.tail (not_eof_of_isSymbol hcomma))
      (.tail (not_eof_of_isIdentifier hname)))

theorem BeginsArrow.remains {tokens after names : List Token} {arrow : Token}
    (h : BeginsArrow tokens names arrow after) : Remains after tokens := by
  cases h with
  | bare hclose harrow =>
    exact .trans (.tail (not_eof_of_isSymbol harrow)) (.tail (not_eof_of_isSymbol hclose))
  | named hnames harrow => exact .trans (.tail (not_eof_of_isSymbol harrow)) hnames.remains

theorem arrowHead_takes : Takes rest enough arrowHead fun _ _ => True :=
  .getting fun s hs => by
    cases hhead : arrowHead? s.rest with
    | none => exact .pure trivial
    | some head =>
      obtain ⟨params, arrow, after⟩ := head
      rw [hs] at hhead
      rintro s' rfl _
      exact ⟨(beginsArrow_of_arrowHead? hhead).remains, trivial⟩

theorem someParameters_takes (fuel count : Nat) (rest : List Token) :
    Takes rest (20 * rest.length + 1 ≤ fuel) (someParameters fuel count) fun _ _ => True := by
  induction fuel generalizing count rest with
  | zero => exact .outOfFuel (Nat.succ_pos _)
  | succ fuel ih =>
    refine Looks.limit.andThen fun _ => Takes.expectName.bind fun name left _ hname =>
      Takes.acceptSymbol.bind fun more left' _ _ => .ite (fun _ => ?_) fun _ => .pure trivial
    exact ((ih (count + 1) left').given fun _ => by omega).bind fun _ _ _ _ => .pure trivial

theorem parameters_takes {fuel : Nat} (hbound : enough → 20 * rest.length + 1 ≤ fuel) :
    Takes rest enough (parameters fuel) fun _ _ => True :=
  Looks.nextIs.andThen fun _ => .ite (fun _ => .pure trivial) fun _ =>
    (someParameters_takes fuel 0 rest).given hbound

theorem leaf?_takes {token : Token} {leaf : Parse Expr} (h : leaf? token = some leaf) :
    Takes rest enough leaf fun _ _ => True := by
  unfold leaf? at h
  split at h <;> cases h
  all_goals first
    | exact .pure trivial
    | exact Looks.freshId.andThen fun _ => .pure trivial
    | exact Takes.expectSymbol.bind fun _ _ _ _ => Takes.expectName.bind fun _ _ _ _ =>
        Looks.freshId.andThen fun _ => .pure trivial

theorem assignTo_takes {target value : Expr} {equals : Token} :
    Looks (assignTo target equals value) := by
  intro rest
  unfold assignTo
  split
  · exact Looks.freshId.andThen fun _ => Looks.freshId.andThen fun _ => .pure rfl
  · exact .pure rfl
  · exact Looks.noteAt.andThen fun _ => .pure rfl

theorem jump_takes {node : Token → Stmt} {inLoop : Bool} {keyword : Token} :
    Takes rest enough (jump node inLoop keyword) fun _ _ => True :=
  .ite (fun _ => Takes.expectSymbol.bind fun _ _ _ _ => .pure trivial) fun _ => .failAt

/-! ## The rules -/

/-- Some token is taken. -/
abbrev TakesSome (rest : List Token) (enough : Prop) (act : Parse α) : Prop :=
  Takes rest enough act fun _ left => left.length < rest.length

/-- Perhaps nothing is taken. -/
abbrev TakesAny (rest : List Token) (enough : Prop) (act : Parse α) : Prop :=
  Takes rest enough act fun _ _ => True

/-- What the rules take with a bound on their depth, and how large the bound has to be. -/
structure RulesTake (fuel : Nat) : Prop where
  exprAt : ∀ level rest, TakesSome rest (20 * rest.length + level.rank ≤ fuel) (exprAt fuel level)
  operands : ∀ level left rest,
    TakesAny rest (20 * rest.length + 1 ≤ fuel) (operands fuel level left)
  postfixes : ∀ callee rest, TakesAny rest (20 * rest.length + 1 ≤ fuel) (postfixes fuel callee)
  someArguments : ∀ count rest,
    TakesSome rest (20 * rest.length + 13 ≤ fuel) (someArguments fuel count)
  primary : ∀ rest, TakesSome rest (20 * rest.length + 1 ≤ fuel) (primary fuel)
  parenthesised : ∀ rest, TakesAny rest (20 * rest.length + 14 ≤ fuel) (parenthesised fuel)
  arrowBody : ∀ arrow rest, TakesAny rest (20 * rest.length + 13 ≤ fuel) (arrowBody fuel arrow)
  statement : ∀ inLoop rest, TakesSome rest (20 * rest.length + 15 ≤ fuel) (statement fuel inLoop)
  expressionStatement : ∀ rest,
    TakesSome rest (20 * rest.length + 14 ≤ fuel) (expressionStatement fuel)
  forStatement : ∀ rest, TakesSome rest (20 * rest.length + 15 ≤ fuel) (forStatement fuel)
  blockBody : ∀ inLoop rest, TakesSome rest (20 * rest.length + 17 ≤ fuel) (blockBody fuel inLoop)
  declaration : ∀ inLoop rest,
    TakesSome rest (20 * rest.length + 16 ≤ fuel) (declaration fuel inLoop)
  varDeclaration : ∀ rest, TakesSome rest (20 * rest.length + 1 ≤ fuel) (varDeclaration fuel)
  function : ∀ role rest, TakesSome rest (20 * rest.length + 1 ≤ fuel) (function fuel role)
  classDeclaration : ∀ rest, TakesSome rest (20 * rest.length + 1 ≤ fuel) (classDeclaration fuel)
  members : ∀ rest, TakesAny rest (20 * rest.length + 2 ≤ fuel) (members fuel)

namespace RulesTake

theorem zero : RulesTake 0 where
  exprAt level _ := by
    cases level
    all_goals exact .outOfFuel (Nat.succ_pos _)
  operands _ _ _ := .outOfFuel (Nat.succ_pos _)
  postfixes _ _ := .outOfFuel (Nat.succ_pos _)
  someArguments _ _ := .outOfFuel (Nat.succ_pos _)
  primary _ := .outOfFuel (Nat.succ_pos _)
  parenthesised _ := .outOfFuel (Nat.succ_pos _)
  arrowBody _ _ := .outOfFuel (Nat.succ_pos _)
  statement _ _ := .outOfFuel (Nat.succ_pos _)
  expressionStatement _ := .outOfFuel (Nat.succ_pos _)
  forStatement _ := .outOfFuel (Nat.succ_pos _)
  blockBody _ _ := .outOfFuel (Nat.succ_pos _)
  declaration _ _ := .outOfFuel (Nat.succ_pos _)
  varDeclaration _ := .outOfFuel (Nat.succ_pos _)
  function _ _ := .outOfFuel (Nat.succ_pos _)
  classDeclaration _ := .outOfFuel (Nat.succ_pos _)
  members _ := .outOfFuel (Nat.succ_pos _)

variable {fuel : Nat} {rest : List Token} {enough : Prop}

/-- An expression of any level; that of the loosest needs the most. -/
theorem expression (h : RulesTake fuel) (level : Level)
    (hbound : enough → 20 * rest.length + 13 ≤ fuel) :
    TakesSome rest enough (Parse.exprAt fuel level) := by
  refine (h.exprAt level rest).given fun henough => Nat.le_trans (Nat.add_le_add_left ?_ _)
    (hbound henough)
  cases level <;> decide

theorem exprAt_succ (h : RulesTake fuel) (level : Level) (rest : List Token) :
    TakesSome rest (20 * rest.length + level.rank ≤ fuel + 1) (Parse.exprAt (fuel + 1) level) := by
  have hlevel (level : Level) (hrank : level.tighter.rank < level.rank) :
      TakesSome rest (20 * rest.length + level.rank ≤ fuel + 1) (do
        let left ← Parse.exprAt fuel level.tighter
        Parse.operands fuel level left) :=
    ((h.exprAt level.tighter rest).given fun _ => by omega).bind fun left after _ hleft =>
      ((h.operands level left after).given fun _ => by omega).imp id fun _ _ _ _ => by omega
  rw [Parse.exprAt.eq_def]
  cases level
  case assignment =>
    refine ((h.exprAt .ternary rest).given Nat.le_of_succ_le_succ).bind fun target left _ htarget =>
      Takes.accept?.bind fun found mid hmid hfound => ?_
    cases found with
    | none => exact .pure (by omega)
    | some equals =>
      exact (h.expression .assignment fun hbound => by simp only [Level.rank] at hbound; omega).bind
        fun value after _ _ => ((assignTo_takes after).given fun _ => trivial).imp id
          fun _ _ _ hsame => by rw [hsame]; omega
  case ternary =>
    refine ((h.exprAt .or rest).given Nat.le_of_succ_le_succ).bind
      fun condition left _ hcondition =>
      Takes.accept?.bind fun found mid hmid hfound => ?_
    cases found with
    | none => exact .pure (by omega)
    | some question =>
      exact (h.expression .comma fun hbound => by simp only [Level.rank] at hbound; omega).bind
        fun thenBranch mid₁ _ _ => Takes.expectSymbol.bind fun _ mid₂ _ _ =>
          (h.expression .ternary fun hbound => by simp only [Level.rank] at hbound; omega).bind
            fun elseBranch after _ _ => .pure (by omega)
  case unary =>
    refine Takes.accept?.bind ?_
    intro found left hle hfound
    cases found with
    | none =>
      exact ((h.exprAt .call left).given fun hbound => by
        simp only [Level.rank] at hbound ⊢; omega).imp
        id fun _ _ _ _ => by omega
    | some operator =>
      have hleft := hfound rfl
      exact (h.expression .unary fun hbound => by simp only [Level.rank] at hbound; omega).bind
        fun right after _ _ => .pure (by omega)
  case call =>
    exact ((h.exprAt .primary rest).given Nat.le_of_succ_le_succ).bind fun callee left _ hcallee =>
      ((h.postfixes callee left).given fun hbound => by
        simp only [Level.rank] at hbound; omega).imp id
        fun _ _ _ _ => by omega
  case primary => exact (h.primary rest).given Nat.le_of_succ_le_succ
  all_goals exact hlevel _ (by decide)

theorem operands_succ (h : RulesTake fuel) (level : Level) (left : Expr) (rest : List Token) :
    TakesAny rest (20 * rest.length + 1 ≤ fuel + 1) (Parse.operands (fuel + 1) level left) := by
  rw [Parse.operands]
  refine Takes.accept?.bind ?_
  intro found mid _ hfound
  cases found with
  | none => exact .pure trivial
  | some operator =>
    have hmid := hfound rfl
    exact (h.expression level.tighter fun _ => by omega).bind fun right after _ _ =>
      (h.operands level _ after).given fun _ => by omega

theorem postfixes_succ (h : RulesTake fuel) (callee : Expr) (rest : List Token) :
    TakesAny rest (20 * rest.length + 1 ≤ fuel + 1) (Parse.postfixes (fuel + 1) callee) := by
  rw [Parse.postfixes]
  refine Takes.accept?.bind ?_
  intro found mid _ hfound
  cases found with
  | none => exact .pure trivial
  | some t =>
    have hmid := hfound rfl
    refine .ite (fun _ => ?_) fun _ => ?_
    · have hcall (es : List Expr) (left : List Token) (hle : left.length ≤ mid.length) :
          TakesAny left (20 * rest.length + 1 ≤ fuel + 1) (do
            let paren ← expect (·.isSymbol .rightParen) "')' after arguments"
            Parse.postfixes fuel (.call callee paren es)) :=
        Takes.expect.bind fun paren after _ _ => (h.postfixes _ after).given fun _ => by omega
      refine Looks.nextIs.andThen fun closed => .ite (fun _ => ?_) fun _ => ?_
      · exact hcall [] mid (Nat.le_refl _)
      · exact ((h.someArguments 0 mid).given fun _ => by omega).bind fun es left hle _ =>
          hcall es left hle
    · exact Takes.expectName.bind fun name after _ _ =>
        (h.postfixes _ after).given fun _ => by omega

theorem someArguments_succ (h : RulesTake fuel) (count : Nat) (rest : List Token) :
    TakesSome rest (20 * rest.length + 13 ≤ fuel + 1) (Parse.someArguments (fuel + 1) count) := by
  rw [Parse.someArguments]
  refine Looks.limit.andThen fun _ =>
    ((h.exprAt .assignment rest).given Nat.le_of_succ_le_succ).bind
    fun argument left _ hargument => Takes.acceptSymbol.bind fun more mid _ _ =>
      .ite (fun _ => ?_) fun _ => .pure (by omega)
  exact ((h.someArguments (count + 1) mid).given fun _ => by omega).bind fun others after _ _ =>
    .pure (by omega)

theorem primary_succ (h : RulesTake fuel) (rest : List Token) :
    TakesSome rest (20 * rest.length + 1 ≤ fuel + 1) (Parse.primary (fuel + 1)) := by
  rw [Parse.primary]
  refine .getting fun s hs => ?_
  cases hnext : s.next? with
  | none => exact .failHere
  | some t =>
    dsimp only
    cases hleaf : leaf? t with
    | some leaf =>
      exact (Takes.advance hs hnext).bind fun _ left _ hleft =>
        (leaf?_takes hleaf).imp id fun _ _ _ _ => by omega
    | none =>
      refine .ite (fun _ => (Takes.advance hs hnext).bind fun _ left _ hleft => ?_) fun _ => ?_
      · exact ((h.parenthesised left).given fun _ => by omega).imp id fun _ _ _ _ => by omega
      · cases Level.ofStrayOperator? t.kind with
        | none => exact .failHere
        | some level =>
          exact (Takes.advance hs hnext).bind fun _ left _ hleft =>
            (h.expression level fun _ => by omega).discard.bind fun _ _ _ _ => .failAt

theorem parenthesised_succ (h : RulesTake fuel) (rest : List Token) :
    TakesAny rest (20 * rest.length + 14 ≤ fuel + 1) (Parse.parenthesised (fuel + 1)) := by
  rw [Parse.parenthesised]
  refine arrowHead_takes.bind ?_
  intro head left _ _
  cases head with
  | none =>
    exact (h.expression .comma fun _ => by omega).bind fun inner mid _ _ =>
      Takes.expectSymbol.bind fun _ _ _ _ => .pure trivial
  | some head =>
    have hbody : TakesAny left (20 * rest.length + 14 ≤ fuel + 1) (do
        return Expr.arrow ⟨head.2, head.1, ← Parse.arrowBody fuel head.2⟩) :=
      ((h.arrowBody head.2 left).given fun _ => by omega).bind fun _ _ _ _ => .pure trivial
    exact .ite (fun _ => Looks.noteAt.andThen fun _ => hbody) fun _ => hbody

theorem arrowBody_succ (h : RulesTake fuel) (arrow : Token) (rest : List Token) :
    TakesAny rest (20 * rest.length + 13 ≤ fuel + 1) (Parse.arrowBody (fuel + 1) arrow) := by
  rw [Parse.arrowBody]
  refine Takes.acceptSymbol.bind fun braced left _ hbraced => .ite (fun hbrace => ?_) fun _ => ?_
  · have hleft := hbraced hbrace
    exact ((h.blockBody false left).given fun _ => by omega).imp id fun _ _ _ _ => trivial
  · have hassignment : 20 * rest.length + 13 ≤ fuel + 1 → 20 * left.length + 12 ≤ fuel := by omega
    exact ((h.exprAt .assignment left).given hassignment).bind fun _ _ _ _ => .pure trivial

theorem expressionStatement_succ (h : RulesTake fuel) (rest : List Token) :
    TakesSome rest (20 * rest.length + 14 ≤ fuel + 1) (Parse.expressionStatement (fuel + 1)) := by
  rw [Parse.expressionStatement]
  exact (h.expression .comma Nat.le_of_succ_le_succ).bind fun value left _ _ =>
    Takes.expectSymbol.bind fun _ mid _ _ => .pure (by omega)

/-- An expression that is left out where a step says so. -/
theorem leftOut (h : RulesTake fuel) {absent : Parse Bool} {found : Bool → List Token → Prop}
    (habsent : Takes rest enough absent found) (level : Level)
    (hbound : enough → 20 * rest.length + 13 ≤ fuel) :
    TakesAny rest enough (readUnless absent (Parse.exprAt fuel level)) :=
  habsent.readUnless (fun left hle => (h.expression level fun henough => by
    have := hbound henough
    omega).imp id fun _ _ _ _ => trivial) fun _ _ => trivial

theorem announced (h : RulesTake fuel) {present : Parse Bool} {found : Bool → List Token → Prop}
    (hpresent : Takes rest enough present found) (level : Level)
    (hbound : enough → 20 * rest.length + 13 ≤ fuel) :
    TakesAny rest enough (readIf present (Parse.exprAt fuel level)) :=
  hpresent.readIf fun left hle => (h.expression level fun henough => by
    have := hbound henough
    omega).imp id fun _ _ _ _ => trivial

/-- What stands behind a keyword. -/
theorem behind {α : Type} {act : Parse α} {t : Token} {s : ParseState} {rank : Nat}
    (hs : s.rest = rest) (hnext : s.next? = some t)
    (hk : ∀ left : List Token, left.length < rest.length →
      TakesAny left (20 * rest.length + rank ≤ fuel + 1) act) :
    TakesSome rest (20 * rest.length + rank ≤ fuel + 1) (do modify ParseState.advance; act) :=
  (Takes.advance hs hnext).bind fun _ left _ hleft =>
    (hk left hleft).imp id fun _ _ _ _ => by omega

theorem statement_succ (h : RulesTake fuel) (inLoop : Bool) (rest : List Token) :
    TakesSome rest (20 * rest.length + 15 ≤ fuel + 1) (Parse.statement (fuel + 1) inLoop) := by
  have hprint (node : Expr → Stmt) (left : List Token) (hleft : left.length < rest.length) :
      TakesAny left (20 * rest.length + 15 ≤ fuel + 1) (do
        let value ← Parse.exprAt fuel .comma
        expectSymbol .semicolon "';' after value"
        return node value) :=
    (h.expression .comma fun _ => by omega).bind fun value mid _ _ =>
      Takes.expectSymbol.bind fun _ _ _ _ => .pure trivial
  rw [Parse.statement]
  refine .getting fun s hs => ?_
  cases hnext : s.next? with
  | none => exact (h.expressionStatement rest).given Nat.le_of_succ_le_succ
  | some t =>
    dsimp only
    split
    · exact behind hs hnext fun left hleft =>
        ((h.forStatement left).given fun _ => by omega).imp id fun _ _ _ _ => trivial
    · refine behind hs hnext fun left hleft => (h.expression .comma fun _ => by omega).bind
        fun condition mid₁ _ _ => ((h.statement inLoop mid₁).given fun _ => by omega).bind
          fun thenBranch mid₂ _ _ => Takes.accept.bind fun more mid₃ _ _ => .ite (fun _ => ?_)
            fun _ => .pure trivial
      exact ((h.statement inLoop mid₃).given fun _ => by omega).bind fun _ _ _ _ => .pure trivial
    · exact behind hs hnext fun left hleft => (h.expression .comma fun _ => by omega).bind
        fun condition mid _ _ => ((h.statement true mid).given fun _ => by omega).bind
          fun _ _ _ _ => .pure trivial
    · exact behind hs hnext fun left hleft =>
        (h.leftOut ((Looks.nextIs left).given fun _ => trivial) .comma fun _ => by omega).bind
          fun value mid _ _ => Takes.expectSymbol.bind fun _ _ _ _ => .pure trivial
    · exact behind hs hnext fun left _ => jump_takes
    · exact behind hs hnext fun left _ => jump_takes
    · exact behind hs hnext fun left hleft => (h.expression .assignment fun _ => by omega).bind
        fun condition mid _ _ => (h.announced .acceptSymbol .comma fun _ => by omega).bind
          fun message _ _ _ => Takes.expectSymbol.bind fun _ _ _ _ => .pure trivial
    · exact behind hs hnext fun left hleft =>
        ((h.blockBody inLoop left).given fun _ => by omega).bind fun _ _ _ _ => .pure trivial
    · exact behind hs hnext (hprint .print)
    · exact behind hs hnext (hprint .println)
    · exact (h.expressionStatement rest).given Nat.le_of_succ_le_succ

theorem forStatement_succ (h : RulesTake fuel) (rest : List Token) :
    TakesSome rest (20 * rest.length + 15 ≤ fuel + 1) (Parse.forStatement (fuel + 1)) := by
  rw [Parse.forStatement]
  have hinitializer : TakesSome rest (20 * rest.length + 15 ≤ fuel + 1)
      (readUnless (acceptSymbol .semicolon) do
        if ← accept (·.isKeyword .var) then Parse.varDeclaration fuel
        else Parse.expressionStatement fuel) := by
    refine Takes.acceptSymbol.readUnless (fun left hle => ?_) fun left hfound => hfound rfl
    refine Takes.accept.bind fun isVar mid _ hvar => .ite (fun hisVar => ?_) fun _ => ?_
    · have hmid := hvar hisVar
      exact ((h.varDeclaration mid).given fun _ => by omega).imp id fun _ _ _ _ => by omega
    · exact ((h.expressionStatement mid).given fun _ => by omega).imp id fun _ _ _ _ => by omega
  have hcondition (left : List Token) (hleft : left.length < rest.length) :
      TakesAny left (20 * rest.length + 15 ≤ fuel + 1) (readUnless (acceptSymbol .semicolon) do
        let condition ← Parse.exprAt fuel .comma
        expectSymbol .semicolon "';' after loop condition"
        return condition) :=
    Takes.acceptSymbol.readUnless (fun mid _ => (h.expression .comma fun _ => by omega).bind
      fun _ _ _ _ => Takes.expectSymbol.bind fun _ _ _ _ => .pure trivial) fun _ _ => trivial
  have hupdate (left : List Token) (hleft : left.length < rest.length) :
      TakesAny left (20 * rest.length + 15 ≤ fuel + 1)
        (readUnless (nextIs (·.isSymbol .leftBrace)) (Parse.exprAt fuel .comma)) :=
    h.leftOut ((Looks.nextIs left).given fun _ => trivial) .comma fun _ => by omega
  exact hinitializer.bind fun initializer left₁ _ h₁ => (hcondition left₁ h₁).bind
    fun condition left₂ h₂ _ => (hupdate left₂ (by omega)).bind fun update left₃ _ _ =>
      Takes.expectSymbol.bind fun _ left₄ _ _ =>
        ((h.blockBody true left₄).given fun _ => by omega).bind fun body left₅ _ _ =>
          .pure (by omega)

theorem blockBody_succ (h : RulesTake fuel) (inLoop : Bool) (rest : List Token) :
    TakesSome rest (20 * rest.length + 17 ≤ fuel + 1) (Parse.blockBody (fuel + 1) inLoop) := by
  rw [Parse.blockBody]
  refine Looks.nextIs.andThen fun _ => Looks.atEnd.andThen fun _ => .ite (fun _ => ?_) fun _ => ?_
  · exact Takes.expectSymbol.bind fun _ left _ hleft => .pure hleft
  · exact ((h.declaration inLoop rest).given Nat.le_of_succ_le_succ).bind
      fun first left _ hfirst => ((h.blockBody inLoop left).given fun _ => by omega).bind
        fun others after _ _ => .pure (by omega)

theorem varDeclaration_succ (h : RulesTake fuel) (rest : List Token) :
    TakesSome rest (20 * rest.length + 1 ≤ fuel + 1) (Parse.varDeclaration (fuel + 1)) := by
  rw [Parse.varDeclaration]
  exact Takes.expectName.bind fun name left _ hname =>
    (h.announced .acceptSymbol .comma fun _ => by omega).bind fun initializer mid _ _ =>
      Takes.expectSymbol.bind fun _ after _ _ => .pure (by omega)

theorem function_succ (h : RulesTake fuel) (role : String) (rest : List Token) :
    TakesSome rest (20 * rest.length + 1 ≤ fuel + 1) (Parse.function (fuel + 1) role) := by
  rw [Parse.function]
  exact Takes.expectName.bind fun name left₁ _ hname => Takes.expectSymbol.bind fun _ left₂ _ _ =>
    (parameters_takes fun _ => by omega).bind fun params left₃ _ _ =>
      Takes.expectSymbol.bind fun _ left₄ _ _ => Takes.expectSymbol.bind fun _ left₅ _ _ =>
        ((h.blockBody false left₅).given fun _ => by omega).bind fun body left₆ _ _ =>
          .pure (by omega)

theorem declaration_succ (h : RulesTake fuel) (inLoop : Bool) (rest : List Token) :
    TakesSome rest (20 * rest.length + 16 ≤ fuel + 1) (Parse.declaration (fuel + 1) inLoop) := by
  rw [Parse.declaration]
  refine .choosing fun s hs => ?_
  cases hnext : s.next? with
  | none => exact (h.statement inLoop rest).given Nat.le_of_succ_le_succ
  | some t =>
    rw [Option.map_some]
    split
    · exact behind hs hnext fun left hleft =>
        ((h.classDeclaration left).given fun _ => by omega).imp id fun _ _ _ _ => trivial
    · exact behind hs hnext fun left hleft =>
        ((h.function "function" left).given fun _ => by omega).bind fun _ _ _ _ => .pure trivial
    · exact behind hs hnext fun left hleft =>
        ((h.varDeclaration left).given fun _ => by omega).imp id fun _ _ _ _ => trivial
    · exact behind hs hnext fun left hleft => Takes.expectName.bind fun name left₁ _ _ =>
        Takes.expectSymbol.bind fun _ left₂ _ _ => (h.expression .comma fun _ => by omega).bind
          fun initializer left₃ _ _ => Takes.expectSymbol.bind fun _ _ _ _ => .pure trivial
    · exact (h.statement inLoop rest).given Nat.le_of_succ_le_succ

theorem classDeclaration_succ (h : RulesTake fuel) (rest : List Token) :
    TakesSome rest (20 * rest.length + 1 ≤ fuel + 1) (Parse.classDeclaration (fuel + 1)) := by
  rw [Parse.classDeclaration]
  have hbase (left : List Token) : TakesAny left (20 * rest.length + 1 ≤ fuel + 1)
      (readIf (acceptSymbol .less) do
        let base ← expectName "base class name after '<'"
        return Expr.variable (← freshId) base) :=
    Takes.acceptSymbol.readIf fun mid _ => Takes.expectName.bind fun name _ _ _ =>
      Looks.freshId.andThen fun id => .pure trivial
  exact Takes.expectName.bind fun name left₁ _ hname => (hbase left₁).bind fun base left₂ _ _ =>
    Takes.expectSymbol.bind fun _ left₃ _ _ => ((h.members left₃).given fun _ => by omega).bind
      fun ms left₄ _ _ => Takes.expectSymbol.bind fun _ left₅ _ _ => .pure (by omega)

theorem members_succ (h : RulesTake fuel) (rest : List Token) :
    TakesAny rest (20 * rest.length + 2 ≤ fuel + 1) (Parse.members (fuel + 1)) := by
  rw [Parse.members]
  refine Looks.nextIs.andThen fun _ => Looks.atEnd.andThen fun _ => .ite (fun _ => .pure trivial)
    fun _ => Takes.accept.bind fun isStatic left _ _ => .ite (fun _ => ?_) fun _ =>
      Looks.get.andThen fun s => .ite (fun _ => ?_) fun _ => ?_
  · exact ((h.function _ left).given fun _ => by omega).bind fun decl mid _ _ =>
      ((h.members mid).given fun _ => by omega).bind fun _ _ _ _ => .pure trivial
  · exact Takes.expectName.bind fun name mid₁ _ _ => Takes.expectSymbol.bind fun _ mid₂ _ _ =>
      ((h.blockBody false mid₂).given fun _ => by omega).bind fun body mid₃ _ _ =>
        ((h.members mid₃).given fun _ => by omega).bind fun _ _ _ _ => .pure trivial
  · exact ((h.function _ left).given fun _ => by omega).bind fun decl mid _ _ =>
      ((h.members mid).given fun _ => by omega).bind fun _ _ _ _ => .pure trivial

end RulesTake

theorem rulesTake (fuel : Nat) : RulesTake fuel := by
  induction fuel with
  | zero => exact .zero
  | succ fuel h =>
    exact
      { exprAt := h.exprAt_succ
        operands := h.operands_succ
        postfixes := h.postfixes_succ
        someArguments := h.someArguments_succ
        primary := h.primary_succ
        parenthesised := h.parenthesised_succ
        arrowBody := h.arrowBody_succ
        statement := h.statement_succ
        expressionStatement := h.expressionStatement_succ
        forStatement := h.forStatement_succ
        blockBody := h.blockBody_succ
        declaration := h.declaration_succ
        varDeclaration := h.varDeclaration_succ
        function := h.function_succ
        classDeclaration := h.classDeclaration_succ
        members := h.members_succ }

/-! ## Programs -/

theorem expressionAgain_takes (fuel : Nat) (rest : List Token) :
    TakesSome rest (20 * rest.length + 16 ≤ fuel) (expressionAgain fuel) :=
  ((rulesTake fuel).expression .comma fun _ => by omega).bind fun value left _ hvalue =>
    Takes.acceptSymbol.discard.bind fun _ after _ _ => .pure (by omega)

/-- A declaration that is tried again is read from the same tokens. -/
theorem interactiveDeclaration_takes (fuel : Nat) (rest : List Token) :
    TakesSome rest (20 * rest.length + 16 ≤ fuel) (interactiveDeclaration fuel) := fun s hs =>
  .interactiveDeclaration ((rulesTake fuel).declaration false rest s hs) (fun _ _ => .refl)
    (fun failed _ => expressionAgain_takes fuel rest (again s failed) hs)
    fun _ _ hfailed _ => hfailed

theorem item_takes (interactive : Bool) (fuel : Nat) (rest : List Token) :
    TakesSome rest (20 * rest.length + 16 ≤ fuel) (item interactive fuel) :=
  .ite (fun _ => interactiveDeclaration_takes fuel rest)
    fun _ => (rulesTake fuel).declaration false rest

end Parse

namespace ParseState

theorem remains_skipTokens (last : Option Token) (rest : List Token) :
    Remains (skipTokens last rest).2 rest := by
  induction rest generalizing last with
  | nil => exact Remains.refl
  | cons t rest ih =>
    unfold skipTokens
    split
    · exact Remains.refl
    · next heof =>
      split
      · exact Remains.refl
      · split
        · exact Remains.refl
        · exact (ih _).trans (.tail (by simpa using heof))

/-- Leaving a failed declaration takes a token, if there is one to take. -/
theorem length_synchronize (s : ParseState) :
    s.synchronize.rest.length < s.rest.length ∨ s.synchronize.atEnd = true := by
  cases hnext : s.next? with
  | some t =>
    exact .inl (Nat.lt_of_le_of_lt (remains_skipTokens _ _).length_le (length_advance hnext))
  | none =>
    refine .inr ?_
    have hadvance : s.advance = s := by rw [advance, hnext]
    rw [synchronize, hadvance]
    cases hrest : s.rest with
    | nil => rfl
    | cons t rest =>
      have heof : t.kind.isEof = true := by
        rw [next?, hrest] at hnext
        dsimp only at hnext
        split at hnext
        · assumption
        · cases hnext
      simp [skipTokens, heof, atEnd, next?]

end ParseState

namespace Parse

theorem declarations_of_atEnd {one : Parse Stmt} {s : ParseState} (h : s.atEnd = true)
    (count : Nat) : declarations one count s = ([], s, true) := by
  cases count with
  | zero => rw [declarations, h]
  | succ => rw [declarations, if_pos h]

/-- Each declaration takes a token, also one that is given up. -/
theorem declarations_finished {one : Parse Stmt} (bound : Nat)
    (hone : ∀ rest : List Token, rest.length ≤ bound → TakesSome rest True one) (count : Nat)
    (s : ParseState) (hbound : s.rest.length ≤ bound)
    (hcount : s.rest.length ≤ count ∨ s.atEnd = true) : (declarations one count s).2.2 = true := by
  induction count generalizing s with
  | zero =>
    refine hcount.elim (fun hempty => ?_) id
    have hrest := List.eq_nil_of_length_eq_zero (Nat.le_zero.mp hempty)
    simp [declarations, ParseState.atEnd, ParseState.next?, hrest]
  | succ count ih =>
    have htakes := hone s.rest hbound s rfl
    unfold declarations
    split
    · rfl
    · next hend =>
      have hlength := hcount.resolve_right hend
      split
      · next stmt after heq =>
        have hless : after.rest.length < s.rest.length := (htakes.ok trivial heq).2
        exact ih after (by omega) (.inl (by omega))
      · next error after heq =>
        have hle : after.rest.length ≤ s.rest.length := (htakes.error trivial heq).1.length_le
        have hremains : (after.note error).synchronize.rest.length ≤ after.rest.length :=
          ((ParseState.remains_skipTokens _ _).trans (ParseState.remains_advance _)).length_le
        refine ih _ (by omega) ?_
        refine (ParseState.length_synchronize (after.note error)).imp_left fun hlt => ?_
        have : (after.note error).rest = after.rest := rfl
        rw [this] at hlt
        omega
      · next after heq => exact absurd trivial ((htakes.error trivial heq).2 rfl)

/-- The bounds of a parse are large enough. -/
theorem program_finished (interactive : Bool) (firstId : NodeId) (tokens : List Token) :
    (program interactive firstId tokens).finished = true := by
  refine declarations_finished tokens.length (fun rest hle => ?_) tokens.length
    { last := none, rest := tokens, nextId := firstId } (Nat.le_refl _) (.inl (Nat.le_refl _))
  refine (item_takes interactive (depthBound tokens) rest).given fun _ => ?_
  rw [depthBound]
  omega

end Parse

end LoxLang
