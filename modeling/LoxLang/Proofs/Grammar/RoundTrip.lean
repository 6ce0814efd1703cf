import LoxLang.Proofs.Grammar.Consuming
import LoxLang.Proofs.Grammar.Renumbering
import LoxLang.Proofs.Token.Cutting

/-!
# Parsing what has been rendered

The tokens of an expression that stands at a level are read as that expression
(`Expr.StandsAt.readable`), and those of any expression with a semicolon behind them as the statement of
it, wherever the tokens are placed (`program_rendered`). At the levels that loop, reading goes on behind the operands read so far
(`Level.more`): the left operand of an infix operator is what the loop has already joined, so the
induction says of it that the loop comes to stand behind it, whatever the loop then does.
-/

namespace LoxLang

/-! ## Ends of expressions -/

/-- The level whose expressions a token of this kind carries on. -/
def Level.continuedBy? : TokenKind → Option Level
  | .symbol .comma => some comma
  | .symbol .equal | .symbol .plusEqual | .symbol .minusEqual | .symbol .starEqual
  | .symbol .slashEqual | .symbol .percentageEqual => some assignment
  | .symbol .questionMark => some ternary
  | .keyword .or => some or
  | .keyword .and => some and
  | .symbol .bangEqual | .symbol .equalEqual => some equality
  | .symbol .greater | .symbol .greaterEqual | .symbol .less | .symbol .lessEqual => some comparison
  | .symbol .minus | .symbol .plus => some term
  | .symbol .star | .symbol .slash | .symbol .percentage => some factor
  | .symbol .leftParen | .symbol .dot => some call
  | _ => none

theorem Level.continuedBy?_of_isInfix {level : Level} {kind : TokenKind}
    (h : level.isInfix kind = true) : continuedBy? kind = some level := by
  unfold isInfix at h
  split at h <;> first | rfl | cases h

theorem Level.continuedBy?_of_isAssignment {kind : TokenKind} (h : kind.isAssignment = true) :
    continuedBy? kind = some assignment := by
  unfold TokenKind.isAssignment at h
  split at h <;> first | rfl | cases h

/-- Tokens in front of which an expression of a level has ended. -/
def Closes (level : Level) (rest : List Token) : Prop :=
  ∀ t ∈ rest.head?, t.kind.isSymbol .arrow = false ∧
    ∀ level', Level.continuedBy? t.kind = some level' → level.rank < level'.rank

namespace Closes

variable {level level' : Level} {t : Token} {rest : List Token}

theorem tighter (h : Closes level rest) (hrank : level'.rank ≤ level.rank) : Closes level' rest :=
  fun t ht => ⟨(h t ht).1, fun other hother => Nat.lt_of_le_of_lt hrank ((h t ht).2 other hother)⟩

/-- A token that carries on looser levels only. -/
theorem of_continuedBy? (h : Level.continuedBy? t.kind = some level')
    (hrank : level.rank < level'.rank) : Closes level (t :: rest) := by
  intro u hu
  obtain rfl := Option.some.inj hu
  refine ⟨?_, fun other hother => Option.some.inj (h.symm.trans hother) ▸ hrank⟩
  cases harrow : t.kind.isSymbol .arrow with
  | false => rfl
  | true =>
    rw [TokenKind.eq_of_isSymbol harrow] at h
    cases h

/-- A token that carries on no expression. -/
theorem of_none (h : Level.continuedBy? t.kind = none) (harrow : t.kind.isSymbol .arrow = false) :
    Closes level (t :: rest) := by
  intro u hu
  obtain rfl := Option.some.inj hu
  exact ⟨harrow, fun other hother => by cases h.symm.trans hother⟩

/-- What carries on expressions of a level does not stand in front of its end. -/
theorem unwanted (h : Closes level rest) {wanted : TokenKind → Bool}
    (hwanted : ∀ kind, wanted kind = true → Level.continuedBy? kind = some level) :
    Parse.Consumes.Unwanted wanted rest := by
  intro t ht _
  cases hkind : wanted t.kind with
  | false => rfl
  | true => exact absurd ((h t ht).2 level (hwanted t.kind hkind)) (Nat.lt_irrefl _)

end Closes

/-! ## Levels -/

/-- From a level to the looser ones, step by step. -/
theorem Level.climb {motive : Level → Prop} (low : Level) (start : motive low)
    (step : ∀ level : Level, low.rank ≤ level.tighter.rank → motive level.tighter → motive level)
    {level : Level} (hrank : low.rank ≤ level.rank) : motive level := by
  have hstep (level : Level) : low = level ∨
      (low.rank ≤ level.rank → low.rank ≤ level.tighter.rank ∧ level.tighter.rank < level.rank) := by
    cases low <;> cases level <;> decide
  induction hn : level.rank using Nat.strongRecOn generalizing level with
  | _ n ih =>
    rcases hstep level with rfl | hlower
    · exact start
    · obtain ⟨hle, hlt⟩ := hlower hrank
      exact step level hle (ih _ (hn ▸ hlt) hle rfl)

theorem Expr.StandsAt.looser {low level : Level} {e : Expr} (h : e.StandsAt low)
    (hrank : low.rank ≤ level.rank) : e.StandsAt level :=
  Level.climb (motive := fun level => e.StandsAt level) low h (fun _ _ h => .tighter h) hrank

/-- Whether a level reads operands or postfixes one after the other. -/
def Level.loops : Level → Bool
  | .assignment | .ternary | .unary | .primary => false
  | _ => true

/-- How reading goes on at a level that loops. -/
def Level.more (level : Level) (fuel : Nat) (e : Expr) : LoxLang.Parse Expr :=
  match level with
  | .call => Parse.postfixes fuel e
  | _ => Parse.operands fuel level e

/-- Equal but for the numbers of nodes and the places of tokens. -/
abbrev Expr.Same : Expr → Expr → Prop := Expr.Alike (.placeless fun _ _ => True)

namespace Parse

theorem exprAt_loops {level : Level} (h : level.loops = true) (fuel : Nat) :
    exprAt (fuel + 1) level = exprAt fuel level.tighter >>= level.more fuel := by
  rw [exprAt.eq_def]
  cases level <;> first | rfl | cases h

theorem exprAt_zero (level : Level) : exprAt 0 level = outOfFuel := by
  cases level <;> rfl

variable {level : Level} {fuel : Nat} {given left rest : List Token} {e : Expr} {P Q : Expr → Prop}

/-- At the end of an expression the loop ends too. -/
theorem consumes_more_closed (hloops : level.loops = true) (hcloses : Closes level rest)
    (he : P e) : Consumes rest rest (level.more fuel e) P := by
  cases fuel with
  | zero => cases level <;> exact .outOfFuel
  | succ fuel =>
    have hoperands : Consumes rest rest (operands (fuel + 1) level e) P := by
      rw [operands]
      refine (Consumes.accept?_none (hcloses.unwanted fun _ =>
        Level.continuedBy?_of_isInfix)).bind ?_
      rintro _ rfl
      exact .pure he
    have hpostfixes (hcall : level = .call) : Consumes rest rest (postfixes (fuel + 1) e) P := by
      subst hcall
      rw [postfixes]
      refine (Consumes.accept?_none (hcloses.unwanted fun kind hkind => ?_)).bind ?_
      · rcases Bool.or_eq_true_iff.mp hkind with hsymbol | hsymbol <;>
          rw [TokenKind.eq_of_isSymbol hsymbol] <;> rfl
      · rintro _ rfl
        exact .pure he
    cases level with
    | call => exact hpostfixes rfl
    | _ => exact hoperands

/-- What is read at the next tighter level is read at a level as well. -/
theorem consumes_looser (h : ∀ fuel, Consumes given rest (exprAt fuel level.tighter) P)
    (hcloses : Closes level rest) (hbegins : Begins level.tighter given) (fuel : Nat) :
    Consumes given rest (exprAt fuel level) P := by
  cases fuel with
  | zero =>
    rw [exprAt_zero]
    exact .outOfFuel
  | succ fuel =>
    cases hloops : level.loops with
    | true =>
      rw [exprAt_loops hloops]
      exact (h fuel).bind fun e he => consumes_more_closed hloops hcloses he
    | false =>
      rw [exprAt.eq_def]
      cases level with
      | assignment =>
        refine (h fuel).bind fun e he => (Consumes.accept?_none (hcloses.unwanted fun _ =>
          Level.continuedBy?_of_isAssignment)).bind ?_
        rintro _ rfl
        exact .pure he
      | ternary =>
        refine (h fuel).bind fun e he => (Consumes.accept?_none (hcloses.unwanted fun _ hkind =>
          by rw [TokenKind.eq_of_isSymbol hkind]; rfl)).bind ?_
        rintro _ rfl
        exact .pure he
      | unary =>
        -- an expression of a tighter level does not begin with a unary operator
        refine (Consumes.accept?_none fun t ht _ => ?_).bind ?_
        · cases hbegins with
          | primary hprimary =>
            obtain rfl := Option.some.inj ht
            exact TokenKind.not_unary_of_beginsPrimary hprimary
          | unary _ hrank => exact absurd hrank (by decide)
        · rintro _ rfl
          exact h fuel
      | primary =>
        rw [Level.tighter] at h
        have hprimary := h (fuel + 1)
        rwa [exprAt.eq_def] at hprimary
      | _ => cases hloops

/-! ## Forms of expressions -/

/-- How the rendering of an expression is read at a level. -/
structure Readable (level : Level) (e : Expr) : Prop where
  whole : ∀ fuel rest, Closes level rest →
    Consumes (e.tokens ++ rest) rest (exprAt fuel level) e.Same
  /-- If the level loops, it comes to stand behind the rendering and goes on from there. -/
  part : level.loops = true → ∀ fuel rest left Q, Closes level.tighter rest →
    (∀ fuel' e', e.Same e' → Consumes rest left (level.more fuel' e') Q) →
    Consumes (e.tokens ++ rest) left (exprAt fuel level) Q

namespace Readable

theorem of_part (hloops : level.loops = true) (part : ∀ fuel rest left Q, Closes level.tighter rest →
    (∀ fuel' e', e.Same e' → Consumes rest left (level.more fuel' e') Q) →
    Consumes (e.tokens ++ rest) left (exprAt fuel level) Q) : Readable level e where
  part _ := part
  whole fuel rest hcloses := part fuel rest rest _ (hcloses.tighter (Level.rank_tighter_le level))
    fun _ _ he => consumes_more_closed hloops hcloses he

theorem of_whole (hloops : level.loops = false) (whole : ∀ fuel rest, Closes level rest →
    Consumes (e.tokens ++ rest) rest (exprAt (fuel + 1) level) e.Same) : Readable level e where
  part h := by cases hloops.symm.trans h
  whole fuel rest hcloses := by
    cases fuel with
    | zero =>
      rw [exprAt_zero]
      exact .outOfFuel
    | succ fuel => exact whole fuel rest hcloses

theorem tighter (h : Readable level.tighter e) (hbegins : Begins level.tighter e.tokens) :
    Readable level e := by
  cases hloops : level.loops with
  | true =>
    refine .of_part hloops fun fuel rest left Q hcloses hmore => ?_
    cases fuel with
    | zero =>
      rw [exprAt_zero]
      exact .outOfFuel
    | succ fuel =>
      rw [exprAt_loops hloops]
      exact (h.whole fuel rest hcloses).bind (hmore fuel)
  | false =>
    refine .of_whole hloops fun fuel rest hcloses => ?_
    have hwhole (fuel : Nat) := h.whole fuel rest (hcloses.tighter (Level.rank_tighter_le level))
    exact consumes_looser hwhole hcloses (hbegins.append rest) (fuel + 1)

theorem looser {low : Level} (h : Readable low e) (hbegins : Begins low e.tokens)
    (hrank : low.rank ≤ level.rank) : Readable level e :=
  Level.climb (motive := fun level => Readable level e) low h
    (fun _ hle h => h.tighter (hbegins.looser hle)) hrank

theorem more_of_isInfix {operator : Token} (h : level.isInfix operator.kind = true) (fuel : Nat)
    (e : Expr) : level.more fuel e = operands fuel level e := by
  cases level <;> first | rfl | cases h

theorem same_join {left left' right right' : Expr} {operator : Token} (hleft : left.Same left')
    (hright : right.Same right') :
    (level.join left operator right).Same (level.join left' operator right') := by
  cases level <;> first | exact .logical hleft ⟨rfl, rfl⟩ hright | exact .binary hleft ⟨rfl, rfl⟩ hright

/-- The loop joins what it has read with the operand behind the operator. -/
theorem joined {left right : Expr} {operator : Token}
    (hoperator : level.isInfix operator.kind = true) (hleft : Readable level left)
    (hright : Readable level.tighter right) : Readable level (level.join left operator right) := by
  have hloops : level.loops = true := by cases level <;> first | rfl | cases hoperator
  have hlower : level.tighter.rank < level.rank := by
    cases level <;> first | decide | cases hoperator
  have heof : operator.kind.isEof = false := by
    cases hkind : operator.kind with
    | eof => rw [hkind] at hoperator; cases level <;> cases hoperator
    | _ => rfl
  refine .of_part hloops fun fuel rest left' Q hcloses hmore => ?_
  rw [tokens_join, List.append_assoc, List.cons_append]
  refine hleft.part hloops fuel _ left' Q
    (.of_continuedBy? (Level.continuedBy?_of_isInfix hoperator) hlower) fun fuel' l hl => ?_
  rw [more_of_isInfix hoperator]
  cases fuel' with
  | zero => exact .outOfFuel
  | succ fuel' =>
    rw [operands]
    refine (Consumes.accept? heof hoperator).bind ?_
    rintro _ rfl
    refine (hright.whole fuel' rest hcloses).bind fun r hr => ?_
    rw [← more_of_isInfix hoperator]
    exact hmore fuel' _ (same_join hl hr)

theorem ternary {condition thenBranch elseBranch : Expr} {question : Token}
    (hquestion : question.kind = .symbol .questionMark) (hcondition : Readable .or condition)
    (hthen : Readable .comma thenBranch) (helse : Readable .ternary elseBranch) :
    Readable .ternary (.ternary condition question thenBranch elseBranch) := by
  refine .of_whole rfl fun fuel rest hcloses => ?_
  rw [exprAt.eq_def, Expr.tokens, List.append_assoc, List.cons_append, List.append_assoc,
    List.cons_append]
  refine (hcondition.whole fuel _ (.of_continuedBy? (by rw [hquestion]; rfl) (by decide))).bind
    fun c hc => ?_
  refine (Consumes.accept? (by rw [hquestion]; rfl) (by rw [hquestion]; rfl)).bind ?_
  rintro _ rfl
  refine (hthen.whole fuel _ (.of_none rfl rfl)).bind fun t ht => ?_
  refine (Consumes.expectSymbol rfl).bind fun _ _ => ?_
  refine (helse.whole fuel rest hcloses).bind fun e he => ?_
  exact .pure (.ternary hc ⟨rfl, rfl⟩ ht he)

theorem unary {operator : Token} {right : Expr} (hoperator : operator.kind.isUnaryOperator = true)
    (hright : Readable .unary right) : Readable .unary (.unary operator right) := by
  have heof : operator.kind.isEof = false := by
    cases hkind : operator.kind with
    | eof => rw [hkind] at hoperator; cases hoperator
    | _ => rfl
  refine .of_whole rfl fun fuel rest hcloses => ?_
  rw [exprAt.eq_def, Expr.tokens, List.cons_append]
  refine (Consumes.accept? heof hoperator).bind ?_
  rintro _ rfl
  refine (hright.whole fuel rest hcloses).bind fun r hr => ?_
  exact .pure (.unary ⟨rfl, rfl⟩ hr)

/-- A target and the value behind an equals sign. -/
theorem assignment {target value whole : Expr} (hwhole : whole.tokens =
      target.tokens ++ .ofSymbol .equal :: value.tokens)
    (htarget : Readable .ternary target) (hvalue : Readable .assignment value)
    (hassign : ∀ target' value' rest, target.Same target' → value.Same value' →
      Consumes rest rest (assignTo target' (.ofSymbol .equal) value') whole.Same) :
    Readable .assignment whole := by
  refine .of_whole rfl fun fuel rest hcloses => ?_
  rw [exprAt.eq_def, hwhole, List.append_assoc, List.cons_append]
  refine (htarget.whole fuel _ (.of_continuedBy? rfl (by decide))).bind fun t ht => ?_
  refine (Consumes.accept? rfl rfl).bind ?_
  rintro _ rfl
  refine (hvalue.whole fuel rest hcloses).bind fun v hv => ?_
  exact hassign t v rest ht hv

theorem assign {id : NodeId} {name : Token} {value : Expr}
    (hname : Readable .ternary (.variable id name)) (hvalue : Readable .assignment value) :
    Readable .assignment (.assign id name value) := by
  refine .assignment (by rw [Expr.tokens, Expr.tokens]; rfl) hname hvalue
    fun target' value' rest htarget hvalue => ?_
  cases htarget with
  | «variable» _ hname =>
    refine Consumes.freshId.bind fun _ _ => Consumes.freshId.bind fun _ _ => ?_
    exact .pure (.assign trivial hname hvalue)

theorem set {object value : Expr} {name : Token} (hget : Readable .ternary (.get object name))
    (hvalue : Readable .assignment value) : Readable .assignment (.set object name value) := by
  refine .assignment (by rw [Expr.tokens, Expr.tokens, List.append_assoc]; rfl) hget hvalue
    fun target' value' rest htarget hvalue => ?_
  cases htarget with
  | get hobject hname => exact .pure (.set hobject hname hvalue)

/-! ### Calls -/

theorem get {object : Expr} {name : Token} (hname : name.kind = .identifier)
    (hobject : Readable .call object) : Readable .call (.get object name) := by
  refine .of_part rfl fun fuel rest left Q _ hmore => ?_
  rw [Expr.tokens, List.append_assoc]
  refine hobject.part rfl fuel _ left Q (.of_continuedBy? rfl (by decide)) fun fuel' o ho => ?_
  cases fuel' with
  | zero => exact .outOfFuel
  | succ fuel' =>
    refine (Consumes.accept? rfl rfl).bind ?_
    rintro _ rfl
    refine (Consumes.expectName hname).bind ?_
    rintro _ rfl
    exact hmore fuel' _ (.get ho ⟨rfl, rfl⟩)

theorem someArguments {arguments : List Expr} {paren : Token} (rest : List Token) (count : Nat)
    (hparen : paren.kind = .symbol .rightParen) (hne : arguments ≠ [])
    (hcount : count + arguments.length ≤ maxArguments)
    (harguments : ∀ argument ∈ arguments, Readable .assignment argument) (fuel : Nat) :
    Consumes (tokensOfEach arguments ++ paren :: rest) (paren :: rest)
      (Parse.someArguments fuel count)
      (AlikeEach (.placeless fun _ _ => True) arguments) := by
  induction arguments generalizing count fuel with
  | nil => exact absurd rfl hne
  | cons argument others ih =>
    obtain ⟨hargument, hothers⟩ := List.forall_mem_cons.mp harguments
    rw [List.length_cons] at hcount
    cases fuel with
    | zero => exact .outOfFuel
    | succ fuel =>
      rw [Parse.someArguments, tokensOfEach, List.append_assoc]
      refine (Consumes.limit (by omega)).bind fun _ _ => ?_
      cases others with
      | nil =>
        rw [tokensOfOthers, List.nil_append]
        refine (hargument.whole fuel _ (.of_none (by rw [hparen]; rfl) (by rw [hparen]; rfl))).bind
          fun a ha => ?_
        refine (Consumes.accept_false ?_).bind ?_
        · intro t ht _
          obtain rfl := Option.some.inj ht
          rw [hparen]
          rfl
        · rintro _ rfl
          exact .pure (.cons ha .nil)
      | cons other others =>
        rw [tokensOfOthers, List.cons_append, List.append_assoc]
        refine (hargument.whole fuel _ (.of_continuedBy? rfl (by decide))).bind fun a ha => ?_
        refine (Consumes.accept rfl rfl).bind ?_
        rintro _ rfl
        have hrest := ih (count + 1) (List.cons_ne_nil _ _) (by omega) hothers fuel
        rw [tokensOfEach, List.append_assoc] at hrest
        exact hrest.bind fun es hes => .pure (.cons ha hes)

theorem call {callee : Expr} {paren : Token} {arguments : List Expr}
    (hparen : paren.kind = .symbol .rightParen) (hcount : arguments.length ≤ maxArguments)
    (hcallee : Readable .call callee)
    (hbegins : ∀ argument ∈ arguments, Begins .assignment argument.tokens)
    (harguments : ∀ argument ∈ arguments, Readable .assignment argument) :
    Readable .call (.call callee paren arguments) := by
  refine .of_part rfl fun fuel rest left Q _ hmore => ?_
  rw [Expr.tokens, List.append_assoc, List.cons_append, List.append_assoc, List.singleton_append]
  refine hcallee.part rfl fuel _ left Q (.of_continuedBy? rfl (by decide)) fun fuel' c hc => ?_
  cases fuel' with
  | zero => exact .outOfFuel
  | succ fuel' =>
    have hbehind (es : List Expr) (hes : AlikeEach (.placeless fun _ _ => True) arguments es) :
        Consumes (paren :: rest) left (do
          let paren ← expect (·.isSymbol .rightParen) "')' after arguments"
          postfixes fuel' (.call c paren es)) Q := by
      refine (Consumes.expect (by rw [hparen]; rfl) (by rw [hparen]; rfl)).bind ?_
      rintro _ rfl
      exact hmore fuel' _ (.call hc ⟨rfl, rfl⟩ hes)
    refine (Consumes.accept? rfl rfl).bind ?_
    rintro _ rfl
    cases arguments with
    | nil =>
      refine (Consumes.nextIs (by rw [hparen]; rfl)).bind ?_
      rintro _ rfl
      rw [hparen]
      exact hbehind [] .nil
    | cons argument others =>
      obtain ⟨t, ts, htokens, ht⟩ := (hbegins argument (List.mem_cons_self ..)).exists_cons
      have hread := someArguments rest 0 hparen (List.cons_ne_nil argument others)
        (by omega) harguments fuel'
      rw [tokensOfEach, htokens] at hread ⊢
      refine (Consumes.nextIs (TokenKind.not_eof_of_beginsExpression ht)).bind ?_
      rintro _ rfl
      rw [TokenKind.not_closed_of_beginsExpression ht]
      exact hread.bind hbehind

/-! ### Operands -/

/-- A token that is an operand of its own, perhaps with more behind it. -/
theorem leaf (t : Token) (ts : List Token) (act : Parse Expr) (htokens : e.tokens = t :: ts)
    (heof : t.kind.isEof = false) (hleaf : leaf? t = some act)
    (hact : ∀ rest, Consumes (ts ++ rest) rest act e.Same) : Readable .primary e := by
  refine .of_whole rfl fun fuel rest _ => ?_
  rw [exprAt.eq_def, htokens, List.cons_append]
  cases fuel with
  | zero => exact .outOfFuel
  | succ fuel =>
    show Consumes _ _ (Parse.primary (fuel + 1)) _
    rw [Parse.primary]
    refine .getting fun s hs => ?_
    rw [Consumes.next?_of_cons hs heof]
    dsimp only
    rw [hleaf]
    exact (Consumes.advance heof).bind fun _ _ => hact rest

theorem literal (value : Literal) : Readable .primary (.literal value) := by
  refine .leaf value.token [] (Pure.pure (.literal value)) ?_ ?_ ?_
    fun rest => .pure (.literal value)
  · rw [Expr.tokens]
  · exact TokenKind.not_eof_of_beginsExpression
      (by rw [TokenKind.beginsExpression, value.beginsPrimary, Bool.true_or])
  · cases value with
    | bool b => cases b <;> rfl
    | _ => rfl

theorem «variable» {id : NodeId} {name : Token} (hname : name.kind = .identifier) :
    Readable .primary (.variable id name) := by
  refine .leaf name [] (do return .variable (← freshId) name) ?_ ?_ ?_
    fun rest => Consumes.freshId.bind fun _ _ => .pure (.variable trivial ⟨rfl, rfl⟩)
  · rw [Expr.tokens]
  · rw [hname]
    rfl
  · unfold leaf?
    rw [hname]

theorem this {id : NodeId} {keyword : Token} (hkeyword : keyword.kind = .keyword .this) :
    Readable .primary (.this id keyword) := by
  refine .leaf keyword [] (do return .this (← freshId) keyword) ?_ ?_ ?_
    fun rest => Consumes.freshId.bind fun _ _ => .pure (.this trivial ⟨rfl, rfl⟩)
  · rw [Expr.tokens]
  · rw [hkeyword]
    rfl
  · unfold leaf?
    rw [hkeyword]

theorem super {id : NodeId} {keyword method : Token} (hkeyword : keyword.kind = .keyword .super)
    (hmethod : method.kind = .identifier) : Readable .primary (.super id keyword method) := by
  refine .leaf keyword [.ofSymbol .dot, method] (do
      expectSymbol .dot "'.' after 'super'"
      let method ← expectName "base class method name"
      return .super (← freshId) keyword method) ?_ ?_ ?_ fun rest => ?_
  · rw [Expr.tokens]
  · rw [hkeyword]
    rfl
  · unfold leaf?
    rw [hkeyword]
  · refine (Consumes.expectSymbol rfl).bind fun _ _ => ?_
    refine (Consumes.expectName hmethod).bind ?_
    rintro _ rfl
    exact Consumes.freshId.bind fun _ _ => .pure (.super trivial ⟨rfl, rfl⟩ ⟨rfl, rfl⟩)

/-! ### Parentheses -/

/-- What stands behind an opening parenthesis. -/
theorem consumes_parenthesised {ts : List Token} {P : Expr → Prop}
    (h : ∀ fuel, Consumes ts rest (parenthesised fuel) P) (fuel : Nat) :
    Consumes (.ofSymbol .leftParen :: ts) rest (exprAt fuel .primary) P := by
  cases fuel with
  | zero => exact .outOfFuel
  | succ fuel =>
    cases fuel with
    | zero => exact .outOfFuel
    | succ fuel =>
      show Consumes _ _ (Parse.primary (fuel + 1)) _
      rw [Parse.primary]
      refine .getting fun s hs => ?_
      rw [Consumes.next?_of_cons hs rfl]
      exact (Consumes.advance rfl).bind fun _ _ => h fuel

/-- A grouping of what is read up to its closing parenthesis. -/
theorem grouping {inner : Expr} (hunclosed : Unclosed inner.tokens) (hne : inner.tokens ≠ [])
    (hinner : ∀ fuel rest, Consumes (inner.tokens ++ .ofSymbol .rightParen :: rest)
      (.ofSymbol .rightParen :: rest) (exprAt fuel .comma) inner.Same) :
    Readable .primary (.grouping inner) := by
  refine .of_whole rfl fun fuel rest hcloses => ?_
  rw [Expr.tokens, List.cons_append, List.append_assoc, List.singleton_append]
  refine consumes_parenthesised (fun fuel => ?_) (fuel + 1)
  cases fuel with
  | zero => exact .outOfFuel
  | succ fuel =>
    rw [parenthesised]
    refine (Consumes.arrowHead_none (arrowHead?_unclosed hunclosed hne rfl
      fun t ht => (hcloses t ht).1)).bind ?_
    rintro _ rfl
    refine (hinner fuel rest).bind fun inner' hsame => ?_
    exact (Consumes.expectSymbol rfl).bind fun _ _ => .pure (.grouping hsame)

/-- The body of an arrow runs to the end of an assignment. -/
theorem consumes_arrow {arrow keyword : Token} {params : List Token} {value : Expr}
    (rest : List Token)
    (harrow : arrow.kind = .symbol .arrow)
    (hparams : ∀ param ∈ params, param.kind = .identifier) (hcount : params.length ≤ maxArguments)
    (hkeyword : keyword.kind = .keyword .return ∧ keyword.lexeme = "return")
    (hbegins : Begins .assignment value.tokens) (hvalue : Readable .assignment value)
    (hcloses : Closes .assignment rest) (fuel : Nat) :
    Consumes ((Expr.arrow ⟨arrow, params, [.return keyword (some value)]⟩).tokens ++ rest) rest
      (exprAt fuel .primary)
      (Expr.Same (.arrow ⟨arrow, params, [.return keyword (some value)]⟩)) := by
  rw [Expr.tokens, ArrowDecl.tokens, tokensOfBody, Stmt.returnedTokens, tokensOfOptional,
    List.cons_append, List.append_assoc, List.cons_append, List.cons_append]
  refine consumes_parenthesised (fun fuel => ?_) fuel
  cases fuel with
  | zero => exact .outOfFuel
  | succ fuel =>
    rw [parenthesised]
    refine (Consumes.arrowHead (arrowHead?_intersperse hparams rfl rfl harrow)).bind ?_
    rintro _ rfl
    dsimp only
    rw [if_neg (Nat.not_lt.mpr hcount)]
    have hbody : Consumes (value.tokens ++ rest) rest (arrowBody fuel arrow)
        (AlikeBody (.placeless fun _ _ => True) [.return keyword (some value)]) := by
      cases fuel with
      | zero => exact .outOfFuel
      | succ fuel =>
        rw [arrowBody]
        refine (Consumes.accept_false fun t ht _ => ?_).bind ?_
        · obtain ⟨first, others, htokens, hfirst⟩ := hbegins.exists_cons
          rw [htokens] at ht
          obtain rfl := Option.some.inj ht
          exact TokenKind.not_brace_of_beginsExpression hfirst
        · rintro _ rfl
          refine (hvalue.whole fuel rest hcloses).bind fun v hv => ?_
          exact .pure (.cons (.return hkeyword (.some hv)) .nil)
    refine hbody.bind fun body hsame => ?_
    exact .pure (.arrow (.mk ⟨rfl, rfl⟩ (List.forall₂_same.mpr fun _ _ => ⟨rfl, rfl⟩) hsame))

theorem arrow {arrow keyword : Token} {params : List Token} {value : Expr}
    (harrow : arrow.kind = .symbol .arrow)
    (hparams : ∀ param ∈ params, param.kind = .identifier) (hcount : params.length ≤ maxArguments)
    (hkeyword : keyword.kind = .keyword .return ∧ keyword.lexeme = "return")
    (hbegins : Begins .assignment value.tokens) (hvalue : Readable .assignment value) :
    Readable .primary (.grouping (.arrow ⟨arrow, params, [.return keyword (some value)]⟩)) := by
  have hparen : ∃ ts, (Expr.arrow ⟨arrow, params, [.return keyword (some value)]⟩).tokens =
      .ofSymbol .leftParen :: ts := by
    rw [Expr.tokens, ArrowDecl.tokens]
    exact ⟨_, rfl⟩
  have hprimary (fuel : Nat) (rest : List Token) :=
    consumes_arrow (.ofSymbol .rightParen :: rest) harrow hparams hcount hkeyword hbegins hvalue
      (.of_none rfl rfl) fuel
  obtain ⟨ts, hts⟩ := hparen
  rw [hts] at hprimary
  refine .grouping (by rw [hts]; exact .of_stop rfl rfl) (by rw [hts]; exact List.cons_ne_nil _ _)
    fun fuel rest => ?_
  rw [hts]
  -- an arrow is no operand of a call, but nothing follows it here
  exact Level.climb (motive := fun level => ∀ fuel, Consumes _ _ (exprAt fuel level) _) .primary
    (fun fuel => hprimary fuel rest)
    (fun level _ h => consumes_looser h (.of_none rfl rfl) (.primary rfl)) (by decide) fuel

end Readable

end Parse

open Parse in
/-- An expression that stands at a level is read at that level. -/
theorem Expr.StandsAt.readable {level : Level} {e : Expr} (h : e.StandsAt level) : Readable level e := by
  induction h with
  | tighter h ih => exact ih.tighter h.begins
  | joined _ hoperator _ _ ihleft ihright => exact .joined hoperator ihleft ihright
  | @assign id name value hname _ ih =>
    have htarget : Readable .ternary (.variable id name) :=
      (Readable.variable hname).looser (Expr.StandsAt.variable hname).begins (by decide)
    exact .assign htarget ih
  | @set object value name hobject hname _ ihobject ihvalue =>
    have htarget : Readable .ternary (.get object name) :=
      (Readable.get hname ihobject).looser (Expr.StandsAt.get hobject hname).begins (by decide)
    exact .set htarget ihvalue
  | ternary _ hquestion _ _ ihcondition ihthen ihelse =>
    exact .ternary hquestion ihcondition ihthen ihelse
  | unary hoperator _ ih => exact .unary hoperator ih
  | call _ hparen hcount harguments ihcallee iharguments =>
    exact .call hparen hcount ihcallee (fun a ha => (harguments a ha).begins) iharguments
  | get _ hname ih => exact .get hname ih
  | literal value => exact .literal value
  | «variable» hname => exact .variable hname
  | this hkeyword => exact .this hkeyword
  | super hkeyword hmethod => exact .super hkeyword hmethod
  | grouping hinner ih =>
    refine .grouping hinner.unclosed ?_ fun fuel rest => ih.whole fuel _ (.of_none rfl rfl)
    obtain ⟨t, ts, htokens, -⟩ := hinner.begins.exists_cons
    rw [htokens]
    exact List.cons_ne_nil _ _
  | arrow harrow hparams hcount hkeyword hvalue ih =>
    exact .arrow harrow hparams hcount hkeyword hvalue.begins ih

/-! ## Statements and programs -/

namespace Parse

variable {e : Expr} {semicolon : Token} (rest : List Token)

theorem consumes_expressionStatement (h : e.StandsAt .comma)
    (hsemicolon : semicolon.kind = .symbol .semicolon) (fuel : Nat) :
    Consumes (e.tokens ++ semicolon :: rest) rest (expressionStatement fuel)
      fun stmt => ∃ e', stmt = .expression e' ∧ e.Same e' := by
  cases fuel with
  | zero => exact .outOfFuel
  | succ fuel =>
    rw [expressionStatement]
    refine (h.readable.whole fuel _ (.of_none (by rw [hsemicolon]; rfl)
      (by rw [hsemicolon]; rfl))).bind fun e' he => ?_
    exact (Consumes.expectSymbol hsemicolon).bind fun _ _ => .pure ⟨e', rfl, he⟩

/-- No word of another statement begins an expression. -/
theorem consumes_statement (h : e.StandsAt .comma)
    (hsemicolon : semicolon.kind = .symbol .semicolon) (fuel : Nat) (inLoop : Bool) :
    Consumes (e.tokens ++ semicolon :: rest) rest (statement fuel inLoop)
      fun stmt => ∃ e', stmt = .expression e' ∧ e.Same e' := by
  cases fuel with
  | zero => exact .outOfFuel
  | succ fuel =>
    have hbody := consumes_expressionStatement rest h hsemicolon fuel
    obtain ⟨t, ts, htokens, ht⟩ := h.begins.exists_cons
    rw [htokens] at hbody ⊢
    rw [statement]
    refine .getting fun s hs => ?_
    rw [Consumes.next?_of_cons hs (TokenKind.not_eof_of_beginsExpression ht)]
    dsimp only
    split
    case h_11 => exact hbody
    all_goals
      rename_i hkind
      rw [hkind] at ht
      cases ht

theorem consumes_declaration (h : e.StandsAt .comma)
    (hsemicolon : semicolon.kind = .symbol .semicolon) (fuel : Nat) (inLoop : Bool) :
    Consumes (e.tokens ++ semicolon :: rest) rest (declaration fuel inLoop)
      fun stmt => ∃ e', stmt = .expression e' ∧ e.Same e' := by
  cases fuel with
  | zero => exact .outOfFuel
  | succ fuel =>
    have hbody := consumes_statement rest h hsemicolon fuel inLoop
    obtain ⟨t, ts, htokens, ht⟩ := h.begins.exists_cons
    rw [htokens] at hbody ⊢
    rw [declaration]
    refine (Consumes.nextKind? (TokenKind.not_eof_of_beginsExpression ht)).bind ?_
    rintro _ rfl
    split
    case h_5 => exact hbody
    all_goals
      rename_i hkind
      rw [Option.some.inj hkind] at ht
      cases ht

theorem consumes_item (h : e.StandsAt .comma) (hsemicolon : semicolon.kind = .symbol .semicolon)
    (interactive : Bool) (fuel : Nat) :
    Consumes (e.tokens ++ semicolon :: rest) rest (item interactive fuel)
      fun stmt => ∃ e', stmt = .expression e' ∧ e.Same e' := by
  have hdeclaration := consumes_declaration rest h hsemicolon fuel false
  cases interactive with
  | false => exact hdeclaration
  | true =>
    intro s hs hgood
    have hitem : item true fuel = interactiveDeclaration fuel := rfl
    rw [hitem]
    cases hrun : declaration fuel false s with
    | ok stmt after =>
      rw [(Attempted.declared hrun).eq]
      exact (hdeclaration s hs).ok hgood hrun
    | error stop after =>
      obtain ⟨hkeeps, rfl⟩ := (hdeclaration s hs).error hgood hrun
      rw [(Attempted.stuck hrun).eq]
      exact ⟨hkeeps, rfl⟩

theorem declarations_atEnd {one : Parse Stmt} {s : ParseState} (h : s.atEnd = true) (count : Nat) :
    declarations one count s = ([], s, true) := by
  cases count with
  | zero => rw [declarations, h]
  | succ count => rw [declarations, if_pos h]

/-- The rendering of an expression with a semicolon behind it is read as the statement of it. -/
theorem program_tokens (h : e.StandsAt .comma) (semicolon last : Token)
    (hsemicolon : semicolon.kind = .symbol .semicolon) (hlast : last.kind = .eof)
    (interactive : Bool) (firstId : NodeId) :
    (∃ e', (program interactive firstId (e.tokens ++ [semicolon, last])).statements =
        some [.expression e'] ∧ e.Same e') ∧
      (program interactive firstId (e.tokens ++ [semicolon, last])).errors = [] := by
  let start : ParseState :=
    { last := none, rest := e.tokens ++ [semicolon, last], nextId := firstId }
  have hread := consumes_item [last] h hsemicolon interactive (depthBound start.rest) start rfl
  have htakes := item_takes interactive (depthBound start.rest) start.rest start rfl
  obtain ⟨t, ts, htokens, ht⟩ := h.begins.exists_cons
  have hnext : start.next? = some t :=
    Consumes.next?_of_cons (congrArg (· ++ [semicolon, last]) htokens)
      (TokenKind.not_eof_of_beginsExpression ht)
  have hatEnd : start.atEnd = false := by rw [ParseState.atEnd, hnext]; rfl
  obtain ⟨count, hcount⟩ : ∃ count, start.rest.length = count + 1 :=
    ⟨e.tokens.length + 1, by simp [start]⟩
  cases hrun : item interactive (depthBound start.rest) start with
  | error stop after =>
    have hstuck := (hread.error trivial hrun).2
    exact absurd (by rw [depthBound]; omega) ((htakes.error trivial hrun).2 hstuck)
  | ok stmt after =>
    obtain ⟨⟨herrors, hfailed⟩, hrest, e', rfl, he⟩ := hread.ok trivial hrun
    have hdone : after.atEnd = true := by
      rw [ParseState.atEnd, ParseState.next?_of_rest hrest, hlast]
      rfl
    have hprogram : declarations (item interactive (depthBound start.rest)) start.rest.length
        start = ([.expression e'], after, true) := by
      rw [hcount, declarations, hatEnd, if_neg Bool.false_ne_true, hrun]
      dsimp only
      rw [declarations_atEnd hdone]
    unfold program
    rw [hprogram]
    refine ⟨⟨e', ?_, he⟩, herrors⟩
    dsimp only
    rw [hfailed]
    rfl

/-- The rendering of an expression with a semicolon and the end of the source behind it. -/
def rendering (e : Expr) : List Token :=
  e.tokens ++ [.ofSymbol .semicolon, ⟨.eof, "", 1, ⟨0, 0⟩⟩]

/-- Wherever its tokens are placed, the rendering of an expression is read as that expression. -/
theorem program_rendered (h : e.StandsAt .comma) (interactive : Bool) (firstId : NodeId)
    {tokens : List Token} (htokens : List.Forall₂ Token.SameWord (rendering e) tokens) :
    (∃ e', (program interactive firstId tokens).statements = some [.expression e'] ∧ e.Same e') ∧
      (program interactive firstId tokens).errors = [] := by
  have hcomposes : (Likeness.placeless fun _ _ => True).Composes (.placeless fun _ _ => True)
      (.placeless fun _ _ => True) :=
    ⟨fun ht ht' => ⟨ht.1.trans ht'.1, ht.2.trans ht'.2⟩, fun _ _ => trivial⟩
  have halike : (program interactive firstId (rendering e)).Alike (.placeless fun _ _ => True)
      (program interactive firstId tokens) := program_alike interactive htokens fun _ => trivial
  obtain ⟨⟨e', hstatements, hsame⟩, herrors⟩ :=
    program_tokens h (.ofSymbol .semicolon) ⟨.eof, "", 1, ⟨0, 0⟩⟩ rfl rfl
      interactive firstId
  obtain ⟨hstatements', herrors', -⟩ := halike
  rw [rendering, hstatements] at hstatements'
  rw [rendering, herrors] at herrors'
  refine ⟨?_, List.forall₂_nil_left_iff.mp herrors'⟩
  generalize (program interactive firstId tokens).statements = statements at hstatements'
  cases hstatements' with
  | some hbody =>
    cases hbody with
    | cons hstatement hnil =>
      cases hnil
      cases hstatement with
      | expression hsame' => exact ⟨_, rfl, hsame.trans hcomposes hsame'⟩

/-- Differences are joined from the left: `x = a - b - c` with ids of its own. -/
theorem program_rendered_difference :
    let name (s : String) : Expr := .variable 0 (.ofName s 7)
    let e : Expr := .assign 0 (.ofName "x" 7) (.binary (.binary (name "a") (.ofSymbol .minus)
      (name "b")) (.ofSymbol .minus) (name "c"))
    e.StandsAt .comma ∧ List.Forall₂ Token.SameWord (rendering e) (rendering e) ∧
      (∃ e', (program false 3 (rendering e)).statements = some [.expression e'] ∧ e.Same e') ∧
        (program false 3 (rendering e)).errors = [] := by
  intro name e
  have hname (s : String) : (name s).StandsAt .primary := .variable rfl
  have hdifference : Expr.StandsAt .term (.binary (.binary (name "a") (.ofSymbol .minus)
      (name "b")) (.ofSymbol .minus) (name "c")) :=
    .joined .term rfl
      (.joined .term rfl ((hname "a").looser (by decide)) ((hname "b").looser (by decide)))
      ((hname "c").looser (by decide))
  have hfits : e.StandsAt .comma :=
    Expr.StandsAt.looser (.assign rfl (hdifference.looser (by decide))) (by decide)
  have htokens : List.Forall₂ Token.SameWord (rendering e) (rendering e) :=
    List.forall₂_same.mpr fun _ _ => ⟨rfl, rfl⟩
  exact ⟨hfits, htokens, program_rendered hfits false 3 htokens⟩

end Parse

end LoxLang
