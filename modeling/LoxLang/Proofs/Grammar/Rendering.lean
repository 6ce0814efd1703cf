import LoxLang.Proofs.Grammar.Progress
import LoxLang.Proofs.Token.Spelling

/-!
# Trees as tokens

The tokens of an expression in order (`Expr.tokens`), and the trees that stand at a level of the
ladder without further parentheses (`Expr.StandsAt`): the operands of an infix operator at its own level
on the left and at the next tighter one on the right, those of an assignment, a choice and a unary
operator at their own level on the right. What such a rendering begins with tells an operand from an
operator, and a grouping from the parameters of an arrow.
-/

namespace LoxLang

/-- A token that is no part of a tree. -/
def Token.ofSymbol (s : Symbol) : Token := ⟨.symbol s, s.text, 1, ⟨0, 0⟩⟩

def Literal.token : Literal → Token
  | .number value => ⟨.number value, value.display, 1, ⟨0, 0⟩⟩
  | .string contents => ⟨.string contents, "\"" ++ contents ++ "\"", 1, ⟨0, 0⟩⟩
  | .bool true => ⟨.keyword .true, "true", 1, ⟨0, 0⟩⟩
  | .bool false => ⟨.keyword .false, "false", 1, ⟨0, 0⟩⟩
  | .nil => ⟨.keyword .nil, "nil", 1, ⟨0, 0⟩⟩

mutual

/-- The tokens of an expression, in order. Of the arrows only those with an expression for a body
have a rendering. -/
def Expr.tokens : Expr → List Token
  | .literal value => [value.token]
  | .grouping inner => .ofSymbol .leftParen :: (inner.tokens ++ [.ofSymbol .rightParen])
  | .unary operator right => operator :: right.tokens
  | .binary left operator right => left.tokens ++ operator :: right.tokens
  | .logical left operator right => left.tokens ++ operator :: right.tokens
  | .ternary condition question thenBranch elseBranch =>
    condition.tokens ++ question :: (thenBranch.tokens ++ .ofSymbol .colon :: elseBranch.tokens)
  | .variable _ name => [name]
  | .assign _ name value => name :: .ofSymbol .equal :: value.tokens
  | .call callee paren arguments =>
    callee.tokens ++ .ofSymbol .leftParen :: (tokensOfEach arguments ++ [paren])
  | .get object name => object.tokens ++ [.ofSymbol .dot, name]
  | .set object name value =>
    object.tokens ++ .ofSymbol .dot :: name :: .ofSymbol .equal :: value.tokens
  | .this _ keyword => [keyword]
  | .super _ keyword method => [keyword, .ofSymbol .dot, method]
  | .arrow decl => decl.tokens

def ArrowDecl.tokens : ArrowDecl → List Token
  | ⟨arrow, params, body⟩ =>
    .ofSymbol .leftParen :: (params.intersperse (.ofSymbol .comma) ++
      .ofSymbol .rightParen :: arrow :: tokensOfBody body)

/-- Expressions with commas between them. -/
def tokensOfEach : List Expr → List Token
  | [] => []
  | e :: es => e.tokens ++ tokensOfOthers es

/-- Expressions with a comma before each. -/
def tokensOfOthers : List Expr → List Token
  | [] => []
  | e :: es => .ofSymbol .comma :: (e.tokens ++ tokensOfOthers es)

def tokensOfBody : List Stmt → List Token
  | [] => []
  | s :: _ => s.returnedTokens

def Stmt.returnedTokens : Stmt → List Token
  | .return _ value => tokensOfOptional value
  | _ => []

def tokensOfOptional : Option Expr → List Token
  | none => []
  | some e => e.tokens

end

/-- The expressions that stand at a level of the ladder. An arrow stands directly in parentheses and
returns an expression. -/
inductive Expr.StandsAt : Level → Expr → Prop
  | tighter {level : Level} {e : Expr} (h : StandsAt level.tighter e) : StandsAt level e
  | joined (level : Level) {left right : Expr} {operator : Token}
    (hoperator : level.isInfix operator.kind = true) (hleft : StandsAt level left)
    (hright : StandsAt level.tighter right) : StandsAt level (level.join left operator right)
  | assign {id : NodeId} {name : Token} {value : Expr} (hname : name.kind = .identifier)
    (hvalue : StandsAt .assignment value) : StandsAt .assignment (.assign id name value)
  | set {object value : Expr} {name : Token} (hobject : StandsAt .call object)
    (hname : name.kind = .identifier) (hvalue : StandsAt .assignment value) :
    StandsAt .assignment (.set object name value)
  | ternary {condition thenBranch elseBranch : Expr} {question : Token}
    (hcondition : StandsAt .or condition) (hquestion : question.kind = .symbol .questionMark)
    (hthen : StandsAt .comma thenBranch) (helse : StandsAt .ternary elseBranch) :
    StandsAt .ternary (.ternary condition question thenBranch elseBranch)
  | unary {operator : Token} {right : Expr} (hoperator : operator.kind.isUnaryOperator = true)
    (hright : StandsAt .unary right) : StandsAt .unary (.unary operator right)
  | call {callee : Expr} {paren : Token} {arguments : List Expr} (hcallee : StandsAt .call callee)
    (hparen : paren.kind = .symbol .rightParen) (hcount : arguments.length ≤ maxArguments)
    (harguments : ∀ argument ∈ arguments, StandsAt .assignment argument) :
    StandsAt .call (.call callee paren arguments)
  | get {object : Expr} {name : Token} (hobject : StandsAt .call object)
    (hname : name.kind = .identifier) : StandsAt .call (.get object name)
  | literal (value : Literal) : StandsAt .primary (.literal value)
  | «variable» {id : NodeId} {name : Token} (hname : name.kind = .identifier) :
    StandsAt .primary (.variable id name)
  | this {id : NodeId} {keyword : Token} (hkeyword : keyword.kind = .keyword .this) :
    StandsAt .primary (.this id keyword)
  | super {id : NodeId} {keyword method : Token} (hkeyword : keyword.kind = .keyword .super)
    (hmethod : method.kind = .identifier) : StandsAt .primary (.super id keyword method)
  | grouping {inner : Expr} (hinner : StandsAt .comma inner) : StandsAt .primary (.grouping inner)
  | arrow {arrow keyword : Token} {params : List Token} {value : Expr}
    (harrow : arrow.kind = .symbol .arrow)
    (hparams : ∀ param ∈ params, param.kind = .identifier) (hcount : params.length ≤ maxArguments)
    (hkeyword : keyword.kind = .keyword .return ∧ keyword.lexeme = "return")
    (hvalue : StandsAt .assignment value) :
    StandsAt .primary (.grouping (.arrow ⟨arrow, params, [.return keyword (some value)]⟩))

theorem tokens_join (level : Level) (left right : Expr) (operator : Token) :
    (level.join left operator right).tokens = left.tokens ++ operator :: right.tokens := by
  cases level <;> rfl

/-! ## Beginnings -/

/-- The kinds of tokens that begin an operand of a call. -/
def TokenKind.beginsPrimary : TokenKind → Bool
  | number _ | string _ | identifier | symbol .leftParen => Bool.true
  | keyword .true | keyword .false | keyword .nil | keyword .this | keyword .super => Bool.true
  | _ => Bool.false

theorem TokenKind.not_unary_of_beginsPrimary {kind : TokenKind}
    (h : kind.beginsPrimary = true) : kind.isUnaryOperator = false := by
  unfold beginsPrimary at h
  split at h <;> first | rfl | cases h

/-- Tokens that begin like an expression of a level. -/
inductive Begins (level : Level) : List Token → Prop
  | primary {t : Token} {ts : List Token} (h : t.kind.beginsPrimary = true) : Begins level (t :: ts)
  | unary {t : Token} {ts : List Token} (h : t.kind.isUnaryOperator = true)
    (hlevel : Level.unary.rank ≤ level.rank) : Begins level (t :: ts)

theorem Begins.append {level : Level} {ts : List Token} (h : Begins level ts) (us : List Token) :
    Begins level (ts ++ us) := by
  cases h with
  | primary h => exact .primary h
  | unary h hlevel => exact .unary h hlevel

theorem Begins.looser {level level' : Level} {ts : List Token} (h : Begins level ts)
    (hrank : level.rank ≤ level'.rank) : Begins level' ts := by
  cases h with
  | primary h => exact .primary h
  | unary h hlevel => exact .unary h (Nat.le_trans hlevel hrank)

/-- The kinds of tokens that begin an expression. -/
def TokenKind.beginsExpression (kind : TokenKind) : Bool :=
  kind.beginsPrimary || kind.isUnaryOperator

theorem Begins.exists_cons {level : Level} {ts : List Token} (h : Begins level ts) :
    ∃ t ts', ts = t :: ts' ∧ t.kind.beginsExpression = true := by
  cases h with
  | primary h => exact ⟨_, _, rfl, by rw [TokenKind.beginsExpression, h, Bool.true_or]⟩
  | unary h => exact ⟨_, _, rfl, by rw [TokenKind.beginsExpression, h, Bool.or_true]⟩

theorem TokenKind.not_eof_of_beginsExpression {kind : TokenKind}
    (h : kind.beginsExpression = true) : kind.isEof = false := by
  cases kind with
  | eof => cases h
  | _ => rfl

theorem TokenKind.not_closed_of_beginsExpression {kind : TokenKind}
    (h : kind.beginsExpression = true) : kind.isSymbol .rightParen = false := by
  cases kind with
  | symbol s => cases s <;> first | rfl | cases h
  | _ => rfl

theorem TokenKind.not_brace_of_beginsExpression {kind : TokenKind}
    (h : kind.beginsExpression = true) : kind.isSymbol .leftBrace = false := by
  cases kind with
  | symbol s => cases s <;> first | rfl | cases h
  | _ => rfl

theorem Level.rank_tighter_le (level : Level) : level.tighter.rank ≤ level.rank := by
  cases level <;> decide

theorem Literal.beginsPrimary (value : Literal) : value.token.kind.beginsPrimary = true := by
  cases value with
  | bool b => cases b <;> rfl
  | _ => rfl

theorem Expr.StandsAt.begins {level : Level} {e : Expr} (h : e.StandsAt level) : Begins level e.tokens := by
  induction h with
  | tighter _ ih => exact ih.looser (Level.rank_tighter_le _)
  | joined _ _ _ _ ih _ =>
    rw [tokens_join]
    exact ih.append _
  | assign hname =>
    rw [Expr.tokens]
    exact .primary (by rw [hname]; rfl)
  | set _ _ _ ih _ =>
    rw [Expr.tokens]
    exact (ih.append _).looser (by decide)
  | ternary _ _ _ _ ih _ _ =>
    rw [Expr.tokens]
    exact (ih.append _).looser (by decide)
  | unary hoperator =>
    rw [Expr.tokens]
    exact .unary hoperator (Nat.le_refl _)
  | call _ _ _ _ ih _ =>
    rw [Expr.tokens]
    exact ih.append _
  | get _ _ ih =>
    rw [Expr.tokens]
    exact ih.append _
  | literal value =>
    rw [Expr.tokens]
    exact .primary value.beginsPrimary
  | «variable» hname =>
    rw [Expr.tokens]
    exact .primary (by rw [hname]; rfl)
  | this hkeyword =>
    rw [Expr.tokens]
    exact .primary (by rw [hkeyword]; rfl)
  | super hkeyword =>
    rw [Expr.tokens]
    exact .primary (by rw [hkeyword]; rfl)
  | grouping =>
    rw [Expr.tokens]
    exact .primary rfl
  | arrow =>
    rw [Expr.tokens]
    exact .primary rfl

/-! ## Groupings and arrows -/

/-- What a list of parameters is made of. -/
def Token.isListed (t : Token) : Bool :=
  t.kind.isIdentifier || t.kind.isSymbol .comma

/-- A list of names that these tokens begin with does not end with a parenthesis among them. -/
def Unclosed (ts : List Token) : Prop :=
  ∀ t ∈ (ts.dropWhile Token.isListed).head?, t.kind.isSymbol .rightParen = false

namespace Unclosed

variable {t : Token} {ts us : List Token}

theorem of_listed (ht : t.isListed = true) (h : Unclosed ts) : Unclosed (t :: ts) := by
  rwa [Unclosed, List.dropWhile_cons_of_pos ht]

theorem tail (h : Unclosed (t :: ts)) (ht : t.isListed = true) : Unclosed ts := by
  rwa [Unclosed, List.dropWhile_cons_of_pos ht] at h

theorem head (h : Unclosed (t :: ts)) : t.kind.isSymbol .rightParen = false := by
  cases ht : t.isListed with
  | false =>
    refine h t ?_
    rw [List.dropWhile_cons_of_neg (by simp [ht])]
    rfl
  | true =>
    cases hclosed : t.kind.isSymbol .rightParen with
    | false => rfl
    | true =>
      rw [Token.isListed, TokenKind.eq_of_isSymbol hclosed] at ht
      cases ht

/-- From a token that no list of names contains, anything may follow. -/
theorem of_stop (ht : t.isListed = false) (hclosed : t.kind.isSymbol .rightParen = false) :
    Unclosed (t :: ts) := by
  intro u hu
  rw [List.dropWhile_cons_of_neg (by simp [ht])] at hu
  exact Option.some.inj hu ▸ hclosed

theorem append (h : Unclosed ts) (h' : Unclosed us) : Unclosed (ts ++ us) := by
  induction ts with
  | nil => exact h'
  | cons t ts ih =>
    cases ht : t.isListed with
    | true => exact of_listed ht (ih (h.tail ht))
    | false => exact of_stop ht h.head

theorem nil : Unclosed [] := nofun

end Unclosed

theorem not_closed_of_isInfix {level : Level} {kind : TokenKind} (h : level.isInfix kind = true) :
    kind.isSymbol .rightParen = false := by
  cases hclosed : kind.isSymbol .rightParen with
  | false => rfl
  | true =>
    rw [TokenKind.eq_of_isSymbol hclosed] at h
    cases level <;> cases h

theorem unclosed_of_beginsPrimary {t : Token} {ts : List Token}
    (h : t.kind.beginsPrimary = true) (hts : Unclosed ts) : Unclosed (t :: ts) := by
  cases hlisted : t.isListed with
  | true => exact .of_listed hlisted hts
  | false =>
    refine .of_stop hlisted ?_
    cases hclosed : t.kind.isSymbol .rightParen with
    | false => rfl
    | true =>
      rw [TokenKind.eq_of_isSymbol hclosed] at h
      cases h

/-- An expression does not close a parenthesis that it has not opened. -/
theorem Expr.StandsAt.unclosed {level : Level} {e : Expr} (h : e.StandsAt level) : Unclosed e.tokens := by
  induction h with
  | tighter _ ih => exact ih
  | joined _ hoperator _ _ ihleft ihright =>
    rw [tokens_join]
    refine ihleft.append ?_
    rename_i operator _ _
    cases hlisted : operator.isListed with
    | true => exact .of_listed hlisted ihright
    | false => exact .of_stop hlisted (not_closed_of_isInfix hoperator)
  | assign hname =>
    rw [Expr.tokens]
    exact .of_listed (by rw [Token.isListed, hname]; rfl) (.of_stop rfl rfl)
  | set _ _ _ ih _ =>
    rw [Expr.tokens]
    exact ih.append (.of_stop rfl rfl)
  | ternary _ hquestion _ _ ih _ _ =>
    rw [Expr.tokens]
    exact ih.append (.of_stop (by rw [Token.isListed, hquestion]; rfl) (by rw [hquestion]; rfl))
  | @unary operator right hoperator =>
    rw [Expr.tokens]
    cases hkind : operator.kind with
    | symbol s =>
      rw [hkind] at hoperator
      cases s <;> first | exact .of_stop (by rw [Token.isListed, hkind]; rfl) (by rw [hkind]; rfl) | cases hoperator
    | keyword k => exact .of_stop (by rw [Token.isListed, hkind]; rfl) (by rw [hkind]; rfl)
    | _ => rw [hkind] at hoperator; cases hoperator
  | call _ _ _ _ ih _ =>
    rw [Expr.tokens]
    exact ih.append (.of_stop rfl rfl)
  | get _ _ ih =>
    rw [Expr.tokens]
    exact ih.append (.of_stop rfl rfl)
  | literal value =>
    rw [Expr.tokens]
    exact unclosed_of_beginsPrimary value.beginsPrimary .nil
  | «variable» hname =>
    rw [Expr.tokens]
    exact unclosed_of_beginsPrimary (by rw [hname]; rfl) .nil
  | this hkeyword =>
    rw [Expr.tokens]
    exact unclosed_of_beginsPrimary (by rw [hkeyword]; rfl) .nil
  | super hkeyword =>
    rw [Expr.tokens]
    exact unclosed_of_beginsPrimary (by rw [hkeyword]; rfl) (.of_stop rfl rfl)
  | grouping =>
    rw [Expr.tokens]
    exact .of_stop rfl rfl
  | arrow =>
    rw [Expr.tokens]
    exact .of_stop rfl rfl

end LoxLang
