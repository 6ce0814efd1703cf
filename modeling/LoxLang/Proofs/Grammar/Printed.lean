import LoxLang.Proofs.Grammar.Attempt
import LoxLang.Proofs.Grammar.Legible
import LoxLang.Proofs.Syntax.Printing

/-!
# Printing what has been read

Every tree that is read off lexemes is printed as a form (`rulesPrint`, `printed_program`), so the
texts of a program tell what was read, two kinds of names apart (`texts_eq_iff_alike_shown`).
-/

namespace LoxLang

/-! ## Trees with a form -/

/-- The name that an infinite literal is printed like. -/
def Identifier.infinity : Identifier :=
  ⟨'i', ['n', 'f'], rfl, List.all_eq_true.mp rfl, by decide⟩

/-- The name that a clause that is left out is printed like. -/
def Identifier.underscore : Identifier :=
  ⟨'_', [], rfl, List.all_eq_true.mp rfl, by decide⟩

/-- The tree is printed as some form. -/
def Expr.Printed (e : Expr) : Prop := ∃ f, e.shown.Prints f

def PrintedEach (es : List Expr) : Prop := ∃ fs, PrintsEach (shownEach es) fs

def PrintedOptional (e : Option Expr) : Prop := ∃ fs, PrintsOptional (shownOptional e) fs

def PrintedClause (e : Option Expr) : Prop := ∃ f, (shownClause e).Prints f

def Stmt.Printed (s : Stmt) : Prop := ∃ f, s.shown.Prints f

def PrintedBranch (s : Option Stmt) : Prop := ∃ fs, PrintsBranch (shownBranch s) fs

def PrintedInitializer (s : Option Stmt) : Prop := ∃ f, PrintsInitializer (shownBranch s) f

def PrintedBody (ss : List Stmt) : Prop := ∃ fs, PrintsBody (shownBody ss) fs

/-- Under every word for its role. -/
def FunctionDecl.Printed (d : FunctionDecl) : Prop :=
  ∀ mark : Mark, mark.hasParams = true → ∃ f, FunctionDecl.Prints mark d.shown f

def PrintedFunctions (mark : Mark) (ds : List FunctionDecl) : Prop :=
  ∃ fs, PrintsFunctions mark (shownFunctions ds) fs

variable {e left right object value : Expr} {es : List Expr} {operator name : Token}

namespace Expr.Printed

theorem ofName {text : String} (i : Identifier) (h : text.toList = i.text) :
    (Expr.ofName text).Prints (.leaf (.name i)) :=
  .variable ⟨rfl, h⟩

/-- A number is printed as one, or as the name of an infinity. -/
theorem number {value : Numeral} (h : value.IsUnsigned) :
    Printed (.literal (.number value)) := by
  unfold Printed
  rw [Expr.shown, Literal.shown]
  split
  · exact ⟨_, ofName .infinity (by decide)⟩
  · next hfinite => exact ⟨_, .number h (Bool.eq_false_iff.mpr hfinite)⟩

theorem string (c : Contents) : Printed (.literal (.string (String.ofList c.text))) := by
  unfold Printed
  rw [Expr.shown, Literal.shown]
  · exact ⟨_, .string c⟩
  · exact fun _ h => by cases h

theorem bool (b : Bool) : Printed (.literal (.bool b)) := by
  cases b
  · exact ⟨_, .false⟩
  · exact ⟨_, .true⟩

theorem nil : Printed (.literal .nil) := ⟨_, .nil⟩

theorem this {id : NodeId} {keyword : Token} (hkeyword : keyword.Reads (.keyword .this)) :
    Printed (.this id keyword) :=
  ⟨_, .this hkeyword⟩

theorem grouping (h : e.Printed) : Printed (.grouping e) := by
  obtain ⟨f, hf⟩ := h
  exact ⟨_, .grouping hf⟩

theorem unary (hoperator : operator.Legible) (hkind : operator.kind.isUnaryOperator = true)
    (h : right.Printed) : Printed (.unary operator right) := by
  obtain ⟨f, hf⟩ := h
  cases heq : operator.kind with
  | symbol s =>
    have hmark : (Mark.symbol s).hasParams = false := by
      rw [heq] at hkind
      cases s <;> first | rfl | cases hkind
    exact ⟨.node (.symbol s) hmark [f], .unarySymbol (hoperator.symbol heq) hf⟩
  | keyword k =>
    have hmark : (Mark.keyword k).hasParams = false ∧ k ≠ .super := by
      rw [heq] at hkind
      cases k <;> first | exact ⟨rfl, by decide⟩ | cases hkind
    exact ⟨.node (.keyword k) hmark.1 [f], .unaryKeyword (hoperator.keyword heq) hmark.2 hf⟩
  | _ =>
    rw [heq] at hkind
    cases hkind

theorem binary {s : Symbol} (hoperator : operator.Reads (.symbol s))
    (hs : s ≠ .equal ∧ s ≠ .dot ∧ s ≠ .arrow) (hleft : left.Printed) (hright : right.Printed) :
    Printed (.binary left operator right) := by
  obtain ⟨f, hf⟩ := hleft
  obtain ⟨g, hg⟩ := hright
  have hmark : (Mark.symbol s).hasParams = false := by
    cases s <;> first | rfl | exact absurd rfl hs.2.2
  exact ⟨.node (.symbol s) hmark [f, g], .binary hoperator hs.1 hs.2.1 hf hg⟩

theorem logical {k : Keyword} (hoperator : operator.Reads (.keyword k)) (hk : k ≠ .fun)
    (hleft : left.Printed) (hright : right.Printed) : Printed (.logical left operator right) := by
  obtain ⟨f, hf⟩ := hleft
  obtain ⟨g, hg⟩ := hright
  have hmark : (Mark.keyword k).hasParams = false := by
    cases k <;> first | rfl | exact absurd rfl hk
  exact ⟨.node (.keyword k) hmark [f, g], .logical hoperator hf hg⟩

/-- The operators of a level make the kind of node that is printed with them. -/
theorem join {level : Level} (hoperator : operator.Legible)
    (hlevel : level.isInfix operator.kind = true) (hleft : left.Printed) (hright : right.Printed) :
    (level.join left operator right).Printed := by
  unfold Level.isInfix at hlevel
  split at hlevel <;> rename_i hkind
  all_goals first
    | exact binary (hoperator.symbol hkind) (by decide) hleft hright
    | exact logical (hoperator.keyword hkind) (by decide) hleft hright
    | cases hlevel

theorem ternary {condition thenBranch elseBranch : Expr} {question : Token}
    (hcondition : condition.Printed) (hquestion : question.Reads (.symbol .questionMark))
    (hthen : thenBranch.Printed) (helse : elseBranch.Printed) :
    Printed (.ternary condition question thenBranch elseBranch) := by
  obtain ⟨f, hf⟩ := hcondition
  obtain ⟨g, hg⟩ := hthen
  obtain ⟨k, hk⟩ := helse
  exact ⟨_, .ternary hf hquestion hg hk⟩

theorem «variable» {id : NodeId} (hname : ∃ i, name.Names i) : Printed (.variable id name) := by
  obtain ⟨i, hi⟩ := hname
  exact ⟨_, .variable hi⟩

theorem assign {id : NodeId} (hname : ∃ i, name.Names i) (hvalue : value.Printed) :
    Printed (.assign id name value) := by
  obtain ⟨i, hi⟩ := hname
  obtain ⟨f, hf⟩ := hvalue
  exact ⟨_, .assign hi hf⟩

theorem call {callee : Expr} {paren : Token} (hcallee : callee.Printed)
    (hparen : paren.Reads (.symbol .rightParen)) (hes : PrintedEach es) :
    Printed (.call callee paren es) := by
  obtain ⟨f, hf⟩ := hcallee
  obtain ⟨fs, hfs⟩ := hes
  exact ⟨_, .call hf hparen hfs⟩

theorem get (hobject : object.Printed) (hname : ∃ i, name.Names i) :
    Printed (.get object name) := by
  obtain ⟨f, hf⟩ := hobject
  obtain ⟨i, hi⟩ := hname
  exact ⟨_, .get hf hi⟩

theorem set (hobject : object.Printed) (hname : ∃ i, name.Names i) (hvalue : value.Printed) :
    Printed (.set object name value) := by
  obtain ⟨f, hf⟩ := hobject
  obtain ⟨i, hi⟩ := hname
  obtain ⟨g, hg⟩ := hvalue
  exact ⟨_, .set hf hi hg⟩

theorem super {id : NodeId} {keyword method : Token} (hkeyword : keyword.Reads (.keyword .super))
    (hmethod : ∃ i, method.Names i) : Printed (.super id keyword method) := by
  obtain ⟨i, hi⟩ := hmethod
  exact ⟨_, .super hkeyword hi⟩

theorem arrow {params : List Token} {arrow : Token} {body : List Stmt}
    (hhead : ArrowHead params arrow) (hbody : PrintedBody body) :
    Printed (.arrow ⟨arrow, params, body⟩) := by
  obtain ⟨is, his⟩ := hhead.params
  obtain ⟨fs, hfs⟩ := hbody
  exact ⟨_, .arrow hhead.arrow his hfs⟩

end Expr.Printed

theorem PrintedEach.nil : PrintedEach [] := ⟨_, .nil⟩

theorem PrintedEach.cons (h : e.Printed) (hes : PrintedEach es) : PrintedEach (e :: es) := by
  obtain ⟨f, hf⟩ := h
  obtain ⟨fs, hfs⟩ := hes
  exact ⟨_, .cons hf hfs⟩

theorem PrintedOptional.none : PrintedOptional none := ⟨_, .none⟩

theorem PrintedOptional.some (h : e.Printed) : PrintedOptional (some e) := by
  obtain ⟨f, hf⟩ := h
  exact ⟨_, .some hf⟩

theorem PrintedClause.none : PrintedClause none :=
  ⟨_, Expr.Printed.ofName .underscore (by decide)⟩

theorem PrintedClause.some (h : e.Printed) : PrintedClause (some e) := h

namespace Stmt.Printed

variable {s thenBranch body : Stmt} {ss : List Stmt} {keyword : Token} {optional : Option Expr}

theorem expression (h : value.Printed) : Printed (.expression value) := by
  obtain ⟨f, hf⟩ := h
  exact ⟨_, .expression hf⟩

theorem print (h : value.Printed) : Printed (.print value) := by
  obtain ⟨f, hf⟩ := h
  exact ⟨_, .print hf⟩

theorem println (h : value.Printed) : Printed (.println value) := by
  obtain ⟨f, hf⟩ := h
  exact ⟨_, .println hf⟩

theorem var (hname : ∃ i, name.Names i) (h : PrintedOptional optional) :
    Printed (.var name optional) := by
  obtain ⟨i, hi⟩ := hname
  obtain ⟨fs, hfs⟩ := h
  exact ⟨_, .var hi hfs⟩

theorem const (hname : ∃ i, name.Names i) (h : value.Printed) : Printed (.const name value) := by
  obtain ⟨i, hi⟩ := hname
  obtain ⟨f, hf⟩ := h
  exact ⟨_, .const hi hf⟩

theorem block (h : PrintedBody ss) : Printed (.block ss) := by
  obtain ⟨fs, hfs⟩ := h
  exact ⟨_, .block hfs⟩

theorem ifElse {elseBranch : Option Stmt} (hcondition : value.Printed) (hthen : thenBranch.Printed)
    (helse : PrintedBranch elseBranch) : Printed (.ifElse value thenBranch elseBranch) := by
  obtain ⟨f, hf⟩ := hcondition
  obtain ⟨g, hg⟩ := hthen
  obtain ⟨fs, hfs⟩ := helse
  exact ⟨_, .ifElse hf hg hfs⟩

theorem «while» (hcondition : value.Printed) (hbody : body.Printed) :
    Printed (.while value body) := by
  obtain ⟨f, hf⟩ := hcondition
  obtain ⟨g, hg⟩ := hbody
  exact ⟨_, .while hf hg⟩

theorem «for» {initializer : Option Stmt} {condition update : Option Expr}
    (hinitializer : PrintedInitializer initializer) (hcondition : PrintedClause condition)
    (hupdate : PrintedClause update) (hbody : body.Printed) :
    Printed (.for initializer condition update body) := by
  obtain ⟨f, hf⟩ := hinitializer
  obtain ⟨g, hg⟩ := hcondition
  obtain ⟨k, hk⟩ := hupdate
  obtain ⟨b, hb⟩ := hbody
  exact ⟨_, .for hf hg hk hb⟩

theorem «break» (hkeyword : keyword.Reads (.keyword .break)) : Printed (.break keyword) :=
  ⟨_, .break hkeyword⟩

theorem «continue» (hkeyword : keyword.Reads (.keyword .continue)) : Printed (.continue keyword) :=
  ⟨_, .continue hkeyword⟩

theorem assert (hkeyword : keyword.Reads (.keyword .assert)) (hcondition : value.Printed)
    (hmessage : PrintedOptional optional) : Printed (.assert keyword value optional) := by
  obtain ⟨f, hf⟩ := hcondition
  obtain ⟨fs, hfs⟩ := hmessage
  exact ⟨_, .assert hkeyword hf hfs⟩

theorem «return» (hkeyword : keyword.Reads (.keyword .return)) (h : PrintedOptional optional) :
    Printed (.return keyword optional) := by
  obtain ⟨fs, hfs⟩ := h
  exact ⟨_, .return hkeyword hfs⟩

theorem function {d : FunctionDecl} (h : d.Printed) : Printed (.function d) := by
  obtain ⟨f, hf⟩ := h (.keyword .fun) rfl
  obtain ⟨name, params, body⟩ := d
  obtain ⟨hname, hparams, hbody⟩ := hf
  exact ⟨_, .function hname hparams hbody⟩

theorem «class» {base : Option Expr} {methods statics getters : List FunctionDecl}
    (hname : ∃ i, name.Names i) (hbase : PrintedOptional base)
    (hmethods : PrintedFunctions .method methods) (hstatics : PrintedFunctions .static statics)
    (hgetters : PrintedFunctions .getter getters) :
    Printed (.class ⟨name, base, methods, statics, getters⟩) := by
  obtain ⟨i, hi⟩ := hname
  obtain ⟨bs, hbs⟩ : ∃ bs, PrintsBase (shownOptional base) bs := by
    obtain ⟨fs, hfs⟩ := hbase
    cases base with
    | none => exact ⟨_, .none⟩
    | some e =>
      obtain - | hf := hfs
      exact ⟨_, .some hf⟩
  obtain ⟨ms, hms⟩ := hmethods
  obtain ⟨ss, hss⟩ := hstatics
  obtain ⟨gs, hgs⟩ := hgetters
  exact ⟨_, .class hi hbs hms hss hgs rfl⟩

end Stmt.Printed

theorem PrintedBranch.none : PrintedBranch none := ⟨_, .none⟩

theorem PrintedBranch.some {s : Stmt} (h : s.Printed) : PrintedBranch (some s) := by
  obtain ⟨f, hf⟩ := h
  exact ⟨_, .some hf⟩

theorem PrintedInitializer.none : PrintedInitializer none :=
  ⟨_, .none (i := .underscore) (by decide)⟩

theorem PrintedInitializer.some {s : Stmt} (h : s.Printed) : PrintedInitializer (some s) := by
  obtain ⟨f, hf⟩ := h
  exact ⟨_, .some hf⟩

theorem PrintedBody.nil : PrintedBody [] := ⟨_, .nil⟩

theorem PrintedBody.cons {s : Stmt} {ss : List Stmt} (h : s.Printed) (hss : PrintedBody ss) :
    PrintedBody (s :: ss) := by
  obtain ⟨f, hf⟩ := h
  obtain ⟨fs, hfs⟩ := hss
  exact ⟨_, .cons hf hfs⟩

theorem FunctionDecl.Printed.mk {params : List Token} {body : List Stmt}
    (hname : ∃ i, name.Names i) (hparams : AreNames params) (hbody : PrintedBody body) :
    FunctionDecl.Printed ⟨name, params, body⟩ := by
  obtain ⟨i, hi⟩ := hname
  obtain ⟨is, his⟩ := hparams
  obtain ⟨fs, hfs⟩ := hbody
  exact fun mark hmark => ⟨.function mark hmark (some i) is fs, .mk hi his hfs⟩

theorem PrintedFunctions.nil {mark : Mark} : PrintedFunctions mark [] := ⟨_, .nil⟩

theorem PrintedFunctions.cons {mark : Mark} {d : FunctionDecl} {ds : List FunctionDecl}
    (hmark : mark.hasParams = true) (h : d.Printed) (hds : PrintedFunctions mark ds) :
    PrintedFunctions mark (d :: ds) := by
  obtain ⟨f, hf⟩ := h mark hmark
  obtain ⟨fs, hfs⟩ := hds
  exact ⟨_, .cons hf hfs⟩

namespace Parse

/-- Each kind of members under its word. -/
structure Members.Printed (ms : Members) : Prop where
  methods : PrintedFunctions .method ms.methods
  statics : PrintedFunctions .static ms.statics
  getters : PrintedFunctions .getter ms.getters

namespace Members.Printed

variable {ms : Members} {d : FunctionDecl}

theorem none : Printed {} := ⟨.nil, .nil, .nil⟩

theorem addMethod (hd : d.Printed) (h : ms.Printed) :
    Printed { ms with methods := d :: ms.methods } :=
  ⟨.cons rfl hd h.methods, h.statics, h.getters⟩

theorem addStatic (hd : d.Printed) (h : ms.Printed) :
    Printed { ms with statics := d :: ms.statics } :=
  ⟨h.methods, .cons rfl hd h.statics, h.getters⟩

theorem addGetter (hd : d.Printed) (h : ms.Printed) :
    Printed { ms with getters := d :: ms.getters } :=
  ⟨h.methods, h.statics, .cons rfl hd h.getters⟩

end Members.Printed

/-! ## Forms without parts of their own -/

theorem leaf?_legibly {token : Token} {leaf : Parse Expr} (h : leaf? token = some leaf)
    (htoken : token.Legible) : Legibly leaf Expr.Printed := by
  unfold leaf? at h
  split at h <;> cases h
  · exact .pure (.bool false)
  · exact .pure (.bool true)
  · exact .pure .nil
  · next hkind => exact .pure (.number (htoken.number hkind))
  · next hkind =>
    obtain ⟨c, rfl⟩ := htoken.string hkind
    exact .pure (.string c)
  · next hkind =>
    have hname := htoken.identifier (by rw [hkind]; rfl)
    exact Legibly.freshId.andThen fun _ => .pure (.variable hname)
  · next hkind => exact Legibly.freshId.andThen fun _ => .pure (.this (htoken.keyword hkind))
  · next hkind =>
    exact Legibly.expectSymbol.andThen fun _ => Legibly.expectName.bind fun method hmethod =>
      Legibly.freshId.andThen fun _ => .pure (.super (htoken.keyword hkind) hmethod)

theorem printed_assignedValue {equals : Token} {old value : Expr} (hold : old.Printed)
    (hvalue : value.Printed) : (assignedValue equals old value).Printed := by
  unfold assignedValue
  split
  · next operator hoperator =>
    have happlied : operator ≠ .equal ∧ operator ≠ .dot ∧ operator ≠ .arrow := by
      unfold TokenKind.appliedOperator? at hoperator
      split at hoperator <;> cases hoperator <;> decide
    exact .binary ⟨rfl, rfl⟩ happlied hold hvalue
  · exact hvalue

theorem assignTo_legibly {target value : Expr} {equals : Token} (ht : target.Printed)
    (hv : value.Printed) : Legibly (assignTo target equals value) Expr.Printed := by
  unfold assignTo
  split
  · next id name =>
    have hname : ∃ i, name.Names i := by
      obtain ⟨f, hf⟩ := ht
      cases hf with
      | «variable» hname => exact ⟨_, hname⟩
    exact Legibly.freshId.andThen fun old => Legibly.freshId.andThen fun new =>
      .pure (.assign hname (printed_assignedValue (.variable hname) hv))
  · next object name =>
    obtain ⟨f, hf⟩ := ht
    cases hf with
    | get hobject hname =>
      exact .pure (.set ⟨_, hobject⟩ ⟨_, hname⟩
        (printed_assignedValue (.get ⟨_, hobject⟩ ⟨_, hname⟩) hv))
  · exact Legibly.noteAt.andThen fun _ => .pure ht

theorem jump_legibly {node : Token → Stmt} {inLoop : Bool} {keyword : Token}
    (h : (node keyword).Printed) : Legibly (jump node inLoop keyword) Stmt.Printed := by
  unfold jump
  exact .ite (fun _ => Legibly.expectSymbol.andThen fun _ => .pure h) fun _ => Legibly.failAt

/-! ## The rules -/

/-- What the rules read off lexemes is printed as a form. -/
structure RulesPrint (fuel : Nat) : Prop where
  exprAt : ∀ level, Legibly (exprAt fuel level) Expr.Printed
  operands : ∀ level {left}, left.Printed → Legibly (operands fuel level left) Expr.Printed
  postfixes : ∀ {callee}, callee.Printed → Legibly (postfixes fuel callee) Expr.Printed
  someArguments : ∀ count, Legibly (someArguments fuel count) PrintedEach
  primary : Legibly (primary fuel) Expr.Printed
  parenthesised : Legibly (parenthesised fuel) Expr.Printed
  arrowBody : ∀ arrow, Legibly (arrowBody fuel arrow) PrintedBody
  statement : ∀ inLoop, Legibly (statement fuel inLoop) Stmt.Printed
  expressionStatement : Legibly (expressionStatement fuel) Stmt.Printed
  forStatement : Legibly (forStatement fuel) Stmt.Printed
  blockBody : ∀ inLoop, Legibly (blockBody fuel inLoop) PrintedBody
  declaration : ∀ inLoop, Legibly (declaration fuel inLoop) Stmt.Printed
  varDeclaration : Legibly (varDeclaration fuel) Stmt.Printed
  function : ∀ role, Legibly (function fuel role) FunctionDecl.Printed
  classDeclaration : Legibly (classDeclaration fuel) Stmt.Printed
  members : Legibly (members fuel) Members.Printed

namespace RulesPrint

theorem zero : RulesPrint 0 where
  exprAt _ := .outOfFuel
  operands _ := fun _ => .outOfFuel
  postfixes := fun _ => .outOfFuel
  someArguments _ := .outOfFuel
  primary := .outOfFuel
  parenthesised := .outOfFuel
  arrowBody _ := .outOfFuel
  statement _ := .outOfFuel
  expressionStatement := .outOfFuel
  forStatement := .outOfFuel
  blockBody _ := .outOfFuel
  declaration _ := .outOfFuel
  varDeclaration := .outOfFuel
  function _ := .outOfFuel
  classDeclaration := .outOfFuel
  members := .outOfFuel

variable {fuel : Nat}

theorem exprAt_succ (h : RulesPrint fuel) (level : Level) :
    Legibly (Parse.exprAt (fuel + 1) level) Expr.Printed := by
  have hlevel (level : Level) : Legibly (do
      let left ← Parse.exprAt fuel level.tighter
      Parse.operands fuel level left) Expr.Printed :=
    (h.exprAt level.tighter).bind fun _ hleft => h.operands level hleft
  rw [Parse.exprAt.eq_def]
  cases level
  case assignment =>
    refine (h.exprAt .ternary).bind fun target ht => Legibly.accept?.bind fun found _ => ?_
    cases found with
    | none => exact .pure ht
    | some equals => exact (h.exprAt .assignment).bind fun value hv => assignTo_legibly ht hv
  case ternary =>
    refine (h.exprAt .or).bind fun condition hc => Legibly.accept?.bind fun found hfound => ?_
    cases found with
    | none => exact .pure hc
    | some question =>
      obtain ⟨hquestion, hkind⟩ := hfound question rfl
      exact (h.exprAt .comma).bind fun thenBranch ht => Legibly.expectSymbol.andThen fun _ =>
        (h.exprAt .ternary).bind fun elseBranch he =>
          .pure (.ternary hc (hquestion.symbol (TokenKind.eq_of_isSymbol hkind)) ht he)
  case unary =>
    refine Legibly.accept?.bind fun found hfound => ?_
    cases found with
    | none => exact h.exprAt .call
    | some operator =>
      obtain ⟨hoperator, hkind⟩ := hfound operator rfl
      exact (h.exprAt .unary).bind fun right hr => .pure (.unary hoperator hkind hr)
  case call => exact (h.exprAt .primary).bind fun callee hc => h.postfixes hc
  case primary => exact h.primary
  all_goals exact hlevel _

theorem operands_succ (h : RulesPrint fuel) (level : Level) {left : Expr} (hleft : left.Printed) :
    Legibly (Parse.operands (fuel + 1) level left) Expr.Printed := by
  rw [Parse.operands]
  refine Legibly.accept?.bind fun found hfound => ?_
  cases found with
  | none => exact .pure hleft
  | some operator =>
    obtain ⟨hoperator, hlevel⟩ := hfound operator rfl
    exact (h.exprAt level.tighter).bind fun right hright =>
      h.operands level (.join hoperator hlevel hleft hright)

theorem postfixes_succ (h : RulesPrint fuel) {callee : Expr} (hcallee : callee.Printed) :
    Legibly (Parse.postfixes (fuel + 1) callee) Expr.Printed := by
  rw [Parse.postfixes]
  refine Legibly.accept?.bind fun found _ => ?_
  cases found with
  | none => exact .pure hcallee
  | some t =>
    refine .ite (fun _ => ?_) fun _ => ?_
    · have hcall : ∀ es, PrintedEach es → Legibly (do
          let paren ← expect (·.isSymbol .rightParen) "')' after arguments"
          Parse.postfixes fuel (.call callee paren es)) Expr.Printed :=
        fun es hes => Legibly.expect.bind fun paren hparen =>
          h.postfixes (.call hcallee (hparen.1.symbol (TokenKind.eq_of_isSymbol hparen.2)) hes)
      refine Legibly.nextIs.andThen fun closed => .ite (fun _ => ?_) fun _ => ?_
      · have hnone : Legibly (pure []) PrintedEach := .pure .nil
        exact hnone.bind hcall
      · exact (h.someArguments 0).bind hcall
    · exact Legibly.expectName.bind fun name hname => h.postfixes (.get hcallee hname)

theorem someArguments_succ (h : RulesPrint fuel) (count : Nat) :
    Legibly (Parse.someArguments (fuel + 1) count) PrintedEach := by
  rw [Parse.someArguments]
  refine Legibly.limit.andThen fun _ => (h.exprAt .assignment).bind fun argument ha =>
    Legibly.acceptSymbol.andThen fun more => .ite (fun _ => ?_) fun _ => .pure (.cons ha .nil)
  exact (h.someArguments (count + 1)).bind fun others ho => .pure (.cons ha ho)

theorem primary_succ (h : RulesPrint fuel) : Legibly (Parse.primary (fuel + 1)) Expr.Printed := by
  rw [Parse.primary]
  refine Legibly.get.bind fun s hs => ?_
  cases hnext : s.next? with
  | none => exact Legibly.failHere
  | some t =>
    dsimp only
    cases hleaf : leaf? t with
    | some leaf => exact Legibly.advance.andThen fun _ => leaf?_legibly hleaf (hs.next? t hnext)
    | none =>
      refine .ite (fun _ => Legibly.advance.andThen fun _ => h.parenthesised) ?_
      intro _
      cases Level.ofStrayOperator? t.kind with
      | none => exact Legibly.failHere
      | some level =>
        exact Legibly.advance.andThen fun _ => (h.exprAt level).discard.andThen fun _ =>
          Legibly.failAt

theorem parenthesised_succ (h : RulesPrint fuel) :
    Legibly (Parse.parenthesised (fuel + 1)) Expr.Printed := by
  rw [Parse.parenthesised]
  refine Legibly.arrowHead.bind fun head hhead => ?_
  cases head with
  | none =>
    exact (h.exprAt .comma).bind fun inner hinner =>
      Legibly.expectSymbol.andThen fun _ => .pure (.grouping hinner)
  | some head =>
    have hbody : Legibly (do
        return Expr.arrow ⟨head.2, head.1, ← Parse.arrowBody fuel head.2⟩) Expr.Printed :=
      (h.arrowBody head.2).bind fun body hbody => .pure (.arrow (hhead head rfl) hbody)
    exact .ite (fun _ => Legibly.noteAt.andThen fun _ => hbody) fun _ => hbody

theorem arrowBody_succ (h : RulesPrint fuel) (arrow : Token) :
    Legibly (Parse.arrowBody (fuel + 1) arrow) PrintedBody := by
  rw [Parse.arrowBody]
  exact Legibly.acceptSymbol.andThen fun braced => .ite (fun _ => h.blockBody false) fun _ =>
    (h.exprAt .assignment).bind fun value hv =>
      .pure (.cons (.return ⟨rfl, rfl⟩ (.some hv)) .nil)

theorem expressionStatement_succ (h : RulesPrint fuel) :
    Legibly (Parse.expressionStatement (fuel + 1)) Stmt.Printed := by
  rw [Parse.expressionStatement]
  exact (h.exprAt .comma).bind fun value hv =>
    Legibly.expectSymbol.andThen fun _ => .pure (.expression hv)

/-- An expression that is left out where a step says so. -/
theorem leftOut (h : RulesPrint fuel) {absent : Parse Bool} (habsent : Legibly absent fun _ => True)
    (level : Level) {P : Option Expr → Prop} (hnone : P none)
    (hsome : ∀ e, e.Printed → P (some e)) :
    Legibly (readUnless absent (Parse.exprAt fuel level)) P :=
  .readUnless habsent (h.exprAt level) hnone hsome

theorem announced (h : RulesPrint fuel) {symbol : Symbol} (level : Level) :
    Legibly (readIf (acceptSymbol symbol) (Parse.exprAt fuel level)) PrintedOptional :=
  .readIf Legibly.acceptSymbol (h.exprAt level) .none fun _ he => .some he

theorem statement_succ (h : RulesPrint fuel) (inLoop : Bool) :
    Legibly (Parse.statement (fuel + 1) inLoop) Stmt.Printed := by
  have hprint (node : Expr → Stmt) (hnode : ∀ e, e.Printed → (node e).Printed) :
      Legibly (do
        let value ← Parse.exprAt fuel .comma
        expectSymbol .semicolon "';' after value"
        return node value) Stmt.Printed :=
    (h.exprAt .comma).bind fun value hv =>
      Legibly.expectSymbol.andThen fun _ => .pure (hnode value hv)
  rw [Parse.statement]
  refine Legibly.get.bind fun s hs => ?_
  cases hnext : s.next? with
  | none => exact h.expressionStatement
  | some t =>
    have ht := hs.next? t hnext
    dsimp only
    split
    · exact Legibly.advance.andThen fun _ => h.forStatement
    · refine Legibly.advance.andThen fun _ => (h.exprAt .comma).bind fun condition hc =>
        (h.statement inLoop).bind fun thenBranch ht =>
          Legibly.accept.andThen fun more => .ite (fun _ => ?_) fun _ => ?_
      · exact (h.statement inLoop).bind fun elseBranch he => .pure (.ifElse hc ht (.some he))
      · exact .pure (.ifElse hc ht .none)
    · exact Legibly.advance.andThen fun _ => (h.exprAt .comma).bind fun condition hc =>
        (h.statement true).bind fun body hb => .pure (.while hc hb)
    · next hkind =>
      exact Legibly.advance.andThen fun _ =>
        (h.leftOut .nextIs .comma .none fun _ => .some).bind fun value hv =>
          Legibly.expectSymbol.andThen fun _ => .pure (.return (ht.keyword hkind) hv)
    · next hkind =>
      exact Legibly.advance.andThen fun _ => jump_legibly (.break (ht.keyword hkind))
    · next hkind =>
      exact Legibly.advance.andThen fun _ => jump_legibly (.continue (ht.keyword hkind))
    · next hkind =>
      exact Legibly.advance.andThen fun _ => (h.exprAt .assignment).bind fun condition hc =>
        (h.announced .comma).bind fun message hm =>
          Legibly.expectSymbol.andThen fun _ => .pure (.assert (ht.keyword hkind) hc hm)
    · exact Legibly.advance.andThen fun _ =>
        (h.blockBody inLoop).bind fun body hb => .pure (.block hb)
    · exact Legibly.advance.andThen fun _ => hprint .print fun _ => .print
    · exact Legibly.advance.andThen fun _ => hprint .println fun _ => .println
    · exact h.expressionStatement

theorem forStatement_succ (h : RulesPrint fuel) :
    Legibly (Parse.forStatement (fuel + 1)) Stmt.Printed := by
  rw [Parse.forStatement]
  have hdeclares : Legibly (do
      if ← accept (·.isKeyword .var) then Parse.varDeclaration fuel
      else Parse.expressionStatement fuel) Stmt.Printed :=
    Legibly.accept.andThen fun _ => .ite (fun _ => h.varDeclaration) fun _ => h.expressionStatement
  have htested : Legibly (do
      let condition ← Parse.exprAt fuel .comma
      expectSymbol .semicolon "';' after loop condition"
      return condition) Expr.Printed :=
    (h.exprAt .comma).bind fun _ hc => Legibly.expectSymbol.andThen fun _ => .pure hc
  have hinitializer : Legibly (readUnless (acceptSymbol .semicolon) _) PrintedInitializer :=
    .readUnless Legibly.acceptSymbol hdeclares .none fun _ => .some
  have hcondition : Legibly (readUnless (acceptSymbol .semicolon) _) PrintedClause :=
    .readUnless Legibly.acceptSymbol htested .none fun _ => .some
  exact hinitializer.bind fun initializer hi => hcondition.bind fun condition hc =>
    (h.leftOut .nextIs .comma .none fun _ => .some).bind fun update hu =>
      Legibly.expectSymbol.andThen fun _ =>
        (h.blockBody true).bind fun body hb => .pure (.for hi hc hu (.block hb))

theorem blockBody_succ (h : RulesPrint fuel) (inLoop : Bool) :
    Legibly (Parse.blockBody (fuel + 1) inLoop) PrintedBody := by
  rw [Parse.blockBody]
  refine Legibly.nextIs.andThen fun closed => Legibly.atEnd.andThen fun ended =>
    .ite (fun _ => Legibly.expectSymbol.andThen fun _ => .pure .nil) fun _ => ?_
  exact (h.declaration inLoop).bind fun first hfirst =>
    (h.blockBody inLoop).bind fun rest hrest => .pure (.cons hfirst hrest)

theorem varDeclaration_succ (h : RulesPrint fuel) :
    Legibly (Parse.varDeclaration (fuel + 1)) Stmt.Printed := by
  rw [Parse.varDeclaration]
  exact Legibly.expectName.bind fun name hname => (h.announced .comma).bind fun initializer hv =>
    Legibly.expectSymbol.andThen fun _ => .pure (.var hname hv)

theorem function_succ (h : RulesPrint fuel) (role : String) :
    Legibly (Parse.function (fuel + 1) role) FunctionDecl.Printed := by
  rw [Parse.function]
  exact Legibly.expectName.bind fun name hname => Legibly.expectSymbol.andThen fun _ =>
    (Legibly.parameters fuel).bind fun params hparams => Legibly.expectSymbol.andThen fun _ =>
      Legibly.expectSymbol.andThen fun _ => (h.blockBody false).bind fun body hb =>
        .pure (.mk hname hparams hb)

theorem declaration_succ (h : RulesPrint fuel) (inLoop : Bool) :
    Legibly (Parse.declaration (fuel + 1) inLoop) Stmt.Printed := by
  rw [Parse.declaration]
  refine Legibly.nextKind?.andThen ?_
  intro kind
  split
  · exact Legibly.advance.andThen fun _ => h.classDeclaration
  · exact Legibly.advance.andThen fun _ =>
      (h.function "function").bind fun decl hd => .pure (.function hd)
  · exact Legibly.advance.andThen fun _ => h.varDeclaration
  · exact Legibly.advance.andThen fun _ => Legibly.expectName.bind fun name hname =>
      Legibly.expectSymbol.andThen fun _ => (h.exprAt .comma).bind fun initializer hv =>
        Legibly.expectSymbol.andThen fun _ => .pure (.const hname hv)
  · exact h.statement inLoop

theorem classDeclaration_succ (h : RulesPrint fuel) :
    Legibly (Parse.classDeclaration (fuel + 1)) Stmt.Printed := by
  rw [Parse.classDeclaration]
  have hname : Legibly (do
      let base ← expectName "base class name after '<'"
      return Expr.variable (← freshId) base) Expr.Printed :=
    Legibly.expectName.bind fun name hname => Legibly.freshId.andThen fun _ =>
      .pure (.variable hname)
  have hbase : Legibly (readIf (acceptSymbol .less) _) PrintedOptional :=
    .readIf Legibly.acceptSymbol hname .none fun _ => .some
  exact Legibly.expectName.bind fun name hname => hbase.bind fun base hb =>
    Legibly.expectSymbol.andThen fun _ => h.members.bind fun ms hms =>
      Legibly.expectSymbol.andThen fun _ =>
        .pure (.class hname hb hms.methods hms.statics hms.getters)

theorem members_succ (h : RulesPrint fuel) :
    Legibly (Parse.members (fuel + 1)) Members.Printed := by
  rw [Parse.members]
  refine Legibly.nextIs.andThen fun closed => Legibly.atEnd.andThen fun ended =>
    .ite (fun _ => .pure .none) fun _ => Legibly.accept.andThen fun isStatic =>
      .ite (fun _ => ?_) fun _ => Legibly.get.bind fun s _ => .ite (fun _ => ?_) fun _ => ?_
  · exact (h.function _).bind fun decl hd =>
      h.members.bind fun others ho => .pure (.addStatic hd ho)
  · exact Legibly.expectName.bind fun name hname => Legibly.expectSymbol.andThen fun _ =>
      (h.blockBody false).bind fun body hb => h.members.bind fun others ho =>
        .pure (.addGetter (.mk hname .nil hb) ho)
  · exact (h.function _).bind fun decl hd =>
      h.members.bind fun others ho => .pure (.addMethod hd ho)

end RulesPrint

theorem rulesPrint (fuel : Nat) : RulesPrint fuel := by
  induction fuel with
  | zero => exact .zero
  | succ fuel h =>
    exact
      { exprAt := h.exprAt_succ
        operands := h.operands_succ
        postfixes := h.postfixes_succ
        someArguments := h.someArguments_succ
        primary := h.primary_succ
        parenthesised := h.parenthesised_succ
        arrowBody := h.arrowBody_succ
        statement := h.statement_succ
        expressionStatement := h.expressionStatement_succ
        forStatement := h.forStatement_succ
        blockBody := h.blockBody_succ
        declaration := h.declaration_succ
        varDeclaration := h.varDeclaration_succ
        function := h.function_succ
        classDeclaration := h.classDeclaration_succ
        members := h.members_succ }

/-! ## Programs -/

theorem expressionAgain_legibly (fuel : Nat) : Legibly (expressionAgain fuel) Stmt.Printed :=
  ((rulesPrint fuel).exprAt .comma).bind fun _ hv =>
    Legibly.acceptSymbol.discard.andThen fun _ => .pure (.println hv)

theorem interactiveDeclaration_legibly (fuel : Nat) :
    Legibly (interactiveDeclaration fuel) Stmt.Printed := fun s =>
  .assuming fun hs => .interactiveDeclaration ((rulesPrint fuel).declaration false s)
    (fun _ _ => hs) (fun failed _ => expressionAgain_legibly fuel (again s failed))
    fun _ _ hfailed _ => hfailed

theorem item_legibly (interactive : Bool) (fuel : Nat) :
    Legibly (item interactive fuel) Stmt.Printed :=
  .ite (fun _ => interactiveDeclaration_legibly fuel) fun _ => (rulesPrint fuel).declaration false

theorem printed_declarations {one : Parse Stmt} (hone : Legibly one Stmt.Printed) (count : Nat)
    (s : ParseState) (hs : s.Legible) : PrintedBody (declarations one count s).1 := by
  induction count generalizing s with
  | zero => exact .nil
  | succ count ih =>
    unfold declarations
    split
    · exact .nil
    · split
      · next stmt after heq =>
        obtain ⟨hafter, hstmt⟩ := (hone s).ok hs heq
        exact .cons hstmt (ih after hafter)
      · next error after heq =>
        obtain ⟨hafter, -⟩ := (hone s).error hs heq
        exact ih _ (ParseState.Legible.skip hafter error)
      · exact .nil

variable {interactive : Bool} {firstId : NodeId} {tokens : List Token}

/-- A program that is read off lexemes is printed as forms. -/
theorem printed_program {statements : List Stmt} (htokens : ∀ t ∈ tokens, t.Legible)
    (h : (program interactive firstId tokens).statements = some statements) :
    PrintedBody statements := by
  have hprinted := printed_declarations (item_legibly interactive (depthBound tokens))
    tokens.length { last := none, rest := tokens, nextId := firstId } htokens
  unfold program at h
  dsimp only at h
  split at h
  · cases h
  · cases h
    exact hprinted

end Parse

/-! ## The texts of programs -/

/-- Two programs have the same texts exactly if they are the same trees, places and numbers apart,
once the names are put in that a text does not tell from an infinite literal or from a clause that
is left out. -/
theorem texts_eq_iff_alike_shown {source source' : String} {interactive interactive' : Bool}
    {firstId firstId' : NodeId} {program program' : List Stmt}
    (h : (Parse.program interactive firstId (scan source).1).statements = some program)
    (h' : (Parse.program interactive' firstId' (scan source').1).statements = some program') :
    program.map Stmt.render = program'.map Stmt.render ↔
      AlikeBody .anywhere (shownBody program) (shownBody program') := by
  obtain ⟨fs, hfs⟩ := Parse.printed_program (legible_scan source) h
  obtain ⟨gs, hgs⟩ := Parse.printed_program (legible_scan source') h'
  rw [← texts_shown program, ← texts_shown program']
  exact ⟨hfs.alike_of_texts hgs, AlikeBody.texts_eq⟩

/-- Blanks are not in the tree. -/
theorem alike_shown_of_blanks : ∃ program program',
    (Parse.program false 0 (scan "x = -y;").1).statements = some program ∧
      (Parse.program true 7 (scan "x=\n- y ;").1).statements = some program' ∧
      AlikeBody .anywhere (shownBody program) (shownBody program') := by
  obtain ⟨x, minus, y, h, hx, hminus, hy⟩ : ∃ x minus y,
      (Parse.program false 0 (scan "x = -y;").1).statements =
        some [.expression (.assign 3 x (.unary minus (.variable 1 y)))] ∧
      x.lexeme = "x" ∧ minus.lexeme = "-" ∧ y.lexeme = "y" := ⟨_, _, _, rfl, rfl, rfl, rfl⟩
  obtain ⟨x', minus', y', h', hx', hminus', hy'⟩ : ∃ x minus y,
      (Parse.program true 7 (scan "x=\n- y ;").1).statements =
        some [.expression (.assign 10 x (.unary minus (.variable 8 y)))] ∧
      x.lexeme = "x" ∧ minus.lexeme = "-" ∧ y.lexeme = "y" := ⟨_, _, _, rfl, rfl, rfl, rfl⟩
  refine ⟨_, _, h, h', (texts_eq_iff_alike_shown h h').mp ?_⟩
  simp only [List.map_cons, List.map_nil, Stmt.render, Expr.render, hx, hx', hminus, hminus', hy,
    hy']

/-- Two sources of different trees with the same texts. -/
def Confused (source source' : String) : Prop :=
  ∃ program program', (Parse.program false 0 (scan source).1).statements = some program ∧
    (Parse.program false 0 (scan source').1).statements = some program' ∧
    program.map Stmt.render = program'.map Stmt.render ∧ ¬AlikeBody .anywhere program program'

/-- A literal that is too large for a float is printed like a name, and so is a condition that a
loop leaves out. -/
theorem confused_with_names :
    Confused "1e999;" "inf;" ∧ Confused "for ;; \x7b\x7d" "for ; _; \x7b\x7d" := by
  obtain ⟨x, hx, htext⟩ : ∃ x, (Parse.program false 0 (scan "1e999;").1).statements =
      some [.expression (.literal (.number (.float x)))] ∧
      Literal.render (.number (.float x)) = "inf" := ⟨_, rfl, by decide +kernel⟩
  obtain ⟨inf, hinf, hname⟩ : ∃ t, (Parse.program false 0 (scan "inf;").1).statements =
      some [.expression (.variable 0 t)] ∧ t.lexeme = "inf" := ⟨_, rfl, rfl⟩
  obtain ⟨blank, hblank, hname'⟩ : ∃ t,
      (Parse.program false 0 (scan "for ; _; \x7b\x7d").1).statements =
        some [.for none (some (.variable 0 t)) none (.block [])] ∧ t.lexeme = "_" := ⟨_, rfl, rfl⟩
  refine ⟨⟨_, _, hx, hinf, ?_, fun h => ?_⟩, ⟨_, _, rfl, hblank, ?_, fun h => ?_⟩⟩
  · simp only [List.map_cons, List.map_nil, Stmt.render, Expr.render, htext, hname]
  · obtain - | ⟨hs, -⟩ := h
    cases hs with
    | expression hvalue => cases hvalue
  · simp only [List.map_cons, List.map_nil, Stmt.render, printClause, Expr.render, hname']
  · obtain - | ⟨hs, -⟩ := h
    cases hs with
    | «for» hinitializer hcondition hupdate hbody => cases hcondition

end LoxLang
