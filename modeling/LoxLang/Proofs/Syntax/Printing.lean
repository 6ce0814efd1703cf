import LoxLang.Proofs.Syntax.Shown

/-!
# Printed trees

The form that a tree is printed as (`Expr.Prints`, `Stmt.Prints`), if its tokens are what the
grammar asks for. The text of the tree is that of the form (`Stmt.Prints.text`), and the form
determines the tree, its places and numbers apart (`Stmt.Prints.alike`). So do the texts of a whole
program (`PrintsBody.alike_of_texts`).
-/

namespace LoxLang

/-- The token of a name. -/
abbrev Token.Names (t : Token) (i : Identifier) : Prop :=
  t.Reads (.identifier i)

mutual

inductive Expr.Prints : Expr → Form → Prop
  | number {value : Numeral} (unsigned : value.IsUnsigned) (finite : value.isInfinite = false) :
    Expr.Prints (.literal (.number value)) (.leaf (.number value unsigned finite))
  | string (contents : Contents) :
    Expr.Prints (.literal (.string (String.ofList contents.text))) (.leaf (.string contents))
  | true : Expr.Prints (.literal (.bool true)) (.leaf (.keyword .true))
  | false : Expr.Prints (.literal (.bool false)) (.leaf (.keyword .false))
  | nil : Expr.Prints (.literal .nil) (.leaf (.keyword .nil))
  | grouping {inner : Expr} {f : Form} (hinner : Expr.Prints inner f) :
    Expr.Prints (.grouping inner) (.node .group rfl [f])
  | unarySymbol {operator : Token} {right : Expr} {s : Symbol} {f : Form}
    {hmark : (Mark.symbol s).hasParams = false} (hoperator : operator.Reads (.symbol s))
    (hright : Expr.Prints right f) : Expr.Prints (.unary operator right) (.node (.symbol s) hmark [f])
  | unaryKeyword {operator : Token} {right : Expr} {k : Keyword} {f : Form}
    {hmark : (Mark.keyword k).hasParams = false} (hoperator : operator.Reads (.keyword k))
    (hsuper : k ≠ .super) (hright : Expr.Prints right f) :
    Expr.Prints (.unary operator right) (.node (.keyword k) hmark [f])
  | binary {left right : Expr} {operator : Token} {s : Symbol} {f g : Form}
    {hmark : (Mark.symbol s).hasParams = false} (hoperator : operator.Reads (.symbol s))
    (hequal : s ≠ .equal) (hdot : s ≠ .dot) (hleft : Expr.Prints left f) (hright : Expr.Prints right g) :
    Expr.Prints (.binary left operator right) (.node (.symbol s) hmark [f, g])
  | logical {left right : Expr} {operator : Token} {k : Keyword} {f g : Form}
    {hmark : (Mark.keyword k).hasParams = false} (hoperator : operator.Reads (.keyword k))
    (hleft : Expr.Prints left f) (hright : Expr.Prints right g) :
    Expr.Prints (.logical left operator right) (.node (.keyword k) hmark [f, g])
  | ternary {condition thenBranch elseBranch : Expr} {question : Token} {f g k : Form}
    (hcondition : Expr.Prints condition f) (hquestion : question.Reads (.symbol .questionMark))
    (hthen : Expr.Prints thenBranch g) (helse : Expr.Prints elseBranch k) :
    Expr.Prints (.ternary condition question thenBranch elseBranch) (.node .choice rfl [f, g, k])
  | «variable» {id : NodeId} {name : Token} {i : Identifier} (hname : name.Names i) :
    Expr.Prints (.variable id name) (.leaf (.name i))
  | assign {id : NodeId} {name : Token} {value : Expr} {i : Identifier} {f : Form}
    (hname : name.Names i) (hvalue : Expr.Prints value f) :
    Expr.Prints (.assign id name value) (.node (.symbol .equal) rfl [.leaf (.name i), f])
  | call {callee : Expr} {paren : Token} {arguments : List Expr} {f : Form} {fs : List Form}
    (hcallee : Expr.Prints callee f) (hparen : paren.Reads (.symbol .rightParen))
    (harguments : PrintsEach arguments fs) :
    Expr.Prints (.call callee paren arguments) (.node .call rfl (f :: fs))
  | get {object : Expr} {name : Token} {i : Identifier} {f : Form} (hobject : Expr.Prints object f)
    (hname : name.Names i) :
    Expr.Prints (.get object name) (.node (.symbol .dot) rfl [f, .leaf (.name i)])
  | set {object value : Expr} {name : Token} {i : Identifier} {f g : Form}
    (hobject : Expr.Prints object f) (hname : name.Names i) (hvalue : Expr.Prints value g) :
    Expr.Prints (.set object name value) (.node .set rfl [f, .leaf (.name i), g])
  | this {id : NodeId} {keyword : Token} (hkeyword : keyword.Reads (.keyword .this)) :
    Expr.Prints (.this id keyword) (.leaf (.keyword .this))
  | super {id : NodeId} {keyword method : Token} {i : Identifier}
    (hkeyword : keyword.Reads (.keyword .super)) (hmethod : method.Names i) :
    Expr.Prints (.super id keyword method) (.node (.keyword .super) rfl [.leaf (.name i)])
  | arrow {arrow : Token} {params : List Token} {body : List Stmt} {is : List Identifier}
    {fs : List Form} (harrow : arrow.Reads (.symbol .arrow))
    (hparams : List.Forall₂ Token.Names params is) (hbody : PrintsBody body fs) :
    Expr.Prints (.arrow ⟨arrow, params, body⟩) (.function (.symbol .arrow) rfl none is fs)

inductive PrintsEach : List Expr → List Form → Prop
  | nil : PrintsEach [] []
  | cons {e : Expr} {es : List Expr} {f : Form} {fs : List Form} (h : Expr.Prints e f)
    (hes : PrintsEach es fs) : PrintsEach (e :: es) (f :: fs)

inductive PrintsOptional : Option Expr → List Form → Prop
  | none : PrintsOptional none []
  | some {e : Expr} {f : Form} (h : Expr.Prints e f) : PrintsOptional (some e) [f]

inductive Stmt.Prints : Stmt → Form → Prop
  | expression {value : Expr} {f : Form} (hvalue : Expr.Prints value f) :
    Stmt.Prints (.expression value) (.node (.symbol .semicolon) rfl [f])
  | print {value : Expr} {f : Form} (hvalue : Expr.Prints value f) :
    Stmt.Prints (.print value) (.node (.keyword .print) rfl [f])
  | println {value : Expr} {f : Form} (hvalue : Expr.Prints value f) :
    Stmt.Prints (.println value) (.node (.keyword .println) rfl [f])
  | var {name : Token} {initializer : Option Expr} {i : Identifier} {fs : List Form}
    (hname : name.Names i) (hinitializer : PrintsOptional initializer fs) :
    Stmt.Prints (.var name initializer) (.node (.keyword .var) rfl (.leaf (.name i) :: fs))
  | const {name : Token} {initializer : Expr} {i : Identifier} {f : Form}
    (hname : name.Names i) (hinitializer : Expr.Prints initializer f) :
    Stmt.Prints (.const name initializer) (.node (.keyword .const) rfl [.leaf (.name i), f])
  | block {body : List Stmt} {fs : List Form} (hbody : PrintsBody body fs) :
    Stmt.Prints (.block body) (.block fs)
  | ifElse {condition : Expr} {thenBranch : Stmt} {elseBranch : Option Stmt} {f g : Form}
    {fs : List Form} (hcondition : Expr.Prints condition f) (hthen : Stmt.Prints thenBranch g)
    (helse : PrintsBranch elseBranch fs) :
    Stmt.Prints (.ifElse condition thenBranch elseBranch) (.node (.keyword .if) rfl (f :: g :: fs))
  | while {condition : Expr} {body : Stmt} {f g : Form} (hcondition : Expr.Prints condition f)
    (hbody : Stmt.Prints body g) : Stmt.Prints (.while condition body) (.node (.keyword .while) rfl [f, g])
  | for {initializer : Option Stmt} {condition update : Expr} {body : Stmt} {f g k b : Form}
    (hinitializer : PrintsInitializer initializer f) (hcondition : Expr.Prints condition g)
    (hupdate : Expr.Prints update k) (hbody : Stmt.Prints body b) :
    Stmt.Prints (.for initializer (some condition) (some update) body)
      (.node (.keyword .for) rfl [f, g, k, b])
  | break {keyword : Token} (hkeyword : keyword.Reads (.keyword .break)) :
    Stmt.Prints (.break keyword) (.node (.keyword .break) rfl [])
  | continue {keyword : Token} (hkeyword : keyword.Reads (.keyword .continue)) :
    Stmt.Prints (.continue keyword) (.node (.keyword .continue) rfl [])
  | assert {keyword : Token} {condition : Expr} {message : Option Expr} {f : Form}
    {fs : List Form} (hkeyword : keyword.Reads (.keyword .assert))
    (hcondition : Expr.Prints condition f) (hmessage : PrintsOptional message fs) :
    Stmt.Prints (.assert keyword condition message) (.node (.keyword .assert) rfl (f :: fs))
  | function {name : Token} {params : List Token} {body : List Stmt} {i : Identifier}
    {is : List Identifier} {fs : List Form} (hname : name.Names i)
    (hparams : List.Forall₂ Token.Names params is) (hbody : PrintsBody body fs) :
    Stmt.Prints (.function ⟨name, params, body⟩)
      (.function (.keyword .fun) rfl (some i) is fs)
  | return {keyword : Token} {value : Option Expr} {fs : List Form}
    (hkeyword : keyword.Reads (.keyword .return)) (hvalue : PrintsOptional value fs) :
    Stmt.Prints (.return keyword value) (.node (.keyword .return) rfl fs)
  | «class» {name : Token} {base : Option Expr} {methods statics getters : List FunctionDecl}
    {i : Identifier} {bs ms ss gs fs : List Form} (hname : name.Names i) (hbase : PrintsBase base bs)
    (hmethods : PrintsFunctions .method methods ms) (hstatics : PrintsFunctions .static statics ss)
    (hgetters : PrintsFunctions .getter getters gs) (hparts : fs = bs ++ (ms ++ (ss ++ gs))) :
    Stmt.Prints (.class ⟨name, base, methods, statics, getters⟩)
      (.node (.keyword .class) rfl (.leaf (.name i) :: fs))

inductive PrintsBranch : Option Stmt → List Form → Prop
  | none : PrintsBranch none []
  | some {s : Stmt} {f : Form} (h : Stmt.Prints s f) : PrintsBranch (some s) [f]

/-- An initializer that is left out is printed as a name, which no statement is. -/
inductive PrintsInitializer : Option Stmt → Form → Prop
  | none {i : Identifier} (hname : i.text = ['_']) :
    PrintsInitializer none (.leaf (.name i))
  | some {s : Stmt} {f : Form} (h : Stmt.Prints s f) : PrintsInitializer (some s) f

inductive PrintsBody : List Stmt → List Form → Prop
  | nil : PrintsBody [] []
  | cons {s : Stmt} {ss : List Stmt} {f : Form} {fs : List Form} (h : Stmt.Prints s f)
    (hss : PrintsBody ss fs) : PrintsBody (s :: ss) (f :: fs)

inductive FunctionDecl.Prints : Mark → FunctionDecl → Form → Prop
  | mk {mark : Mark} {h : mark.hasParams = true} {name : Token} {params : List Token}
    {body : List Stmt} {i : Identifier} {is : List Identifier} {fs : List Form}
    (hname : name.Names i) (hparams : List.Forall₂ Token.Names params is)
    (hbody : PrintsBody body fs) :
    FunctionDecl.Prints mark ⟨name, params, body⟩ (.function mark h (some i) is fs)

inductive PrintsFunctions : Mark → List FunctionDecl → List Form → Prop
  | nil {mark : Mark} : PrintsFunctions mark [] []
  | cons {mark : Mark} {d : FunctionDecl} {ds : List FunctionDecl} {f : Form} {fs : List Form}
    (h : FunctionDecl.Prints mark d f) (hds : PrintsFunctions mark ds fs) :
    PrintsFunctions mark (d :: ds) (f :: fs)

inductive PrintsBase : Option Expr → List Form → Prop
  | none : PrintsBase none []
  | some {e : Expr} {f : Form} (h : Expr.Prints e f) : PrintsBase (some e) [.leaf .less, f]

end

/-! ## Texts -/

theorem toList_params {params : List Token} {is : List Identifier}
    (h : List.Forall₂ Token.Names params is) :
    '(' :: ((printParams params).toList ++ [')']) = paramsText is := by
  have hnames {p : Token} {ps : List Token} {i : Identifier} {is : List Identifier}
      (hp : p.Names i) (hps : List.Forall₂ Token.Names ps is) :
      (printParams (p :: ps)).toList = i.text ++ namesText is := by
    induction hps generalizing p i with
    | nil => simp [printParams, namesText, hp.text, Word.text, Identifier.text]
    | cons hq hqs ih =>
      have hbehind := ih hq
      simp only [printParams, List.map_cons, String.intercalate_cons_cons, String.toList_append]
        at hbehind ⊢
      rw [hbehind, hp.text]
      simp [Word.text, Identifier.text, namesText]
  cases h with
  | nil => rfl
  | cons hp hps =>
    rw [hnames hp hps]
    rfl

theorem Token.Names.text {t : Token} {i : Identifier} (h : t.Names i) : t.lexeme.toList = i.text :=
  Token.Reads.text h

theorem textEach_append (fs gs : List Form) : textEach (fs ++ gs) = textEach fs ++ textEach gs := by
  induction fs with
  | nil => simp [textEach]
  | cons f fs ih => simp [textEach, ih]

mutual

theorem Expr.Prints.text {e : Expr} {f : Form} : e.Prints f → e.render.toList = f.text
  | .number _ _ | .string _ => by
    simp [Expr.render, Literal.render, Form.text, Leaf.text]
  | .true | .false | .nil => by
    simp [Expr.render, Literal.render, Form.text, Leaf.text, Keyword.text]
  | .grouping hinner => by
    simp [Expr.render, Form.text, textEach, Mark.text, hinner.text]
  | .unarySymbol hoperator hright => by
    simp [Expr.render, Form.text, textEach, Mark.text, hoperator.text, Word.text, hright.text]
  | .unaryKeyword hoperator _ hright => by
    simp [Expr.render, Form.text, textEach, Mark.text, hoperator.text, Word.text, hright.text]
  | .binary hoperator _ _ hleft hright => by
    simp [Expr.render, Form.text, textEach, Mark.text, hoperator.text, Word.text, hleft.text,
      hright.text]
  | .logical hoperator hleft hright => by
    simp [Expr.render, Form.text, textEach, Mark.text, hoperator.text, Word.text, hleft.text,
      hright.text]
  | .ternary hcondition _ hthen helse => by
    simp [Expr.render, Form.text, textEach, Mark.text, hcondition.text, hthen.text, helse.text]
  | .variable hname => by
    simp [Expr.render, Form.text, Leaf.text, hname.text]
  | .assign hname hvalue => by
    simp [Expr.render, Form.text, textEach, Mark.text, Symbol.text, Leaf.text, hname.text,
      hvalue.text]
  | .call hcallee _ harguments => by
    simp [Expr.render, Form.text, textEach, Mark.text, hcallee.text, harguments.text]
  | .get hobject hname => by
    simp [Expr.render, Form.text, textEach, Mark.text, Symbol.text, Leaf.text, hobject.text,
      hname.text]
  | .set hobject hname hvalue => by
    simp [Expr.render, Form.text, textEach, Mark.text, Leaf.text, hobject.text, hname.text,
      hvalue.text]
  | .this _ => by
    simp [Expr.render, Form.text, Leaf.text, Keyword.text]
  | .super _ hmethod => by
    simp [Expr.render, Form.text, textEach, Mark.text, Keyword.text, Leaf.text, hmethod.text]
  | .arrow _ hparams hbody => by
    simp [Expr.render, ArrowDecl.render, printBlock, Form.text, Mark.text, Symbol.text, namesText,
      ← toList_params hparams, hbody.text]

theorem PrintsEach.text {es : List Expr} {fs : List Form} :
    PrintsEach es fs → (printEach es).toList = textEach fs
  | .nil => by
    simp [printEach, textEach]
  | .cons h hes => by
    simp [printEach, textEach, h.text, hes.text]

theorem PrintsOptional.text {e : Option Expr} {fs : List Form} :
    PrintsOptional e fs → (printOptional e).toList = textEach fs
  | .none => by
    simp [printOptional, textEach]
  | .some h => by
    simp [printOptional, textEach, h.text]

theorem Stmt.Prints.text {s : Stmt} {f : Form} : s.Prints f → s.render.toList = f.text
  | .expression hvalue => by
    simp [Stmt.render, Form.text, textEach, Mark.text, Symbol.text, hvalue.text]
  | .print hvalue | .println hvalue => by
    simp [Stmt.render, Form.text, textEach, Mark.text, Keyword.text, hvalue.text]
  | .var hname hinitializer => by
    simp [Stmt.render, Form.text, textEach, Mark.text, Keyword.text, Leaf.text, hname.text,
      hinitializer.text]
  | .const hname hinitializer => by
    simp [Stmt.render, Form.text, textEach, Mark.text, Keyword.text, Leaf.text, hname.text,
      hinitializer.text]
  | .block hbody => by
    simp [Stmt.render, printBlock, Form.text, hbody.text]
  | .ifElse hcondition hthen helse => by
    simp [Stmt.render, Form.text, textEach, Mark.text, Keyword.text, hcondition.text, hthen.text,
      helse.text]
  | .while hcondition hbody => by
    simp [Stmt.render, Form.text, textEach, Mark.text, Keyword.text, hcondition.text, hbody.text]
  | .for hinitializer hcondition hupdate hbody => by
    simp [Stmt.render, printClause, Form.text, textEach, Mark.text, Keyword.text,
      hinitializer.text, hcondition.text, hupdate.text, hbody.text]
  | .break _ | .continue _ => by
    simp [Stmt.render, Form.text, textEach, Mark.text, Keyword.text]
  | .assert _ hcondition hmessage => by
    simp [Stmt.render, Form.text, textEach, Mark.text, Keyword.text, hcondition.text,
      hmessage.text]
  | .function hname hparams hbody => by
    simp [Stmt.render, FunctionDecl.render, printBlock, Form.text, Mark.text, Keyword.text,
      namesText, ← toList_params hparams, hname.text, hbody.text]
  | .return _ hvalue => by
    simp [Stmt.render, Form.text, Mark.text, Keyword.text, hvalue.text]
  | .class hname hbase hmethods hstatics hgetters hparts => by
    simp only [hparts, Form.text, textEach, textEach_append, ← hbase.text]
    simp [Stmt.render, ClassDecl.render, Mark.text, Keyword.text, Leaf.text, hname.text,
      ← hmethods.text, ← hstatics.text, ← hgetters.text]

theorem PrintsBranch.text {s : Option Stmt} {fs : List Form} :
    PrintsBranch s fs → (printElse s).toList = textEach fs
  | .none => by
    simp [printElse, textEach]
  | .some h => by
    simp [printElse, textEach, h.text]

theorem PrintsInitializer.text {s : Option Stmt} {f : Form} :
    PrintsInitializer s f → (printInitializer s).toList = f.text
  | .none hname => by
    simp [printInitializer, Form.text, Leaf.text, hname]
  | .some h => by
    simp [printInitializer, h.text]

theorem PrintsBody.text {ss : List Stmt} {fs : List Form} :
    PrintsBody ss fs → (printStatements ss).toList = textEach fs
  | .nil => by
    simp [printStatements, textEach]
  | .cons h hss => by
    simp [printStatements, textEach, h.text, hss.text]

theorem FunctionDecl.Prints.text {mark : Mark} {d : FunctionDecl} {f : Form} :
    FunctionDecl.Prints mark d f → (d.render mark.text).toList = f.text
  | .mk hname hparams hbody => by
    simp [FunctionDecl.render, printBlock, Form.text, namesText, ← toList_params hparams,
      hname.text, hbody.text]

theorem PrintsFunctions.text {mark : Mark} {ds : List FunctionDecl} {fs : List Form} :
    PrintsFunctions mark ds fs → (printFunctions mark.text ds).toList = textEach fs
  | .nil => by
    simp [printFunctions, textEach]
  | .cons h hds => by
    simp [printFunctions, textEach, h.text, hds.text]

theorem PrintsBase.text {e : Option Expr} {fs : List Form} :
    PrintsBase e fs → (printBase e).toList = textEach fs
  | .none => by
    simp [printBase, textEach]
  | .some h => by
    simp [printBase, textEach, Form.text, Leaf.text, h.text]

end

/-! ## Forms tell trees apart -/

/-- Nodes have any numbers, and tokens may stand in different places. -/
def Likeness.anywhere : Likeness := .placeless fun _ _ => True

theorem Token.Reads.alike {t t' : Token} {w : Word} (h : t.Reads w) (h' : t'.Reads w) :
    Likeness.anywhere.token t t' :=
  ⟨h.kind.trans h'.kind.symm, String.toList_injective (h.text.trans h'.text.symm)⟩

theorem alike_params {params params' : List Token} {is : List Identifier}
    (h : List.Forall₂ Token.Names params is) (h' : List.Forall₂ Token.Names params' is) :
    List.Forall₂ Likeness.anywhere.token params params' := by
  induction h generalizing params' with
  | nil =>
    cases h'
    exact .nil
  | cons hp _ ih =>
    cases h' with
    | cons hp' hps' => exact .cons (hp.alike hp') (ih hps')

/-- The word of a form that has parameters. -/
def Form.role? : Form → Option Mark
  | .function mark _ _ _ _ => some mark
  | _ => none

theorem PrintsFunctions.role {mark : Mark} {ds : List FunctionDecl} {fs : List Form}
    (h : PrintsFunctions mark ds fs) : ∀ f ∈ fs, f.role? = some mark := by
  induction ds generalizing fs with
  | nil =>
    cases h
    exact fun _ hf => by cases hf
  | cons d ds ih =>
    obtain - | ⟨hd, hds⟩ := h
    refine List.forall_mem_cons.mpr ⟨?_, ih hds⟩
    cases hd
    rfl

/-- No statement is printed as a name. -/
theorem Stmt.Prints.ne_leaf {s : Stmt} {leaf : Leaf} : ¬s.Prints (.leaf leaf) := by
  intro h
  cases h

theorem PrintsInitializer.eq_none {s : Option Stmt} {leaf : Leaf}
    (h : PrintsInitializer s (.leaf leaf)) : s = Option.none := by
  cases h with
  | none => rfl
  | some h => exact absurd h Stmt.Prints.ne_leaf

theorem PrintsInitializer.eq_some {s : Stmt} {s' : Option Stmt} {f : Form}
    (h' : PrintsInitializer s' f) (h : s.Prints f) : ∃ s, s' = Option.some s ∧ s.Prints f := by
  cases h' with
  | none => exact absurd h Stmt.Prints.ne_leaf
  | some h' => exact ⟨_, rfl, h'⟩

/-- Lists that go on behind all forms of a kind. -/
theorem append_inj_of_forall {p : Form → Prop} {ms ms' rest rest' : List Form}
    (hms : ∀ f ∈ ms, p f) (hms' : ∀ f ∈ ms', p f) (hrest : ∀ f ∈ rest.head?, ¬p f)
    (hrest' : ∀ f ∈ rest'.head?, ¬p f) (h : ms ++ rest = ms' ++ rest') :
    ms = ms' ∧ rest = rest' := by
  induction ms generalizing ms' with
  | nil =>
    cases ms' with
    | nil => exact ⟨rfl, h⟩
    | cons f ms' =>
      rw [List.nil_append] at h
      subst h
      exact absurd (hms' f List.mem_cons_self) (hrest f rfl)
  | cons f ms ih =>
    cases ms' with
    | nil =>
      rw [List.nil_append] at h
      subst h
      exact absurd (hms f List.mem_cons_self) (hrest' f rfl)
    | cons f' ms' =>
      obtain ⟨rfl, hbehind⟩ := List.cons_eq_cons.mp h
      obtain ⟨rfl, hrest⟩ := ih (fun g hg => hms g (List.mem_cons_of_mem _ hg))
        (fun g hg => hms' g (List.mem_cons_of_mem _ hg)) hbehind
      exact ⟨rfl, hrest⟩

/-- A base stands in front of functions. -/
theorem PrintsBase.append_inj {e e' : Option Expr} {bs bs' rest rest' : List Form}
    (hbase : PrintsBase e bs) (hbase' : PrintsBase e' bs')
    (hrest : ∀ f ∈ rest, f.role?.isSome) (hrest' : ∀ f ∈ rest', f.role?.isSome)
    (h : bs ++ rest = bs' ++ rest') : bs = bs' ∧ rest = rest' := by
  cases hbase with
  | none =>
    cases hbase' with
    | none => exact ⟨rfl, h⟩
    | some =>
      rw [List.nil_append] at h
      cases hrest (.leaf .less) (h ▸ List.mem_cons_self)
  | some =>
    cases hbase' with
    | none =>
      rw [List.nil_append] at h
      cases hrest' (.leaf .less) (h ▸ List.mem_cons_self)
    | some =>
      simp only [List.cons_append, List.nil_append, List.cons.injEq, true_and] at h
      exact ⟨by rw [h.1], h.2⟩

/-- The parts of a class are told apart. -/
theorem parts_inj {e e' : Option Expr} {methods methods' statics statics' getters getters' :
    List FunctionDecl} {bs bs' ms ms' ss ss' gs gs' : List Form} (hbase : PrintsBase e bs)
    (hmethods : PrintsFunctions .method methods ms) (hstatics : PrintsFunctions .static statics ss)
    (hgetters : PrintsFunctions .getter getters gs) (hbase' : PrintsBase e' bs')
    (hmethods' : PrintsFunctions .method methods' ms')
    (hstatics' : PrintsFunctions .static statics' ss')
    (hgetters' : PrintsFunctions .getter getters' gs')
    (h : bs ++ (ms ++ (ss ++ gs)) = bs' ++ (ms' ++ (ss' ++ gs'))) :
    bs = bs' ∧ ms = ms' ∧ ss = ss' ∧ gs = gs' := by
  have hroles {ds ds' ds'' : List FunctionDecl} {ms ss gs : List Form}
      (hmethods : PrintsFunctions .method ds ms) (hstatics : PrintsFunctions .static ds' ss)
      (hgetters : PrintsFunctions .getter ds'' gs) :
      (∀ f ∈ ms ++ (ss ++ gs), f.role?.isSome) ∧
        (∀ f ∈ (ss ++ gs).head?, f.role? ≠ some .method) ∧
          ∀ f ∈ gs.head?, f.role? ≠ some .static := by
    refine ⟨fun f hf => ?_, fun f hf => ?_, fun f hf => ?_⟩
    · simp only [List.mem_append] at hf
      rcases hf with hf | hf | hf
      · simp [hmethods.role f hf]
      · simp [hstatics.role f hf]
      · simp [hgetters.role f hf]
    · rcases List.mem_append.mp (List.mem_of_mem_head? hf) with hf | hf
      · simp [hstatics.role f hf]
      · simp [hgetters.role f hf]
    · simp [hgetters.role f (List.mem_of_mem_head? hf)]
  obtain ⟨hall, hbehind, hlast⟩ := hroles hmethods hstatics hgetters
  obtain ⟨hall', hbehind', hlast'⟩ := hroles hmethods' hstatics' hgetters'
  obtain ⟨hbs, h⟩ := hbase.append_inj hbase' hall hall' h
  obtain ⟨hms, h⟩ := append_inj_of_forall hmethods.role hmethods'.role hbehind hbehind' h
  obtain ⟨hss, hgs⟩ := append_inj_of_forall hstatics.role hstatics'.role hlast hlast' h
  exact ⟨hbs, hms, hss, hgs⟩

mutual

theorem Expr.Prints.alike {e e' : Expr} {f : Form} :
    e.Prints f → e'.Prints f → Expr.Alike .anywhere e e'
  | .number _ _, .number _ _ => .literal _
  | .string _, .string _ => .literal _
  | .true, .true => .literal _
  | .false, .false => .literal _
  | .nil, .nil => .literal _
  | .grouping hinner, .grouping hinner' => .grouping (hinner.alike hinner')
  | .unarySymbol hoperator hright, .unarySymbol hoperator' hright' =>
    .unary (hoperator.alike hoperator') (hright.alike hright')
  | .unaryKeyword hoperator _ hright, .unaryKeyword hoperator' _ hright' =>
    .unary (hoperator.alike hoperator') (hright.alike hright')
  | .unaryKeyword _ hsuper _, .super _ _ => absurd rfl hsuper
  | .super _ _, .unaryKeyword _ hsuper _ => absurd rfl hsuper
  | .binary hoperator _ _ hleft hright, .binary hoperator' _ _ hleft' hright' =>
    .binary (hleft.alike hleft') (hoperator.alike hoperator') (hright.alike hright')
  | .binary _ hequal _ _ _, .assign _ _ => absurd rfl hequal
  | .assign _ _, .binary _ hequal _ _ _ => absurd rfl hequal
  | .binary _ _ hdot _ _, .get _ _ => absurd rfl hdot
  | .get _ _, .binary _ _ hdot _ _ => absurd rfl hdot
  | .logical hoperator hleft hright, .logical hoperator' hleft' hright' =>
    .logical (hleft.alike hleft') (hoperator.alike hoperator') (hright.alike hright')
  | .ternary hcondition hquestion hthen helse, .ternary hcondition' hquestion' hthen' helse' =>
    .ternary (hcondition.alike hcondition') (hquestion.alike hquestion') (hthen.alike hthen')
      (helse.alike helse')
  | .variable hname, .variable hname' => .variable trivial (hname.alike hname')
  | .assign hname hvalue, .assign hname' hvalue' =>
    .assign trivial (hname.alike hname') (hvalue.alike hvalue')
  | .call hcallee hparen harguments, .call hcallee' hparen' harguments' =>
    .call (hcallee.alike hcallee') (hparen.alike hparen') (harguments.alike harguments')
  | .get hobject hname, .get hobject' hname' => .get (hobject.alike hobject') (hname.alike hname')
  | .set hobject hname hvalue, .set hobject' hname' hvalue' =>
    .set (hobject.alike hobject') (hname.alike hname') (hvalue.alike hvalue')
  | .this hkeyword, .this hkeyword' => .this trivial (hkeyword.alike hkeyword')
  | .super hkeyword hmethod, .super hkeyword' hmethod' =>
    .super trivial (hkeyword.alike hkeyword') (hmethod.alike hmethod')
  | .arrow harrow hparams hbody, .arrow harrow' hparams' hbody' =>
    .arrow (.mk (harrow.alike harrow') (alike_params hparams hparams') (hbody.alike hbody'))
termination_by structural h => h

theorem PrintsEach.alike {es es' : List Expr} {fs : List Form} :
    PrintsEach es fs → PrintsEach es' fs → AlikeEach .anywhere es es'
  | .nil, .nil => .nil
  | .cons h hes, .cons h' hes' => .cons (h.alike h') (hes.alike hes')
termination_by structural h => h

theorem PrintsOptional.alike {e e' : Option Expr} {fs : List Form} :
    PrintsOptional e fs → PrintsOptional e' fs → AlikeOptional .anywhere e e'
  | .none, .none => .none
  | .some h, .some h' => .some (h.alike h')
termination_by structural h => h

theorem Stmt.Prints.alike {s s' : Stmt} {f : Form} :
    s.Prints f → s'.Prints f → Stmt.Alike .anywhere s s'
  | .expression hvalue, .expression hvalue' => .expression (hvalue.alike hvalue')
  | .print hvalue, .print hvalue' => .print (hvalue.alike hvalue')
  | .println hvalue, .println hvalue' => .println (hvalue.alike hvalue')
  | .var hname hinitializer, .var hname' hinitializer' =>
    .var (hname.alike hname') (hinitializer.alike hinitializer')
  | .const hname hinitializer, .const hname' hinitializer' =>
    .const (hname.alike hname') (hinitializer.alike hinitializer')
  | .block hbody, .block hbody' => .block (hbody.alike hbody')
  | .ifElse hcondition hthen helse, .ifElse hcondition' hthen' helse' =>
    .ifElse (hcondition.alike hcondition') (hthen.alike hthen') (helse.alike helse')
  | .while hcondition hbody, .while hcondition' hbody' =>
    .while (hcondition.alike hcondition') (hbody.alike hbody')
  | .for hinitializer hcondition hupdate hbody, .for hinitializer' hcondition' hupdate' hbody' =>
    .for (hinitializer.alike hinitializer') (.some (hcondition.alike hcondition'))
      (.some (hupdate.alike hupdate')) (hbody.alike hbody')
  | .break hkeyword, .break hkeyword' => .break (hkeyword.alike hkeyword')
  | .continue hkeyword, .continue hkeyword' => .continue (hkeyword.alike hkeyword')
  | .assert hkeyword hcondition hmessage, .assert hkeyword' hcondition' hmessage' =>
    .assert (hkeyword.alike hkeyword') (hcondition.alike hcondition') (hmessage.alike hmessage')
  | .function hname hparams hbody, .function hname' hparams' hbody' =>
    .function (.mk (hname.alike hname') (alike_params hparams hparams') (hbody.alike hbody'))
  | .return hkeyword hvalue, .return hkeyword' hvalue' =>
    .return (hkeyword.alike hkeyword') (hvalue.alike hvalue')
  | .class hname hbase hmethods hstatics hgetters hparts,
    .class hname' hbase' hmethods' hstatics' hgetters' hparts' => by
    obtain ⟨rfl, rfl, rfl, rfl⟩ := parts_inj hbase hmethods hstatics hgetters hbase' hmethods'
      hstatics' hgetters' (hparts.symm.trans hparts')
    exact .class (.mk (hname.alike hname') (hbase.alike hbase') (hmethods.alike hmethods')
      (hstatics.alike hstatics') (hgetters.alike hgetters'))
termination_by structural h => h

theorem PrintsBranch.alike {s s' : Option Stmt} {fs : List Form} :
    PrintsBranch s fs → PrintsBranch s' fs → AlikeBranch .anywhere s s'
  | .none, .none => .none
  | .some h, .some h' => .some (h.alike h')
termination_by structural h => h

theorem PrintsInitializer.alike {s s' : Option Stmt} {f : Form} :
    PrintsInitializer s f → PrintsInitializer s' f → AlikeBranch .anywhere s s'
  | .none _, h' => by
    rw [h'.eq_none]
    exact .none
  | .some h, h' => by
    obtain ⟨s, rfl, hs⟩ := h'.eq_some h
    exact .some (h.alike hs)
termination_by structural h => h

theorem PrintsBody.alike {ss ss' : List Stmt} {fs : List Form} :
    PrintsBody ss fs → PrintsBody ss' fs → AlikeBody .anywhere ss ss'
  | .nil, .nil => .nil
  | .cons h hss, .cons h' hss' => .cons (h.alike h') (hss.alike hss')
termination_by structural h => h

theorem FunctionDecl.Prints.alike {mark : Mark} {d d' : FunctionDecl} {f : Form} :
    FunctionDecl.Prints mark d f → FunctionDecl.Prints mark d' f → FunctionDecl.Alike .anywhere d d'
  | .mk hname hparams hbody, .mk hname' hparams' hbody' =>
    .mk (hname.alike hname') (alike_params hparams hparams') (hbody.alike hbody')
termination_by structural h => h

theorem PrintsFunctions.alike {mark : Mark} {ds ds' : List FunctionDecl} {fs : List Form} :
    PrintsFunctions mark ds fs → PrintsFunctions mark ds' fs → AlikeFunctions .anywhere ds ds'
  | .nil, .nil => .nil
  | .cons h hds, .cons h' hds' => .cons (h.alike h') (hds.alike hds')
termination_by structural h => h

theorem PrintsBase.alike {e e' : Option Expr} {fs : List Form} :
    PrintsBase e fs → PrintsBase e' fs → AlikeOptional .anywhere e e'
  | .none, .none => .none
  | .some h, .some h' => .some (h.alike h')
termination_by structural h => h

end

/-! ## Programs -/

theorem Stmt.Prints.alike_of_render_eq {s s' : Stmt} {f g : Form} (h : s.Prints f)
    (h' : s'.Prints g) (htext : s.render = s'.render) : Stmt.Alike .anywhere s s' := by
  have hform : f = g := Form.text_inj (by rw [← h.text, ← h'.text, htext])
  exact h.alike (hform ▸ h')

/-- Statements with the same texts are alike. -/
theorem PrintsBody.alike_of_texts {ss ss' : List Stmt} {fs gs : List Form} (h : PrintsBody ss fs)
    (h' : PrintsBody ss' gs) (htexts : ss.map Stmt.render = ss'.map Stmt.render) :
    AlikeBody .anywhere ss ss' := by
  induction ss generalizing ss' fs gs with
  | nil =>
    obtain rfl : ss' = [] := List.map_eq_nil_iff.mp htexts.symm
    exact .nil
  | cons s ss ih =>
    cases ss' with
    | nil => cases htexts
    | cons s' ss' =>
      obtain ⟨htext, htexts⟩ := List.cons_eq_cons.mp htexts
      cases h with
      | cons hs hss =>
        cases h' with
        | cons hs' hss' => exact .cons (hs.alike_of_render_eq hs' htext) (ih hss hss' htexts)

end LoxLang
