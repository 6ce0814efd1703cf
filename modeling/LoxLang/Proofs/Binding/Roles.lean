import LoxLang.Proofs.Binding.Analysed

/-!
# Inside of classes

A part of a program that was accepted inside of a class falls apart into parts that were accepted
there (`Expr.AcceptedIn`, `Stmt.AcceptedIn`), as long as no other function or class lies between.
What counts of the class is its role: where it has no base class, `super` is never accepted
(`Expr.AcceptedIn.not_super`).
-/

namespace LoxLang

open Analysis

/-- The role that a class gives its members. -/
def ClassDecl.role (decl : ClassDecl) : ClassRole := if decl.base.isSome then .derived else .root

/-- A regular part of a program that was accepted inside of a class of a role. -/
def AcceptedIn (role : ClassRole) (regular : Prop) (analyse : Analysis → Analysis) : Prop :=
  regular ∧ ∃ a : Analysis, a.around.classRole = role ∧ (analyse a).failed = false

section Parts

variable (settings : Settings) (role : ClassRole)

def Expr.AcceptedIn (e : Expr) : Prop := LoxLang.AcceptedIn role e.Regular (e.analyse settings)

def EachAcceptedIn (es : List Expr) : Prop :=
  AcceptedIn role (RegularEach es) (analyseEach settings es)

def OptionalAcceptedIn (e : Option Expr) : Prop :=
  AcceptedIn role (RegularOptional e) (analyseOptional settings e)

def Stmt.AcceptedIn (s : Stmt) : Prop := LoxLang.AcceptedIn role s.Regular (s.analyse settings)

def BranchAcceptedIn (s : Option Stmt) : Prop :=
  AcceptedIn role (RegularBranch s) (analyseBranch settings s)

def BodyAcceptedIn (ss : List Stmt) : Prop :=
  AcceptedIn role (RegularBody ss) (analyseBody settings ss)

end Parts

variable {settings : Settings} {role : ClassRole} {a b : Analysis} {grow : List Rib → List Rib}
  {visits : List Visit} {references : List Reference}

/-- A way of the analysis leads to a point in the same class. -/
theorem Analysed.keepsRole (h : Analysed grow a b visits references)
    (hrole : a.around.classRole = role) : b.around.classRole = role :=
  (congrArg Surroundings.classRole h.around).trans hrole

/-! ## Parts of expressions -/

namespace Expr.AcceptedIn

theorem not_super {id : NodeId} {keyword method : Token} :
    ¬(Expr.super id keyword method).AcceptedIn settings .root := by
  rintro ⟨-, a, hrole, haccepted⟩
  have hrefused : a.referSuper id keyword = a.fail .superWithoutBase keyword := by
    rw [referSuper, hrole]
  rw [Expr.analyse, hrefused] at haccepted
  cases haccepted

theorem binary {left right : Expr} {operator : Token}
    (h : (Expr.binary left operator right).AcceptedIn settings role) :
    left.AcceptedIn settings role ∧ right.AcceptedIn settings role := by
  obtain ⟨⟨hl, hr, -⟩, a, hrole, haccepted⟩ := h
  have hleft := left.analysed settings a hl
  have hright := right.analysed settings (left.analyse settings a) hr
  exact ⟨⟨hl, a, hrole, hright.sound haccepted⟩, ⟨hr, _, hleft.keepsRole hrole, haccepted⟩⟩

theorem logical {left right : Expr} {operator : Token}
    (h : (Expr.logical left operator right).AcceptedIn settings role) :
    left.AcceptedIn settings role ∧ right.AcceptedIn settings role :=
  binary (show (Expr.binary left operator right).AcceptedIn settings role from h)

theorem ternary {condition thenBranch elseBranch : Expr} {question : Token}
    (h : (Expr.ternary condition question thenBranch elseBranch).AcceptedIn settings role) :
    condition.AcceptedIn settings role ∧ thenBranch.AcceptedIn settings role ∧
      elseBranch.AcceptedIn settings role := by
  obtain ⟨⟨hc, ht, he, -⟩, a, hrole, haccepted⟩ := h
  have hcondition := condition.analysed settings a hc
  have hthen := thenBranch.analysed settings (condition.analyse settings a) ht
  have helse := elseBranch.analysed settings
    (thenBranch.analyse settings (condition.analyse settings a)) he
  have hboth := helse.sound haccepted
  exact ⟨⟨hc, a, hrole, hthen.sound hboth⟩, ⟨ht, _, hcondition.keepsRole hrole, hboth⟩,
    ⟨he, _, hthen.keepsRole (hcondition.keepsRole hrole), haccepted⟩⟩

theorem assign {id : NodeId} {name : Token} {value : Expr}
    (h : (Expr.assign id name value).AcceptedIn settings role) : value.AcceptedIn settings role := by
  obtain ⟨⟨hv, -⟩, a, hrole, haccepted⟩ := h
  have hnode : Analysed _ (value.analyse settings a) ((value.analyse settings a).refer id name .write)
    _ [⟨.assign, id, name⟩] := .refer rfl
  exact ⟨hv, a, hrole, hnode.sound haccepted⟩

theorem call {callee : Expr} {paren : Token} {arguments : List Expr}
    (h : (Expr.call callee paren arguments).AcceptedIn settings role) :
    callee.AcceptedIn settings role ∧ EachAcceptedIn settings role arguments := by
  obtain ⟨⟨hc, has, -⟩, a, hrole, haccepted⟩ := h
  have hcallee := callee.analysed settings a hc
  have harguments := analysedEach settings arguments (callee.analyse settings a) has
  exact ⟨⟨hc, a, hrole, harguments.sound haccepted⟩, ⟨has, _, hcallee.keepsRole hrole, haccepted⟩⟩

theorem set {object value : Expr} {name : Token}
    (h : (Expr.set object name value).AcceptedIn settings role) :
    object.AcceptedIn settings role ∧ value.AcceptedIn settings role := by
  obtain ⟨⟨ho, hv, -⟩, a, hrole, haccepted⟩ := h
  have hvalue := value.analysed settings a hv
  have hobject := object.analysed settings (value.analyse settings a) ho
  exact ⟨⟨ho, _, hvalue.keepsRole hrole, haccepted⟩, ⟨hv, a, hrole, hobject.sound haccepted⟩⟩

end Expr.AcceptedIn

theorem EachAcceptedIn.cons {e : Expr} {es : List Expr}
    (h : EachAcceptedIn settings role (e :: es)) :
    e.AcceptedIn settings role ∧ EachAcceptedIn settings role es := by
  obtain ⟨⟨he, hes, -⟩, a, hrole, haccepted⟩ := h
  have hfirst := e.analysed settings a he
  have hrest := analysedEach settings es (e.analyse settings a) hes
  exact ⟨⟨he, a, hrole, hrest.sound haccepted⟩, ⟨hes, _, hfirst.keepsRole hrole, haccepted⟩⟩

/-! ## Parts of statements -/

namespace Stmt.AcceptedIn

/-- The value that a declaration gives its name. -/
theorem initializer {name : Token} {kind : DeclarationKind} {value : Expr} (hregular : value.Regular)
    (hrole : a.around.classRole = role)
    (haccepted : (((value.analyse settings (a.declare settings kind name)).markReady name).define
      name).failed = false) : value.AcceptedIn settings role := by
  have hdeclared : Analysed _ a (a.declare settings kind name) [] [] := .declare
  have hmarked : Analysed _ (value.analyse settings (a.declare settings kind name))
    ((value.analyse settings (a.declare settings kind name)).markReady name) [] [] := .markReady
  exact ⟨hregular, _, hdeclared.keepsRole hrole, hmarked.sound (Analysed.define.sound haccepted)⟩

theorem block {body : List Stmt} (h : (Stmt.block body).AcceptedIn settings role) :
    BodyAcceptedIn settings role body := by
  obtain ⟨hb, a, hrole, haccepted⟩ := h
  exact ⟨hb, a.openScope (.block body), hrole, Analysed.closeScope.sound haccepted⟩

theorem ifElse {condition : Expr} {thenBranch : Stmt} {elseBranch : Option Stmt}
    (h : (Stmt.ifElse condition thenBranch elseBranch).AcceptedIn settings role) :
    condition.AcceptedIn settings role ∧ thenBranch.AcceptedIn settings role ∧
      BranchAcceptedIn settings role elseBranch := by
  obtain ⟨⟨hc, ht, he, -⟩, a, hrole, haccepted⟩ := h
  have hcondition := condition.analysed settings a hc
  have hthen := thenBranch.analysed settings (condition.analyse settings a) ht
  have helse := analysedBranch settings elseBranch
    (thenBranch.analyse settings (condition.analyse settings a)) he
  have hboth := helse.sound haccepted
  exact ⟨⟨hc, a, hrole, hthen.sound hboth⟩, ⟨ht, _, hcondition.keepsRole hrole, hboth⟩,
    ⟨he, _, hthen.keepsRole (hcondition.keepsRole hrole), haccepted⟩⟩

theorem «while» {condition : Expr} {body : Stmt}
    (h : (Stmt.while condition body).AcceptedIn settings role) :
    condition.AcceptedIn settings role ∧ body.AcceptedIn settings role := by
  obtain ⟨⟨hc, hb, -⟩, a, hrole, haccepted⟩ := h
  have hcondition := condition.analysed settings a hc
  have hbody := body.analysed settings (condition.analyse settings a).enterLoop hb
  exact ⟨⟨hc, a, hrole, hbody.sound haccepted⟩,
    ⟨hb, (condition.analyse settings a).enterLoop, hcondition.keepsRole hrole, haccepted⟩⟩

theorem «for» {initializer : Option Stmt} {condition update : Option Expr} {body : Stmt}
    (h : (Stmt.for initializer condition update body).AcceptedIn settings role) :
    BranchAcceptedIn settings role initializer ∧ OptionalAcceptedIn settings role condition ∧
      OptionalAcceptedIn settings role update ∧ body.AcceptedIn settings role := by
  obtain ⟨⟨hi, hc, hu, hb, -⟩, a, hrole, haccepted⟩ := h
  let opened := a.openScope (.clauses initializer condition update body)
  let begun := analyseBranch settings initializer opened
  let tested := analyseOptional settings condition begun
  let updated := analyseOptional settings update tested
  have hbegun := analysedBranch settings initializer opened hi
  have htested := analysedOptional settings condition begun hc
  have hupdated := analysedOptional settings update tested hu
  have hbody := body.analysed settings updated.enterLoop hb
  have hclosed : Analysed List.tail (body.analyse settings updated.enterLoop).leaveLoop
    ((Stmt.for initializer condition update body).analyse settings a) [] [] := .closeScope
  have hlast : (body.analyse settings updated.enterLoop).failed = false := hclosed.sound haccepted
  have hthird : updated.failed = false := hbody.sound hlast
  have hsecond : tested.failed = false := hupdated.sound hthird
  have hroleBegun : begun.around.classRole = role := hbegun.keepsRole hrole
  exact ⟨⟨hi, opened, hrole, htested.sound hsecond⟩, ⟨hc, begun, hroleBegun, hsecond⟩,
    ⟨hu, tested, htested.keepsRole hroleBegun, hthird⟩,
    ⟨hb, updated.enterLoop, hupdated.keepsRole (htested.keepsRole hroleBegun), hlast⟩⟩

theorem assert {keyword : Token} {condition : Expr} {message : Option Expr}
    (h : (Stmt.assert keyword condition message).AcceptedIn settings role) :
    condition.AcceptedIn settings role ∧ OptionalAcceptedIn settings role message := by
  obtain ⟨⟨hc, hm, -⟩, a, hrole, haccepted⟩ := h
  have hcondition := condition.analysed settings a hc
  have hmessage := analysedOptional settings message (condition.analyse settings a) hm
  exact ⟨⟨hc, a, hrole, hmessage.sound haccepted⟩, ⟨hm, _, hcondition.keepsRole hrole, haccepted⟩⟩

theorem «return» {keyword : Token} {value : Expr}
    (h : (Stmt.return keyword (some value)).AcceptedIn settings role) :
    value.AcceptedIn settings role := by
  obtain ⟨hv, a, hrole, haccepted⟩ := h
  have hchecked : Analysed id a ((a.checkReturn keyword).checkReturnValue keyword) [] [] :=
    Analysed.checked.andThen .checked
  exact ⟨hv, _, hchecked.keepsRole hrole, haccepted⟩

end Stmt.AcceptedIn

theorem BodyAcceptedIn.cons {s : Stmt} {ss : List Stmt}
    (h : BodyAcceptedIn settings role (s :: ss)) :
    s.AcceptedIn settings role ∧ BodyAcceptedIn settings role ss := by
  obtain ⟨⟨hs, hss, -⟩, a, hrole, haccepted⟩ := h
  have hfirst := s.analysed settings a hs
  have hrest := analysedBody settings ss (s.analyse settings a) hss
  exact ⟨⟨hs, a, hrole, hrest.sound haccepted⟩, ⟨hss, _, hfirst.keepsRole hrole, haccepted⟩⟩

/-! ## Members of classes -/

/-- The body of a function is accepted in the class that the function stands in. -/
theorem FunctionDecl.acceptedIn {d : FunctionDecl} {kind : FunctionRole} (hregular : d.Regular)
    (hrole : a.around.classRole = role) (haccepted : (d.analyse settings kind a).failed = false) :
    BodyAcceptedIn settings role d.body := by
  obtain ⟨_, params, body⟩ := d
  have hopened : Analysed _ ((a.enterFunction kind).openScope (.parameters params body))
    (a.openFunction settings kind params body) [] [] := .declareParameters params
  refine ⟨hregular.1, a.openFunction settings kind params body, hopened.keepsRole hrole, ?_⟩
  exact Analysed.closeScope.sound haccepted

theorem acceptedIn_of_methods {ds : List FunctionDecl} (hregular : RegularFunctions ds)
    (hrole : a.around.classRole = role) (haccepted : (analyseMethods settings ds a).failed = false) :
    ∀ d ∈ ds, BodyAcceptedIn settings role d.body := by
  induction ds generalizing a with
  | nil => exact fun _ hd => absurd hd List.not_mem_nil
  | cons d ds ih =>
    have hfirst := d.analysed settings (methodRole d.name) a hregular.1
    have hrest := analysedMethods settings ds (d.analyse settings (methodRole d.name) a) hregular.2.1
    exact List.forall_mem_cons.mpr
      ⟨d.acceptedIn hregular.1 hrole (hrest.sound haccepted),
        ih hregular.2.1 (hfirst.keepsRole hrole) haccepted⟩

theorem acceptedIn_of_getters {ds : List FunctionDecl} (hregular : RegularFunctions ds)
    (hrole : a.around.classRole = role) (haccepted : (analyseGetters settings ds a).failed = false) :
    ∀ d ∈ ds, BodyAcceptedIn settings role d.body := by
  induction ds generalizing a with
  | nil => exact fun _ hd => absurd hd List.not_mem_nil
  | cons d ds ih =>
    let checked := a.checkNoInitializer d.name .getterInitializer
    have hchecked : Analysed id a checked [] [] := .checked
    have hfirst := d.analysed settings .method checked hregular.1
    have hrest := analysedGetters settings ds (d.analyse settings .method checked) hregular.2.1
    exact List.forall_mem_cons.mpr
      ⟨d.acceptedIn hregular.1 (hchecked.keepsRole hrole) (hrest.sound haccepted),
        ih hregular.2.1 (hfirst.keepsRole (hchecked.keepsRole hrole)) haccepted⟩

/-- The members of a class are walked through with the role that the class gives them. -/
theorem ClassDecl.role_of_base {decl : ClassDecl} {named : Analysis}
    (hbase : ∀ e ∈ decl.base, ∃ id name, e = .variable id name)
    (hrole : named.around.classRole = .root) :
    (analyseBase settings decl.name decl.base named).around.classRole = decl.role := by
  rw [ClassDecl.role]
  generalize decl.name = name, decl.base = base at hbase
  cases base with
  | none => exact hrole
  | some base =>
    obtain ⟨node, baseName, rfl⟩ := hbase base rfl
    have hfound := (Expr.variable node baseName).analysed settings
      ((named.checkOwnBase name (.variable node baseName)).enterClass .derived) trivial
    exact hfound.keepsRole rfl

end LoxLang
