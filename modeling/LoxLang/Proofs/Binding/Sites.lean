import LoxLang.Proofs.Binding.Storing
import LoxLang.Proofs.Grammar.Program

/-!
# Where nodes stand

The scopes around every node that names a binding, read off the syntax: each with the names that are
declared before the node, or, for an initializer, right before it (`Stmt.sites`). The analysis comes to
every node with the scopes that stand around it (`Stmt.sited`), so that the table of an accepted
program leads from each to the innermost declaration of its name, and from nothing else
(`Resolver.distances_of_sites`).
-/

namespace LoxLang

open Analysis

/-- A node that names a binding, and the scopes around it. -/
structure Site where
  reference : Reference
  ribs : List Rib

namespace Site

def name (site : Site) : String := site.reference.token.lexeme

/-- The declaration this far out is the innermost of the name of the node, and may be used as the
node uses it. -/
structure LeadsTo (site : Site) (hops : Nat) : Prop where
  found : ∃ rib status, site.ribs[hops]? = some rib ∧ rib.status site.name = some status ∧
    (site.reference.kind = .assign → status.isMutable = true)
  nearest : ∀ i < hops, ∀ rib, site.ribs[i]? = some rib → rib.status site.name = none

end Site

mutual

def Expr.sites : Expr → List Rib → List Site
  | .literal _, _ => []
  | .grouping inner, ribs => inner.sites ribs
  | .unary _ right, ribs => right.sites ribs
  | .binary left _ right, ribs => left.sites ribs ++ right.sites ribs
  | .logical left _ right, ribs => left.sites ribs ++ right.sites ribs
  | .ternary condition _ thenBranch elseBranch, ribs =>
    condition.sites ribs ++ thenBranch.sites ribs ++ elseBranch.sites ribs
  | .variable id name, ribs => [⟨⟨.variable, id, name⟩, ribs⟩]
  | .assign id name value, ribs => value.sites ribs ++ [⟨⟨.assign, id, name⟩, ribs⟩]
  | .call callee _ arguments, ribs => callee.sites ribs ++ sitesOfEach arguments ribs
  | .get object _, ribs => object.sites ribs
  | .set object _ value, ribs => value.sites ribs ++ object.sites ribs
  | .this id keyword, ribs => [⟨⟨.this, id, keyword⟩, ribs⟩]
  | .super id keyword _, ribs => [⟨⟨.super, id, keyword⟩, ribs⟩]
  | .arrow decl, ribs => decl.sites ribs

def ArrowDecl.sites : ArrowDecl → List Rib → List Site
  | ⟨_, params, body⟩, ribs => sitesOfBody body (parameterRib params body :: ribs)

def sitesOfEach : List Expr → List Rib → List Site
  | [], _ => []
  | e :: es, ribs => e.sites ribs ++ sitesOfEach es ribs

def sitesOfOptional : Option Expr → List Rib → List Site
  | none, _ => []
  | some e, ribs => e.sites ribs

def Stmt.sites : Stmt → List Rib → List Site
  | .expression value, ribs => value.sites ribs
  | .print value, ribs => value.sites ribs
  | .println value, ribs => value.sites ribs
  | .var name initializer, ribs => sitesOfOptional initializer (beginning name .variable ribs)
  | .const name initializer, ribs => initializer.sites (beginning name .constant ribs)
  | .block body, ribs => sitesOfBody body (.bare (.block body) :: ribs)
  | .ifElse condition thenBranch elseBranch, ribs =>
    condition.sites ribs ++ thenBranch.sites ribs ++ sitesOfBranch elseBranch ribs
  | .while condition body, ribs => condition.sites ribs ++ body.sites ribs
  | .for initializer condition update body, ribs =>
    let opened := .bare (.clauses initializer condition update body) :: ribs
    let begun := growBranch initializer opened
    sitesOfBranch initializer opened ++ sitesOfOptional condition begun ++
      sitesOfOptional update begun ++ body.sites begun
  | .break _, _ => []
  | .continue _, _ => []
  | .assert _ condition message, ribs => condition.sites ribs ++ sitesOfOptional message ribs
  | .function decl, ribs => decl.sites (declaring (some (decl.name, .function)) ribs)
  | .return _ value, ribs => sitesOfOptional value ribs
  | .class decl, ribs => decl.sites (declaring (some (decl.name, .class)) ribs)

def sitesOfBranch : Option Stmt → List Rib → List Site
  | none, _ => []
  | some s, ribs => s.sites ribs

def sitesOfBody : List Stmt → List Rib → List Site
  | [], _ => []
  | s :: ss, ribs => s.sites ribs ++ sitesOfBody ss (s.grow ribs)

def FunctionDecl.sites : FunctionDecl → List Rib → List Site
  | ⟨_, params, body⟩, ribs => sitesOfBody body (parameterRib params body :: ribs)

def sitesOfFunctions : List FunctionDecl → List Rib → List Site
  | [], _ => []
  | d :: ds, ribs => d.sites ribs ++ sitesOfFunctions ds ribs

/-- The base and the static methods of a class stand outside the scope of its object. -/
def ClassDecl.sites : ClassDecl → List Rib → List Site
  | ⟨name, base, methods, statics, getters⟩, ribs =>
    let inner := receiverRib ⟨name, base, methods, statics, getters⟩ :: ribs
    sitesOfOptional base ribs ++ sitesOfFunctions statics ribs ++
      (sitesOfFunctions methods inner ++ sitesOfFunctions getters inner)

end

/-! ## The analysis comes to every site -/

/-- A part of a tree behind which the analysis is in this state: it has come to each node of the part
with the scopes around it, and let through only assignments to what may be assigned to. It has come
to no others. -/
structure Sited (behind : Analysis) (visits : List Visit) (references : List Reference)
    (sites : List Site) : Prop where
  covers : ∀ r, r ∈ references ↔ ∃ site ∈ sites, site.reference = r
  visited : ∀ site ∈ sites, ∃ v ∈ visits,
    v.key = (site.reference.id, site.reference.token, site.ribs) ∧
      (behind.failed = false → site.reference.kind = .assign →
        ∃ hops binding, v.binding? = some (hops, binding) ∧ binding.isMutable = true)
  origin : ∀ v ∈ visits, ∃ site ∈ sites,
    v.key = (site.reference.id, site.reference.token, site.ribs)

namespace Sited

variable {a b c : Analysis} {vs vs' : List Visit} {rs rs' : List Reference} {ss ss' : List Site}
  {settings : Settings} {ribs : List Rib}

theorem nil : Sited a [] [] [] where
  covers _ := by simp
  visited _ h := nomatch h
  origin _ h := nomatch h

/-- The analysis goes on behind the part without a fault only if it has found none. -/
theorem before (h : Sited a vs rs ss) (hwalk : Walk a b vs' rs') : Sited b vs rs ss where
  covers := h.covers
  visited site hsite := by
    obtain ⟨v, hv, hkey, hmutable⟩ := h.visited site hsite
    exact ⟨v, hv, hkey, fun hb => hmutable (hwalk.sound hb)⟩
  origin := h.origin

theorem append (h : Sited a vs rs ss) (hwalk : Walk a b vs' rs') (h' : Sited b vs' rs' ss') :
    Sited b (vs ++ vs') (rs ++ rs') (ss ++ ss') where
  covers r := by simp only [List.mem_append, h.covers, h'.covers, or_and_right, exists_or]
  visited site hsite := by
    rcases List.mem_append.mp hsite with hsite | hsite
    · obtain ⟨v, hv, hfound⟩ := (h.before hwalk).visited site hsite
      exact ⟨v, List.mem_append_left _ hv, hfound⟩
    · obtain ⟨v, hv, hfound⟩ := h'.visited site hsite
      exact ⟨v, List.mem_append_right _ hv, hfound⟩
  origin v hv := by
    rcases List.mem_append.mp hv with hv | hv
    · obtain ⟨site, hsite, hkey⟩ := h.origin v hv
      exact ⟨site, List.mem_append_left _ hsite, hkey⟩
    · obtain ⟨site, hsite, hkey⟩ := h'.origin v hv
      exact ⟨site, List.mem_append_right _ hsite, hkey⟩

/-- The nodes may stand in another order. -/
theorem reorder (h : Sited a vs rs ss) (hsame : ∀ r, r ∈ rs' ↔ r ∈ rs) : Sited a vs rs' ss :=
  { h with covers := fun r => (hsame r).trans (h.covers r) }

/-- A node with the state that it leaves. -/
theorem node {kind : ReferenceKind} {id : NodeId} {name : Token} (hribs : a.ribs = ribs)
    (hwritable : b.failed = false → kind = .assign →
      ∃ hops binding, findBinding? name.lexeme a.scopes = some (hops, binding) ∧
        binding.isMutable = true) :
    Sited b [⟨id, name, a.scopes⟩] [⟨kind, id, name⟩] [⟨⟨kind, id, name⟩, ribs⟩] where
  covers r := by simp [eq_comm]
  visited site hsite := by
    obtain rfl := List.mem_singleton.mp hsite
    exact ⟨_, List.mem_singleton_self _, congrArg (fun ribs => (id, name, ribs)) hribs, hwritable⟩
  origin v hv := by
    obtain rfl := List.mem_singleton.mp hv
    exact ⟨_, List.mem_singleton_self _, congrArg (fun ribs => (id, name, ribs)) hribs⟩

theorem reading {kind : ReferenceKind} {id : NodeId} {name : Token} (hkind : kind ≠ .assign)
    (hribs : a.ribs = ribs) :
    Sited b [⟨id, name, a.scopes⟩] [⟨kind, id, name⟩] [⟨⟨kind, id, name⟩, ribs⟩] :=
  node hribs fun _ h => absurd h hkind

theorem writing {id : NodeId} {name : Token} (hribs : a.ribs = ribs) :
    Sited (a.refer id name .write) [⟨id, name, a.scopes⟩] [⟨.assign, id, name⟩]
      [⟨⟨.assign, id, name⟩, ribs⟩] := by
  refine node hribs fun haccepted _ => ?_
  obtain ⟨hops, binding, hfound, hproblem, -⟩ := exists_of_refer haccepted
  refine ⟨hops, binding, hfound, ?_⟩
  unfold problem? at hproblem
  by_contra hfixed
  simp [hfixed] at hproblem

theorem function {outside : Surroundings} (h : Sited b vs rs ss) :
    Sited (b.closeFunction settings outside) vs rs ss :=
  h.before (.quiet fun hclosed => ⟨(closeScope_eq settings b).2.2.2 ▸ hclosed,
    (closeScope_eq settings b).2.2.1⟩)

end Sited

open Analysed

theorem sitedBase {settings : Settings} {name : Token} {base : Option Expr} {a : Analysis}
    {ribs : List Rib} (h : ∀ e ∈ base, ∃ id name, e = .variable id name) (hribs : a.ribs = ribs) :
    Sited (analyseBase settings name base a) (visitsOfBase settings name base a)
      (referencesOfOptional base) (sitesOfOptional base ribs) := by
  cases base with
  | none => exact .nil
  | some base =>
    obtain ⟨node, baseName, rfl⟩ := h base rfl
    have hcheck : Analysed id a (a.checkOwnBase name (.variable node baseName)) [] [] :=
      .checkOwnBase
    exact .reading (a := (a.checkOwnBase name (.variable node baseName)).enterClass .derived)
      (by decide) (hcheck.ribs.trans hribs)

mutual

theorem Expr.sited (settings : Settings) : ∀ (e : Expr) (a : Analysis) {ribs : List Rib},
    e.Regular → a.ribs = ribs →
    Sited (e.analyse settings a) (e.visits settings a) e.references (e.sites ribs)
  | .literal _, _, _, _, _ => .nil
  | .grouping inner, a, _, h, hribs => inner.sited settings a h hribs
  | .unary _ right, a, _, h, hribs => right.sited settings a h hribs
  | .binary left _ right, a, _, h, hribs | .logical left _ right, a, _, h, hribs =>
    (left.sited settings a h.1 hribs).append (right.analysed settings _ h.2.1).toWalk
      (right.sited settings _ h.2.1 ((left.analysed settings a h.1).ribs.trans hribs))
  | .ternary condition _ thenBranch elseBranch, a, _, h, hribs => by
    obtain ⟨hc, ht, he, -⟩ := h
    have hribsThen := (condition.analysed settings a hc).ribs.trans hribs
    have hthen := thenBranch.analysed settings (condition.analyse settings a) ht
    exact ((condition.sited settings a hc hribs).append hthen.toWalk
      (thenBranch.sited settings _ ht hribsThen)).append
        (elseBranch.analysed settings _ he).toWalk
        (elseBranch.sited settings _ he (hthen.ribs.trans hribsThen))
  | .variable _ _, _, _, _, hribs => .reading (by decide) hribs
  | .assign id name value, a, _, h, hribs =>
    ((value.sited settings a h.1 hribs).append (Analysed.refer (r := ⟨.assign, id, name⟩) rfl).toWalk
      (.writing ((value.analysed settings a h.1).ribs.trans hribs))).reorder
        (by simp [Expr.references, or_comm])
  | .call callee _ arguments, a, _, h, hribs =>
    (callee.sited settings a h.1 hribs).append (analysedEach settings arguments _ h.2.1).toWalk
      (sitedEach settings arguments _ h.2.1 ((callee.analysed settings a h.1).ribs.trans hribs))
  | .get object _, a, _, h, hribs => object.sited settings a h hribs
  | .set object _ value, a, _, h, hribs =>
    ((value.sited settings a h.2.1 hribs).append (object.analysed settings _ h.1).toWalk
      (object.sited settings _ h.1 ((value.analysed settings a h.2.1).ribs.trans hribs))).reorder
        (by simp [Expr.references, or_comm])
  | .this _ _, _, _, _, hribs => .reading (by decide) hribs
  | .super _ _ _, _, _, _, hribs => .reading (by decide) hribs
  | .arrow decl, a, _, h, hribs => decl.sited settings a h hribs

theorem ArrowDecl.sited (settings : Settings) : ∀ (d : ArrowDecl) (a : Analysis) {ribs : List Rib},
    d.Regular → a.ribs = ribs →
    Sited (d.analyse settings a) (d.visits settings a) d.references (d.sites ribs)
  | ⟨_, params, body⟩, a, _, h, hribs =>
    .function (sitedBody settings body _ h.1
      ((ribs_openFunction _ params body a).trans (congrArg _ hribs)))

theorem sitedEach (settings : Settings) : ∀ (es : List Expr) (a : Analysis) {ribs : List Rib},
    RegularEach es → a.ribs = ribs →
    Sited (analyseEach settings es a) (visitsOfEach settings es a) (referencesOfEach es)
      (sitesOfEach es ribs)
  | [], _, _, _, _ => .nil
  | e :: es, a, _, h, hribs =>
    (e.sited settings a h.1 hribs).append (analysedEach settings es _ h.2.1).toWalk
      (sitedEach settings es _ h.2.1 ((e.analysed settings a h.1).ribs.trans hribs))

theorem sitedOptional (settings : Settings) : ∀ (e : Option Expr) (a : Analysis) {ribs : List Rib},
    RegularOptional e → a.ribs = ribs →
    Sited (analyseOptional settings e a) (visitsOfOptional settings e a) (referencesOfOptional e)
      (sitesOfOptional e ribs)
  | none, _, _, _, _ => .nil
  | some e, a, _, h, hribs => e.sited settings a h hribs

theorem Stmt.sited (settings : Settings) : ∀ (s : Stmt) (a : Analysis) {ribs : List Rib},
    s.Regular → a.ribs = ribs →
    Sited (s.analyse settings a) (s.visits settings a) s.references (s.sites ribs)
  | .expression value, a, _, h, hribs | .print value, a, _, h, hribs
  | .println value, a, _, h, hribs => value.sited settings a h hribs
  | .var _ none, _, _, _, _ => .nil
  | .var name (some initializer), a, _, h, hribs =>
    ((initializer.sited settings _ h.1
      ((declare_eq settings .variable name a).1.trans (congrArg _ hribs))).before
        Analysed.markReady.toWalk).before Analysed.define.toWalk
  | .const name initializer, a, _, h, hribs =>
    ((initializer.sited settings _ h.1
      ((declare_eq settings .constant name a).1.trans (congrArg _ hribs))).before
        Analysed.markReady.toWalk).before Analysed.define.toWalk
  | .block body, a, _, h, hribs =>
    (sitedBody settings body (a.openScope (.block body)) h
      (by rw [ribs_openScope, hribs])).before Analysed.closeScope.toWalk
  | .ifElse condition thenBranch elseBranch, a, _, h, hribs => by
    obtain ⟨hc, ht, he, hpt, -⟩ := h
    have hribsThen := (condition.analysed settings a hc).ribs.trans hribs
    have hthen := thenBranch.analysed settings (condition.analyse settings a) ht
    rw [Stmt.grow_of_plain hpt] at hthen
    exact ((condition.sited settings a hc hribs).append hthen.toWalk
      (thenBranch.sited settings _ ht hribsThen)).append
        (analysedBranch settings elseBranch _ he).toWalk
        (sitedBranch settings elseBranch _ he (hthen.ribs.trans hribsThen))
  | .while condition body, a, _, h, hribs => by
    obtain ⟨hc, hb, -⟩ := h
    have hbody := body.analysed settings (condition.analyse settings a).enterLoop hb
    exact (condition.sited settings a hc hribs).append hbody.loop.toWalk
      ((body.sited settings (condition.analyse settings a).enterLoop hb
        ((condition.analysed settings a hc).ribs.trans hribs)).before (.quiet fun h => ⟨h, rfl⟩))
  | .for initializer condition update body, a, known, h, hribs => by
    obtain ⟨hi, hc, hu, hb, -⟩ := h
    let opened := a.openScope (.clauses initializer condition update body)
    let begun := analyseBranch settings initializer opened
    let tested := analyseOptional settings condition begun
    let updated := analyseOptional settings update tested
    have hribsOpened : opened.ribs = .bare (.clauses initializer condition update body) :: known := by
      rw [ribs_openScope, hribs]
    have hbegun := analysedBranch settings initializer opened hi
    have htested := analysedOptional settings condition begun hc
    have hupdated := analysedOptional settings update tested hu
    have hbody := body.analysed settings updated.enterLoop hb
    have hribsBegun := hbegun.ribs.trans (congrArg _ hribsOpened)
    have hribsTested := htested.ribs.trans hribsBegun
    have hribsUpdated := hupdated.ribs.trans hribsTested
    have hheader := ((sitedBranch settings initializer opened hi hribsOpened).append
      htested.toWalk (sitedOptional settings condition begun hc hribsBegun)).append
        hupdated.toWalk (sitedOptional settings update tested hu hribsTested)
    exact (hheader.append hbody.loop.toWalk
      ((body.sited settings updated.enterLoop hb hribsUpdated).before
        (.quiet fun h => ⟨h, rfl⟩))).before Analysed.closeScope.toWalk
  | .break _, _, _, _, _ | .continue _, _, _, _, _ | .return _ none, _, _, _, _ => .nil
  | .assert _ condition message, a, _, h, hribs =>
    (condition.sited settings a h.1 hribs).append (analysedOptional settings message _ h.2.1).toWalk
      (sitedOptional settings message _ h.2.1 ((condition.analysed settings a h.1).ribs.trans hribs))
  | .function decl, a, _, h, hribs =>
    decl.sited settings .function _ h
      ((declareReady_eq settings .function decl.name a).1.trans (congrArg _ hribs))
  | .return keyword (some value), a, _, h, hribs => by
    have hreturn : Analysed id a (a.checkReturn keyword) [] [] := .checked
    have hvalued : Analysed id (a.checkReturn keyword)
        ((a.checkReturn keyword).checkReturnValue keyword) [] [] := .checked
    exact value.sited settings _ h (hvalued.ribs.trans (hreturn.ribs.trans hribs))
  | .class decl, a, _, h, hribs => decl.sited settings a h hribs

theorem sitedBranch (settings : Settings) : ∀ (s : Option Stmt) (a : Analysis) {ribs : List Rib},
    RegularBranch s → a.ribs = ribs →
    Sited (analyseBranch settings s a) (visitsOfBranch settings s a) (referencesOfBranch s)
      (sitesOfBranch s ribs)
  | none, _, _, _, _ => .nil
  | some s, a, _, h, hribs => s.sited settings a h hribs

theorem sitedBody (settings : Settings) : ∀ (ss : List Stmt) (a : Analysis) {ribs : List Rib},
    RegularBody ss → a.ribs = ribs →
    Sited (analyseBody settings ss a) (visitsOfBody settings ss a) (referencesOfBody ss)
      (sitesOfBody ss ribs)
  | [], _, _, _, _ => .nil
  | s :: ss, a, _, h, hribs =>
    (s.sited settings a h.1 hribs).append (analysedBody settings ss _ h.2.1).toWalk
      (sitedBody settings ss _ h.2.1 ((s.analysed settings a h.1).ribs.trans (congrArg _ hribs)))

theorem FunctionDecl.sited (settings : Settings) (role : FunctionRole) :
    ∀ (d : FunctionDecl) (a : Analysis) {ribs : List Rib}, d.Regular → a.ribs = ribs →
    Sited (d.analyse settings role a) (d.visits settings role a) d.references (d.sites ribs)
  | ⟨_, params, body⟩, a, _, h, hribs =>
    .function (sitedBody settings body _ h.1
      ((ribs_openFunction role params body a).trans (congrArg _ hribs)))

theorem sitedStatics (settings : Settings) : ∀ (ds : List FunctionDecl) (a : Analysis)
    {ribs : List Rib}, RegularFunctions ds → a.ribs = ribs →
    Sited (analyseStatics settings ds a) (visitsOfStatics settings ds a) (referencesOfFunctions ds)
      (sitesOfFunctions ds ribs)
  | [], _, _, _, _ => .nil
  | d :: ds, a, _, h, hribs => by
    have hcheck : Analysed id a (a.checkNoInitializer d.name .staticInitializer) [] [] := .checked
    have hribsChecked := hcheck.ribs.trans hribs
    exact (d.sited settings .method _ h.1 hribsChecked).append
      (analysedStatics settings ds _ h.2.1).toWalk (sitedStatics settings ds _ h.2.1
        ((d.analysed settings .method _ h.1).ribs.trans hribsChecked))

theorem sitedMethods (settings : Settings) : ∀ (ds : List FunctionDecl) (a : Analysis)
    {ribs : List Rib}, RegularFunctions ds → a.ribs = ribs →
    Sited (analyseMethods settings ds a) (visitsOfMethods settings ds a) (referencesOfFunctions ds)
      (sitesOfFunctions ds ribs)
  | [], _, _, _, _ => .nil
  | d :: ds, a, _, h, hribs =>
    (d.sited settings (methodRole d.name) a h.1 hribs).append
      (analysedMethods settings ds _ h.2.1).toWalk (sitedMethods settings ds _ h.2.1
        ((d.analysed settings (methodRole d.name) a h.1).ribs.trans hribs))

theorem sitedGetters (settings : Settings) : ∀ (ds : List FunctionDecl) (a : Analysis)
    {ribs : List Rib}, RegularFunctions ds → a.ribs = ribs →
    Sited (analyseGetters settings ds a) (visitsOfGetters settings ds a) (referencesOfFunctions ds)
      (sitesOfFunctions ds ribs)
  | [], _, _, _, _ => .nil
  | d :: ds, a, _, h, hribs => by
    have hcheck : Analysed id a (a.checkNoInitializer d.name .getterInitializer) [] [] := .checked
    have hribsChecked := hcheck.ribs.trans hribs
    exact (d.sited settings .method _ h.1 hribsChecked).append
      (analysedGetters settings ds _ h.2.1).toWalk (sitedGetters settings ds _ h.2.1
        ((d.analysed settings .method _ h.1).ribs.trans hribsChecked))

theorem ClassDecl.sited (settings : Settings) : ∀ (d : ClassDecl) (a : Analysis) {ribs : List Rib},
    d.Regular → a.ribs = ribs →
    Sited (d.analyse settings a) (d.visits settings a) d.references
      (d.sites (declaring (some (d.name, .class)) ribs))
  | ⟨name, base, methods, statics, getters⟩, a, known, h, hribs => by
    obtain ⟨hbase, -, hm, hs, hg, -⟩ := h
    let named := a.nameClass settings name
    let based := analyseBase settings name base named
    let outer := analyseStatics settings statics based
    let inner := outer.openReceiver ⟨name, base, methods, statics, getters⟩
    have hribsNamed : named.ribs = declaring (some (name, .class)) known :=
      (declareReady_eq settings .class name (a.enterClass .root)).1.trans (congrArg _ hribs)
    obtain ⟨role, hb⟩ := analysedBase settings name base named hbase
    have hribsBased := hb.ribs.trans hribsNamed
    have hstatics := analysedStatics settings statics based hs
    have hribsOuter := hstatics.ribs.trans hribsBased
    have hreceiver := Analysed.openReceiver (a := outer) ⟨name, base, methods, statics, getters⟩
    have hribsInner := hreceiver.ribs.trans (congrArg _ hribsOuter)
    have hmethods := analysedMethods settings methods inner hm
    have hgetters := analysedGetters settings getters (analyseMethods settings methods inner) hg
    have houter := (sitedBase hbase hribsNamed).append hstatics.toWalk
      (sitedStatics settings statics based hs hribsBased)
    have hmembers := (sitedMethods settings methods inner hm hribsInner).append hgetters.toWalk
      (sitedGetters settings getters _ hg (hmethods.ribs.trans hribsInner))
    have hclosed : Walk (analyseGetters settings getters (analyseMethods settings methods inner))
        (ClassDecl.analyse settings ⟨name, base, methods, statics, getters⟩ a) [] [] :=
      .quiet fun h => ⟨(closeScope_eq settings _).2.2.2 ▸ h, (closeScope_eq settings _).2.2.1⟩
    refine ((houter.append ((hmethods.toWalk.trans hgetters.toWalk).after hreceiver.toWalk)
      hmembers).before hclosed).reorder fun r => ?_
    simp only [ClassDecl.references, List.mem_append]
    tauto

end

/-! ## The table -/

theorem Site.LeadsTo.of_visit {site : Site} {v : Visit} {hops : Nat}
    (hkey : v.key = (site.reference.id, site.reference.token, site.ribs))
    (hhops : v.hops? = some hops)
    (hmutable : site.reference.kind = .assign →
      ∃ hops binding, v.binding? = some (hops, binding) ∧ binding.isMutable = true) :
    site.LeadsTo hops := by
  obtain ⟨⟨kind, id, token⟩, ribs⟩ := site
  cases hkey
  obtain ⟨⟨rib, status, hrib, hstatus⟩, hnearest⟩ := Rib.exists_of_hops? hhops
  refine ⟨⟨rib, status, hrib, hstatus, fun hkind => ?_⟩, hnearest⟩
  obtain ⟨_, binding, hbinding, hwritable⟩ := hmutable hkind
  have hsame := hhops
  rw [v.hops?_eq, hbinding] at hsame
  cases hsame
  obtain ⟨rib', hrib', hstatus'⟩ := Visit.exists_rib_of_binding? rfl hbinding
  cases hrib.symm.trans hrib'
  cases hstatus.symm.trans hstatus'
  exact hwritable

namespace Resolver

variable {settings : Settings} {log : Log} {program : List Stmt} {r : Resolver} {table : Distances}

/-- The table of an accepted program leads from each of its nodes that name a binding to the
innermost scope that has the name by then, and from no others. -/
theorem distances_of_sites (source : String) (interactive : Bool) (firstId : NodeId)
    (hparsed : (Parse.program interactive firstId (scan source).1).statements = some program)
    (h : (r.resolve settings log program).distances = some table) :
    (∀ reference ∈ referencesOfBody program,
        ∃ site ∈ sitesOfBody program (ribsOf r.scopes), site.reference = reference) ∧
      (∀ site ∈ sitesOfBody program (ribsOf r.scopes),
        ∃ hops, table[site.reference.id]? = some hops ∧ site.LeadsTo hops) ∧
      ∀ id hops, table[id]? = some hops →
        ∃ reference ∈ referencesOfBody program, reference.id = id := by
  have hregular : RegularBody program := (Parse.program_made (spelled_scan source) hparsed).regular
  have hsited := sitedBody settings program (r.opening log) hregular rfl
  have haccepted := (accepted h).1
  refine ⟨fun reference hreference => (hsited.covers reference).mp hreference, ?_, ?_⟩
  · intro site hsite
    obtain ⟨v, hv, hkey, hmutable⟩ := hsited.visited site hsite
    obtain ⟨hops, hhops, hentry⟩ := getElem?_of_visit hregular h v hv
    rw [show v.id = site.reference.id from congrArg Prod.fst hkey] at hentry
    exact ⟨hops, hentry, .of_visit hkey hhops (hmutable haccepted)⟩
  · intro id hops hentry
    by_contra hnone
    rw [getElem?_of_not_visited hregular h] at hentry
    · cases hentry
    · intro v hv heq
      obtain ⟨reference, hreference, hid⟩ :=
        (analysedBody settings program (r.opening log) hregular).origin v hv
      exact hnone ⟨reference, hreference, hid.trans heq⟩

/-- A method that assigns to a property by way of its old value, so that its object is visited
twice. -/
theorem distances_of_sites_in_class : ∃ program table,
    (Parse.program false 0
        (scan "class Sum \x7b add(n) \x7b this.total += n; return this; \x7d \x7d").1).statements =
      some program ∧
      ((Resolver.ofGlobals (.globals ["clock"])).resolve {} {} program).distances = some table ∧
      (∀ reference ∈ referencesOfBody program,
        ∃ site ∈ sitesOfBody program (ribsOf (Resolver.ofGlobals (.globals ["clock"])).scopes),
          site.reference = reference) ∧
      (∀ site ∈ sitesOfBody program (ribsOf (Resolver.ofGlobals (.globals ["clock"])).scopes),
        ∃ hops, table[site.reference.id]? = some hops ∧ site.LeadsTo hops) ∧
      ∀ id hops, table[id]? = some hops →
        ∃ reference ∈ referencesOfBody program, reference.id = id := by
  let source := "class Sum \x7b add(n) \x7b this.total += n; return this; \x7d \x7d"
  let r := Resolver.ofGlobals (.globals ["clock"])
  have hparses : (Parse.program false 0 (scan source).1).statements.isSome = true := by
    decide +kernel
  have hresolves : (Parse.program false 0 (scan source).1).statements.any
      (fun program => (r.resolve {} {} program).distances.isSome) = true := by decide +kernel
  obtain ⟨program, hparsed⟩ := Option.isSome_iff_exists.mp hparses
  rw [hparsed] at hresolves
  obtain ⟨table, htable⟩ := Option.isSome_iff_exists.mp hresolves
  exact ⟨program, table, hparsed, htable, distances_of_sites source false 0 hparsed htable⟩

end Resolver

end LoxLang
