import LoxLang.Proofs.Binding.Rib
import LoxLang.Proofs.Syntax.Regular

/-!
# Visits

The points at which the static analysis comes to the nodes that name bindings, each with the scopes
that are open there. An analysis that finds no fault has found the binding of every node it came to
and has noted nothing but their distances (`Walk`).
-/

namespace LoxLang

/-- A point at which the analysis comes to a node that names a binding. -/
structure Visit where
  id : NodeId
  name : Token
  /-- The open scopes, the innermost first. -/
  scopes : List StaticScope

namespace Visit

def ribs (v : Visit) : List Rib := ribsOf v.scopes

/-- How many scopes out the name of the node is first found. -/
def hops? (v : Visit) : Option Nat := Rib.hops? v.name.lexeme v.ribs

/-- The binding that the name of the node is first found with, and how many scopes out. -/
def binding? (v : Visit) : Option (Nat × StaticBinding) :=
  Analysis.findBinding? v.name.lexeme v.scopes

theorem hops?_eq (v : Visit) : v.hops? = v.binding?.map Prod.fst := hops?_ribsOf _ _

/-- What the open scopes show of the name of the node. -/
def views (v : Visit) : List (ScopeKind × Option Status) := Rib.views v.name.lexeme v.ribs

/-- Ribs that show of the name what the open scopes show have one rib for each scope. -/
theorem exists_rib {v : Visit} {ribs : List Rib} (h : v.views = Rib.views v.name.lexeme ribs)
    {i : Nat} {scope : StaticScope} (hscope : v.scopes[i]? = some scope) :
    ∃ rib, ribs[i]? = some rib ∧ rib.kind = scope.kind ∧
      rib.status v.name.lexeme = scope.rib.status v.name.lexeme := by
  have hrib : v.ribs[i]? = some scope.rib := by
    rw [Visit.ribs, ribsOf, List.getElem?_map, hscope]
    rfl
  exact Rib.exists_of_views h hrib

/-- The rib at the distance of a binding shows it. -/
theorem exists_rib_of_binding? {v : Visit} {ribs : List Rib}
    (h : v.views = Rib.views v.name.lexeme ribs) {hops : Nat} {binding : StaticBinding}
    (hbinding : v.binding? = some (hops, binding)) :
    ∃ rib, ribs[hops]? = some rib ∧ rib.status v.name.lexeme = some binding.status := by
  obtain ⟨scope, hscope, hfind⟩ := exists_of_findBinding? hbinding
  obtain ⟨rib, hrib, -, hsame⟩ := exists_rib h hscope
  exact ⟨rib, hrib, hsame.trans (congrArg (Option.map StaticBinding.status) hfind)⟩

/-- Enter what a visit finds into a table of distances. -/
def note (distances : Distances) (v : Visit) : Distances :=
  match v.hops? with
  | some hops => distances.insert v.id hops
  | none => distances

end Visit

open Analysis

mutual

def Expr.visits (settings : Settings) : Expr → Analysis → List Visit
  | .literal _, _ => []
  | .grouping inner, a => inner.visits settings a
  | .unary _ right, a => right.visits settings a
  | .binary left _ right, a =>
    left.visits settings a ++ right.visits settings (left.analyse settings a)
  | .logical left _ right, a =>
    left.visits settings a ++ right.visits settings (left.analyse settings a)
  | .ternary condition _ thenBranch elseBranch, a =>
    condition.visits settings a ++ thenBranch.visits settings (condition.analyse settings a) ++
      elseBranch.visits settings (thenBranch.analyse settings (condition.analyse settings a))
  | .variable id name, a => [⟨id, name, a.scopes⟩]
  | .assign id name value, a =>
    value.visits settings a ++ [⟨id, name, (value.analyse settings a).scopes⟩]
  | .call callee _ arguments, a =>
    callee.visits settings a ++ visitsOfEach settings arguments (callee.analyse settings a)
  | .get object _, a => object.visits settings a
  | .set object _ value, a =>
    value.visits settings a ++ object.visits settings (value.analyse settings a)
  | .this id keyword, a => [⟨id, keyword, a.scopes⟩]
  | .super id keyword _, a => [⟨id, keyword, a.scopes⟩]
  | .arrow decl, a => decl.visits settings a

def ArrowDecl.visits (settings : Settings) : ArrowDecl → Analysis → List Visit
  | ⟨_, params, body⟩, a => visitsOfBody settings body (a.openFunction settings .function params body)

def visitsOfEach (settings : Settings) : List Expr → Analysis → List Visit
  | [], _ => []
  | e :: es, a => e.visits settings a ++ visitsOfEach settings es (e.analyse settings a)

def visitsOfOptional (settings : Settings) : Option Expr → Analysis → List Visit
  | none, _ => []
  | some e, a => e.visits settings a

def Stmt.visits (settings : Settings) : Stmt → Analysis → List Visit
  | .expression value, a => value.visits settings a
  | .print value, a => value.visits settings a
  | .println value, a => value.visits settings a
  | .var name initializer, a =>
    visitsOfOptional settings initializer (a.declare settings .variable name)
  | .const name initializer, a => initializer.visits settings (a.declare settings .constant name)
  | .block body, a => visitsOfBody settings body (a.openScope (.block body))
  | .ifElse condition thenBranch elseBranch, a =>
    condition.visits settings a ++ thenBranch.visits settings (condition.analyse settings a) ++
      visitsOfBranch settings elseBranch
        (thenBranch.analyse settings (condition.analyse settings a))
  | .while condition body, a =>
    condition.visits settings a ++ body.visits settings (condition.analyse settings a).enterLoop
  | .for initializer condition update body, a =>
    let opened := a.openScope (.clauses initializer condition update body)
    let begun := analyseBranch settings initializer opened
    let tested := analyseOptional settings condition begun
    visitsOfBranch settings initializer opened ++ visitsOfOptional settings condition begun ++
      visitsOfOptional settings update tested ++
      body.visits settings (analyseOptional settings update tested).enterLoop
  | .break _, _ => []
  | .continue _, _ => []
  | .assert _ condition message, a =>
    condition.visits settings a ++
      visitsOfOptional settings message (condition.analyse settings a)
  | .function decl, a =>
    decl.visits settings .function (a.declareReady settings .function decl.name)
  | .return _ none, _ => []
  | .return keyword (some value), a =>
    value.visits settings ((a.checkReturn keyword).checkReturnValue keyword)
  | .class decl, a => decl.visits settings a

def visitsOfBranch (settings : Settings) : Option Stmt → Analysis → List Visit
  | none, _ => []
  | some s, a => s.visits settings a

def visitsOfBody (settings : Settings) : List Stmt → Analysis → List Visit
  | [], _ => []
  | s :: ss, a => s.visits settings a ++ visitsOfBody settings ss (s.analyse settings a)

def FunctionDecl.visits (settings : Settings) (role : FunctionRole) :
    FunctionDecl → Analysis → List Visit
  | ⟨_, params, body⟩, a => visitsOfBody settings body (a.openFunction settings role params body)

def visitsOfStatics (settings : Settings) : List FunctionDecl → Analysis → List Visit
  | [], _ => []
  | d :: ds, a =>
    let checked := a.checkNoInitializer d.name .staticInitializer
    d.visits settings .method checked ++
      visitsOfStatics settings ds (d.analyse settings .method checked)

def visitsOfMethods (settings : Settings) : List FunctionDecl → Analysis → List Visit
  | [], _ => []
  | d :: ds, a =>
    d.visits settings (methodRole d.name) a ++
      visitsOfMethods settings ds (d.analyse settings (methodRole d.name) a)

def visitsOfGetters (settings : Settings) : List FunctionDecl → Analysis → List Visit
  | [], _ => []
  | d :: ds, a =>
    let checked := a.checkNoInitializer d.name .getterInitializer
    d.visits settings .method checked ++
      visitsOfGetters settings ds (d.analyse settings .method checked)

def visitsOfBase (settings : Settings) (name : Token) : Option Expr → Analysis → List Visit
  | none, _ => []
  | some base, a => base.visits settings ((a.checkOwnBase name base).enterClass .derived)

def ClassDecl.visits (settings : Settings) : ClassDecl → Analysis → List Visit
  | ⟨name, base, methods, statics, getters⟩, a =>
    let named := a.nameClass settings name
    let based := analyseBase settings name base named
    let inner := (analyseStatics settings statics based).openReceiver
      ⟨name, base, methods, statics, getters⟩
    visitsOfBase settings name base named ++ visitsOfStatics settings statics based ++
      (visitsOfMethods settings methods inner ++
        visitsOfGetters settings getters (analyseMethods settings methods inner))

end

/-! ## Walks -/

/-- What the way of an analysis from one state to another has in common, whatever it walks over: the
nodes that it visits and the tree that these come from. -/
structure Walk (a b : Analysis) (visits : List Visit) (references : List Reference) : Prop where
  /-- A fault is not forgotten. -/
  sound : b.failed = false → a.failed = false
  found : b.failed = false → ∀ v ∈ visits, ∃ hops, v.hops? = some hops
  distances : b.failed = false → b.distances = visits.foldl Visit.note a.distances
  origin : ∀ v ∈ visits, ∃ r ∈ references, r.id = v.id

namespace Walk

variable {a b c : Analysis} {visits visits' : List Visit} {references references' : List Reference}

/-- A step that comes to no node. -/
theorem quiet (h : b.failed = false → a.failed = false ∧ b.distances = a.distances) :
    Walk a b [] [] where
  sound hb := (h hb).1
  found _ _ hv := nomatch hv
  distances hb := (h hb).2
  origin _ hv := nomatch hv

theorem refl : Walk a a [] [] := quiet fun h => ⟨h, rfl⟩

theorem trans (h1 : Walk a b visits references) (h2 : Walk b c visits' references') :
    Walk a c (visits ++ visits') (references ++ references') where
  sound hc := h1.sound (h2.sound hc)
  found hc v hv := by
    rcases List.mem_append.mp hv with hv | hv
    · exact h1.found (h2.sound hc) v hv
    · exact h2.found hc v hv
  distances hc := by
    rw [h2.distances hc, h1.distances (h2.sound hc), List.foldl_append]
  origin v hv := by
    rcases List.mem_append.mp hv with hv | hv
    · obtain ⟨r, hr, hid⟩ := h1.origin v hv
      exact ⟨r, List.mem_append_left _ hr, hid⟩
    · obtain ⟨r, hr, hid⟩ := h2.origin v hv
      exact ⟨r, List.mem_append_right _ hr, hid⟩

theorem after (h : Walk b c visits references) (h1 : Walk a b [] []) :
    Walk a c visits references := h1.trans h

/-- The tree may be larger, and its nodes may stand in another order. -/
theorem within (h : Walk a b visits references) (hsub : ∀ r ∈ references, r ∈ references') :
    Walk a b visits references' :=
  { h with origin := fun v hv => let ⟨r, hr, hid⟩ := h.origin v hv; ⟨r, hsub r hr, hid⟩ }

end Walk

end LoxLang
