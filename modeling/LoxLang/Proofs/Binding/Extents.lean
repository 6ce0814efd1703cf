import LoxLang.Proofs.Binding.Sites
import LoxLang.Proofs.Syntax.Alike
import Mathlib.Data.List.Sort

/-!
# Extents

The scopes that a program opens, read off the syntax in the order in which they are closed, each with
what is declared in it and the nodes inside that name bindings (`Stmt.extents`). The object of a
property that is assigned to by way of its old value stands twice in the tree, and so do the scopes
of the functions inside.
-/

namespace LoxLang

/-! ## What a scope declares and what uses it -/

/-- A scope that a construct opens. The one in which methods find their object declares nothing and
does not count. -/
structure Extent where
  /-- The number of scopes around it. -/
  depth : Nat
  /-- What is declared in it, in the order of the tree. -/
  declared : List (Token × DeclarationKind)
  /-- The nodes inside that name bindings. -/
  sites : List Site

namespace Site

/-- Whether the node is a variable or an assignment, and no keyword. -/
def isUse (site : Site) : Bool :=
  site.reference.kind == .variable || site.reference.kind == .assign

/-- Whether the node has the name and the scope that it is led to has so many scopes around it. -/
def hits (site : Site) (found : Option Nat) (depth : Nat) (name : String) : Bool :=
  site.name == name && found.any fun hops => depth + hops + 1 == site.ribs.length

/-- How many scopes out the name of the node is first found. -/
def hops? (site : Site) : Option Nat := Rib.hops? site.name site.ribs

end Site

/-- A declaration as a scope lists it. -/
def listed (declaration : Token × DeclarationKind) : String × Token × DeclarationKind :=
  (declaration.1.lexeme, declaration)

namespace Extent

/-- Whether a table leads a variable or an assignment inside to the name in this scope. -/
def uses (table : Distances) (extent : Extent) (name : String) : Bool :=
  extent.sites.any fun site => site.isUse && site.hits table[site.reference.id]? extent.depth name

/-- What is declared here and used by no node, in the order of the source. -/
def unused (table : Distances) (extent : Extent) : List (String × Token × DeclarationKind) :=
  ((extent.declared.filter fun d => !extent.uses table d.1.lexeme).map listed).insertionSort
    fun entry other => entry.2.1.span.start ≤ other.2.1.span.start

end Extent

/-! ## The scopes of a tree -/

/-- What statements declare in the scope that they stand in. -/
def declaredBy (body : List Stmt) : List (Token × DeclarationKind) :=
  body.filterMap Stmt.declaration?

/-- What a function declares in its scope. -/
def declaredIn (params : List Token) (body : List Stmt) : List (Token × DeclarationKind) :=
  params.map (fun param => (param, .parameter)) ++ declaredBy body

mutual

def Expr.extents : Expr → List Rib → List Extent
  | .literal _, _ => []
  | .grouping inner, ribs => inner.extents ribs
  | .unary _ right, ribs => right.extents ribs
  | .binary left _ right, ribs => left.extents ribs ++ right.extents ribs
  | .logical left _ right, ribs => left.extents ribs ++ right.extents ribs
  | .ternary condition _ thenBranch elseBranch, ribs =>
    condition.extents ribs ++ thenBranch.extents ribs ++ elseBranch.extents ribs
  | .variable _ _, _ => []
  | .assign _ _ value, ribs => value.extents ribs
  | .call callee _ arguments, ribs => callee.extents ribs ++ extentsOfEach arguments ribs
  | .get object _, ribs => object.extents ribs
  | .set object _ value, ribs => value.extents ribs ++ object.extents ribs
  | .this _ _, _ => []
  | .super _ _ _, _ => []
  | .arrow decl, ribs => decl.extents ribs

def ArrowDecl.extents : ArrowDecl → List Rib → List Extent
  | ⟨arrow, params, body⟩, ribs =>
    extentsOfBody body (parameterRib params body :: ribs) ++
      [⟨ribs.length, declaredIn params body, ArrowDecl.sites ⟨arrow, params, body⟩ ribs⟩]

def extentsOfEach : List Expr → List Rib → List Extent
  | [], _ => []
  | e :: es, ribs => e.extents ribs ++ extentsOfEach es ribs

def extentsOfOptional : Option Expr → List Rib → List Extent
  | none, _ => []
  | some e, ribs => e.extents ribs

def Stmt.extents : Stmt → List Rib → List Extent
  | .expression value, ribs => value.extents ribs
  | .print value, ribs => value.extents ribs
  | .println value, ribs => value.extents ribs
  | .var name initializer, ribs => extentsOfOptional initializer (beginning name .variable ribs)
  | .const name initializer, ribs => initializer.extents (beginning name .constant ribs)
  | .block body, ribs =>
    extentsOfBody body (.bare (.block body) :: ribs) ++
      [⟨ribs.length, declaredBy body, (Stmt.block body).sites ribs⟩]
  | .ifElse condition thenBranch elseBranch, ribs =>
    condition.extents ribs ++ thenBranch.extents ribs ++ extentsOfBranch elseBranch ribs
  | .while condition body, ribs => condition.extents ribs ++ body.extents ribs
  | .for initializer condition update body, ribs =>
    let opened := .bare (.clauses initializer condition update body) :: ribs
    let begun := growBranch initializer opened
    extentsOfBranch initializer opened ++ extentsOfOptional condition begun ++
      extentsOfOptional update begun ++ body.extents begun ++
      [⟨ribs.length, (initializer.bind Stmt.declaration?).toList,
        (Stmt.for initializer condition update body).sites ribs⟩]
  | .break _, _ => []
  | .continue _, _ => []
  | .assert _ condition message, ribs => condition.extents ribs ++ extentsOfOptional message ribs
  | .function decl, ribs => decl.extents (declaring (some (decl.name, .function)) ribs)
  | .return _ value, ribs => extentsOfOptional value ribs
  | .class decl, ribs => decl.extents (declaring (some (decl.name, .class)) ribs)

def extentsOfBranch : Option Stmt → List Rib → List Extent
  | none, _ => []
  | some s, ribs => s.extents ribs

def extentsOfBody : List Stmt → List Rib → List Extent
  | [], _ => []
  | s :: ss, ribs => s.extents ribs ++ extentsOfBody ss (s.grow ribs)

def FunctionDecl.extents : FunctionDecl → List Rib → List Extent
  | ⟨name, params, body⟩, ribs =>
    extentsOfBody body (parameterRib params body :: ribs) ++
      [⟨ribs.length, declaredIn params body, FunctionDecl.sites ⟨name, params, body⟩ ribs⟩]

def extentsOfFunctions : List FunctionDecl → List Rib → List Extent
  | [], _ => []
  | d :: ds, ribs => d.extents ribs ++ extentsOfFunctions ds ribs

/-- The base and the static methods of a class stand outside the scope of its object. -/
def ClassDecl.extents : ClassDecl → List Rib → List Extent
  | ⟨name, base, methods, statics, getters⟩, ribs =>
    let inner := receiverRib ⟨name, base, methods, statics, getters⟩ :: ribs
    extentsOfOptional base ribs ++ extentsOfFunctions statics ribs ++
      (extentsOfFunctions methods inner ++ extentsOfFunctions getters inner)

end

/-! ## The tokens of declarations -/

/-- Every token that is declared in these scopes corresponds to some token. -/
def Extent.Carried (l : Likeness) (extents : List Extent) : Prop :=
  ∀ extent ∈ extents, ∀ d ∈ extent.declared, ∃ t, l.token d.1 t

namespace Extent.Carried

variable {l : Likeness} {extents extents' : List Extent}

theorem nil : Carried l [] := fun _ h => absurd h List.not_mem_nil

theorem append (h : Carried l extents) (h' : Carried l extents') :
    Carried l (extents ++ extents') :=
  List.forall_mem_append.mpr ⟨h, h'⟩

theorem closed (h : Carried l extents) {extent : Extent}
    (hdeclared : ∀ d ∈ extent.declared, ∃ t, l.token d.1 t) : Carried l (extents ++ [extent]) :=
  h.append (List.forall_mem_singleton.mpr hdeclared)

end Extent.Carried

section Alike

variable {l : Likeness}

theorem Stmt.Alike.exists_token {s s' : Stmt} (h : Stmt.Alike l s s') :
    ∀ d ∈ s.declaration?, ∃ t, l.token d.1 t := by
  intro d hd
  cases h with
  | var hname _ | const hname _ =>
    cases hd
    exact ⟨_, hname⟩
  | function h =>
    cases hd
    exact ⟨_, h.name⟩
  | «class» h =>
    cases h with
    | mk hname =>
      cases hd
      exact ⟨_, hname⟩
  | _ => cases hd

theorem AlikeBody.exists_token {ss ss' : List Stmt} (h : AlikeBody l ss ss') :
    ∀ d ∈ declaredBy ss, ∃ t, l.token d.1 t := by
  intro d hd
  induction ss generalizing ss' with
  | nil => cases hd
  | cons first rest ih =>
    cases h with
    | cons hfirst hrest =>
      obtain ⟨s, hs, hdeclared⟩ := List.mem_filterMap.mp hd
      rcases List.mem_cons.mp hs with rfl | hs
      · exact hfirst.exists_token d hdeclared
      · exact ih hrest (List.mem_filterMap.mpr ⟨s, hs, hdeclared⟩)

theorem AlikeBranch.exists_token {s s' : Option Stmt} (h : AlikeBranch l s s') :
    ∀ d ∈ (s.bind Stmt.declaration?).toList, ∃ t, l.token d.1 t := by
  intro d hd
  cases h with
  | none => cases hd
  | some h => exact h.exists_token d (Option.mem_toList.mp hd)

theorem exists_token_of_declaredIn {params params' : List Token} {body body' : List Stmt}
    (hparams : List.Forall₂ l.token params params') (hbody : AlikeBody l body body') :
    ∀ d ∈ declaredIn params body, ∃ t, l.token d.1 t := by
  refine List.forall_mem_append.mpr ⟨?_, hbody.exists_token⟩
  intro d hd
  obtain ⟨param, hparam, rfl⟩ := List.mem_map.mp hd
  induction hparams with
  | nil => cases hparam
  | cons hfirst _ ih =>
    rcases List.mem_cons.mp hparam with rfl | hparam
    · exact ⟨_, hfirst⟩
    · exact ih hparam (List.mem_map_of_mem hparam)

open Extent

mutual

theorem Expr.Alike.carried : ∀ {e e' : Expr}, Expr.Alike l e e' → ∀ ribs,
    Carried l (e.extents ribs)
  | _, _, .literal _, _ => .nil
  | _, _, .grouping h, ribs => h.carried ribs
  | _, _, .unary _ hr, ribs => hr.carried ribs
  | _, _, .binary hl _ hr, ribs => (hl.carried ribs).append (hr.carried ribs)
  | _, _, .logical hl _ hr, ribs => (hl.carried ribs).append (hr.carried ribs)
  | _, _, .ternary hc _ ht he, ribs =>
    ((hc.carried ribs).append (ht.carried ribs)).append (he.carried ribs)
  | _, _, .variable _ _, _ => .nil
  | _, _, .assign _ _ hv, ribs => hv.carried ribs
  | _, _, .call hc _ ha, ribs => (hc.carried ribs).append (ha.carried ribs)
  | _, _, .get ho _, ribs => ho.carried ribs
  | _, _, .set ho _ hv, ribs => (hv.carried ribs).append (ho.carried ribs)
  | _, _, .this _ _, _ => .nil
  | _, _, .super _ _ _, _ => .nil
  | _, _, .arrow h, ribs => h.carried ribs

theorem ArrowDecl.Alike.carried : ∀ {d d' : ArrowDecl}, ArrowDecl.Alike l d d' → ∀ ribs,
    Carried l (d.extents ribs)
  | _, _, .mk _ hp hb, _ => (hb.carried _).closed (exists_token_of_declaredIn hp hb)

theorem AlikeEach.carried : ∀ {es es' : List Expr}, AlikeEach l es es' → ∀ ribs,
    Carried l (extentsOfEach es ribs)
  | _, _, .nil, _ => .nil
  | _, _, .cons h hes, ribs => (h.carried ribs).append (hes.carried ribs)

theorem AlikeOptional.carried : ∀ {e e' : Option Expr}, AlikeOptional l e e' → ∀ ribs,
    Carried l (extentsOfOptional e ribs)
  | _, _, .none, _ => .nil
  | _, _, .some h, ribs => h.carried ribs

theorem Stmt.Alike.carried : ∀ {s s' : Stmt}, Stmt.Alike l s s' → ∀ ribs,
    Carried l (s.extents ribs)
  | _, _, .expression h, ribs => h.carried ribs
  | _, _, .print h, ribs => h.carried ribs
  | _, _, .println h, ribs => h.carried ribs
  | _, _, .var _ hi, _ => hi.carried _
  | _, _, .const _ hi, _ => hi.carried _
  | _, _, .block h, _ => (h.carried _).closed h.exists_token
  | _, _, .ifElse hc ht he, ribs =>
    ((hc.carried ribs).append (ht.carried ribs)).append (he.carried ribs)
  | _, _, .while hc hb, ribs => (hc.carried ribs).append (hb.carried ribs)
  | _, _, .for hi hc hu hb, _ =>
    ((((hi.carried _).append (hc.carried _)).append (hu.carried _)).append (hb.carried _)).closed
      hi.exists_token
  | _, _, .break _, _ => .nil
  | _, _, .continue _, _ => .nil
  | _, _, .assert _ hc hm, ribs => (hc.carried ribs).append (hm.carried ribs)
  | _, _, .function h, _ => h.carried _
  | _, _, .return _ hv, ribs => hv.carried ribs
  | _, _, .class h, _ => h.carried _

theorem AlikeBranch.carried : ∀ {s s' : Option Stmt}, AlikeBranch l s s' → ∀ ribs,
    Carried l (extentsOfBranch s ribs)
  | _, _, .none, _ => .nil
  | _, _, .some h, ribs => h.carried ribs

theorem AlikeBody.carried : ∀ {ss ss' : List Stmt}, AlikeBody l ss ss' → ∀ ribs,
    Carried l (extentsOfBody ss ribs)
  | _, _, .nil, _ => .nil
  | _, _, .cons h hss, ribs => (h.carried ribs).append (hss.carried _)

theorem FunctionDecl.Alike.carried : ∀ {d d' : FunctionDecl}, FunctionDecl.Alike l d d' → ∀ ribs,
    Carried l (d.extents ribs)
  | _, _, .mk _ hp hb, _ => (hb.carried _).closed (exists_token_of_declaredIn hp hb)

theorem AlikeFunctions.carried : ∀ {ds ds' : List FunctionDecl}, AlikeFunctions l ds ds' →
    ∀ ribs, Carried l (extentsOfFunctions ds ribs)
  | _, _, .nil, _ => .nil
  | _, _, .cons h hds, ribs => (h.carried ribs).append (hds.carried ribs)

theorem ClassDecl.Alike.carried : ∀ {d d' : ClassDecl}, ClassDecl.Alike l d d' → ∀ ribs,
    Carried l (d.extents ribs)
  | _, _, .mk _ hb hm hs hg, ribs =>
    ((hb.carried ribs).append (hs.carried ribs)).append ((hm.carried _).append (hg.carried _))

end

end Alike

end LoxLang
