import LoxLang.Proofs.Binding.Accepted
import LoxLang.Proofs.Binding.Roles

/-!
# Parts of accepted programs

A part of a program fits ribs if it was accepted at a point where the open scopes showed these ribs
(`Expr.Fits`, `Stmt.Fits`). What fits falls apart into parts that fit: those of an expression fit
the same ribs, and those of a statement fit the ribs of the scopes that it opens.
-/

namespace LoxLang

open Analysis

/-- What is on record about the programs accepted so far. -/
structure Record where
  settings : Settings
  visited : Visit → Prop

/-- A part of an accepted program: the analysis found no fault up to behind it, and its visits are
on record. -/
structure Ready (record : Record) (regular : Prop) (behind : Analysis) (visits : List Visit) :
    Prop where
  regular : regular
  accepted : behind.failed = false
  visited : ∀ v ∈ visits, record.visited v

namespace Ready

variable {record : Record} {p q : Prop} {a b : Analysis} {vs ws : List Visit} {rs : List Reference}

/-- The part before a step that comes to no node. -/
theorem before (h : Ready record p b vs) (hstep : Walk a b [] []) : Ready record p a vs :=
  ⟨h.regular, hstep.sound h.accepted, h.visited⟩

/-- The former of two parts. -/
theorem left (h : Ready record p b (vs ++ ws)) (hp : p → q) (hwalk : Walk a b ws rs) :
    Ready record q a vs :=
  ⟨hp h.regular, hwalk.sound h.accepted, fun v hv => h.visited v (List.mem_append_left _ hv)⟩

/-- The latter of two parts. -/
theorem right (h : Ready record p b (vs ++ ws)) (hp : p → q) : Ready record q b ws :=
  ⟨hp h.regular, h.accepted, fun v hv => h.visited v (List.mem_append_right _ hv)⟩

/-- What is regular is so part by part. -/
theorem imp (h : Ready record p b vs) (hp : p → q) : Ready record q b vs :=
  ⟨hp h.regular, h.accepted, h.visited⟩

theorem widen {record' : Record} (h : Ready record p b vs)
    (hvisited : ∀ v, record.visited v → record'.visited v) : Ready record' p b vs :=
  ⟨h.regular, h.accepted, fun v hv => hvisited v (h.visited v hv)⟩

end Ready

section Fits

variable (record : Record)

def Expr.Fits (e : Expr) (ribs : List Rib) : Prop :=
  ∃ a : Analysis, a.ribs = ribs ∧
    Ready record e.Regular (e.analyse record.settings a) (e.visits record.settings a)

def EachFits (es : List Expr) (ribs : List Rib) : Prop :=
  ∃ a : Analysis, a.ribs = ribs ∧
    Ready record (RegularEach es) (analyseEach record.settings es a)
      (visitsOfEach record.settings es a)

def OptionalFits (e : Option Expr) (ribs : List Rib) : Prop :=
  ∃ a : Analysis, a.ribs = ribs ∧
    Ready record (RegularOptional e) (analyseOptional record.settings e a)
      (visitsOfOptional record.settings e a)

def Stmt.Fits (s : Stmt) (ribs : List Rib) : Prop :=
  ∃ a : Analysis, a.ribs = ribs ∧
    Ready record s.Regular (s.analyse record.settings a) (s.visits record.settings a)

def BranchFits (s : Option Stmt) (ribs : List Rib) : Prop :=
  ∃ a : Analysis, a.ribs = ribs ∧
    Ready record (RegularBranch s) (analyseBranch record.settings s a)
      (visitsOfBranch record.settings s a)

def BodyFits (ss : List Stmt) (ribs : List Rib) : Prop :=
  ∃ a : Analysis, a.ribs = ribs ∧
    Ready record (RegularBody ss) (analyseBody record.settings ss a)
      (visitsOfBody record.settings ss a)

/-- A function inside the scopes that the ribs show. -/
structure FunctionFits (params : List Token) (body : List Stmt) (ribs : List Rib) : Prop where
  body : BodyFits record body (parameterRib params body :: ribs)
  distinct : (params.map Token.lexeme).Nodup

/-- A node that was visited where the scopes showed of its name what the ribs show. -/
def NodeFits (id : NodeId) (name : Token) (ribs : List Rib) : Prop :=
  ∃ v, record.visited v ∧ v.id = id ∧ v.name = name ∧ v.views = Rib.views name.lexeme ribs

end Fits

variable {record : Record} {ribs : List Rib}

/-- More programs on record. -/
theorem FunctionFits.widen {record' : Record} {params : List Token} {body : List Stmt}
    (h : FunctionFits record params body ribs) (hsettings : record'.settings = record.settings)
    (hvisited : ∀ v, record.visited v → record'.visited v) :
    FunctionFits record' params body ribs := by
  obtain ⟨⟨a, hribs, hready⟩, hdistinct⟩ := h
  refine ⟨⟨a, hribs, ?_⟩, hdistinct⟩
  rw [hsettings]
  exact hready.widen hvisited

/-! ## Parts of expressions -/

namespace Expr.Fits

theorem binary {left right : Expr} {operator : Token}
    (h : (Expr.binary left operator right).Fits record ribs) :
    left.Fits record ribs ∧ right.Fits record ribs := by
  obtain ⟨a, hribs, hready⟩ := h
  have hl := hready.regular.1
  have hr := hready.regular.2.1
  exact ⟨⟨a, hribs, hready.left And.left (right.analysed _ _ hr).toWalk⟩,
    ⟨_, (left.analysed _ a hl).ribs.trans hribs, hready.right (·.2.1)⟩⟩

theorem logical {left right : Expr} {operator : Token}
    (h : (Expr.logical left operator right).Fits record ribs) :
    left.Fits record ribs ∧ right.Fits record ribs :=
  binary (show (Expr.binary left operator right).Fits record ribs from h)

theorem ternary {condition thenBranch elseBranch : Expr} {question : Token}
    (h : (Expr.ternary condition question thenBranch elseBranch).Fits record ribs) :
    condition.Fits record ribs ∧ thenBranch.Fits record ribs ∧ elseBranch.Fits record ribs := by
  obtain ⟨a, hribs, hready⟩ := h
  obtain ⟨hc, ht, he, -⟩ := hready.regular
  have hfirst := (condition.analysed record.settings a hc).ribs.trans hribs
  have hsecond := (thenBranch.analysed record.settings _ ht).ribs.trans hfirst
  have hboth := hready.left (fun h => (⟨h.1, h.2.1⟩ : _ ∧ _)) (elseBranch.analysed _ _ he).toWalk
  exact ⟨⟨a, hribs, hboth.left And.left (thenBranch.analysed _ _ ht).toWalk⟩,
    ⟨_, hfirst, hboth.right And.right⟩, ⟨_, hsecond, hready.right (·.2.2.1)⟩⟩

theorem node {id : NodeId} {name : Token} {e : Expr} (h : e.Fits record ribs)
    (hvisits : ∀ settings a, e.visits settings a = [⟨id, name, a.scopes⟩]) :
    NodeFits record id name ribs := by
  obtain ⟨a, hribs, hready⟩ := h
  rw [hvisits] at hready
  exact ⟨_, hready.visited _ (List.mem_singleton_self _), rfl, rfl, congrArg _ hribs⟩

theorem assign {id : NodeId} {name : Token} {value : Expr}
    (h : (Expr.assign id name value).Fits record ribs) :
    value.Fits record ribs ∧ NodeFits record id name ribs := by
  obtain ⟨a, hribs, hready⟩ := h
  have hv := hready.regular.1
  let valued := value.analyse record.settings a
  have hnode : Analysed _ valued (valued.refer id name .write) _ [⟨.assign, id, name⟩] := .refer rfl
  exact ⟨⟨a, hribs, hready.left And.left hnode.toWalk⟩,
    ⟨_, hready.visited _ (List.mem_append_right _ (List.mem_singleton_self _)), rfl, rfl,
      congrArg _ ((value.analysed record.settings a hv).ribs.trans hribs)⟩⟩

theorem call {callee : Expr} {paren : Token} {arguments : List Expr}
    (h : (Expr.call callee paren arguments).Fits record ribs) :
    callee.Fits record ribs ∧ EachFits record arguments ribs := by
  obtain ⟨a, hribs, hready⟩ := h
  have hc := hready.regular.1
  have hargs := hready.regular.2.1
  exact ⟨⟨a, hribs, hready.left And.left (analysedEach _ arguments _ hargs).toWalk⟩,
    ⟨_, (callee.analysed _ a hc).ribs.trans hribs, hready.right (·.2.1)⟩⟩

theorem set {object value : Expr} {name : Token}
    (h : (Expr.set object name value).Fits record ribs) :
    object.Fits record ribs ∧ value.Fits record ribs := by
  obtain ⟨a, hribs, hready⟩ := h
  have ho := hready.regular.1
  have hv := hready.regular.2.1
  exact ⟨⟨_, (value.analysed _ a hv).ribs.trans hribs, hready.right And.left⟩,
    ⟨a, hribs, hready.left (·.2.1) (object.analysed _ _ ho).toWalk⟩⟩

end Expr.Fits

theorem EachFits.cons {e : Expr} {es : List Expr} (h : EachFits record (e :: es) ribs) :
    e.Fits record ribs ∧ EachFits record es ribs := by
  obtain ⟨a, hribs, hready⟩ := h
  have he := hready.regular.1
  have hes := hready.regular.2.1
  exact ⟨⟨a, hribs, hready.left And.left (analysedEach _ es _ hes).toWalk⟩,
    ⟨_, (e.analysed _ a he).ribs.trans hribs, hready.right (·.2.1)⟩⟩

theorem walk_leaveLoop (a : Analysis) : Walk a a.leaveLoop [] [] :=
  .quiet fun h => ⟨h, rfl⟩

theorem walk_closeFunction (settings : Settings) (outside : Surroundings) (a : Analysis) :
    Walk a (a.closeFunction settings outside) [] [] :=
  have h : Walk a (a.closeScope settings) [] [] := Analysed.closeScope.toWalk
  ⟨h.sound, h.found, h.distances, h.origin⟩

theorem walk_closeClass (settings : Settings) (outside : Surroundings) (a : Analysis) :
    Walk a (a.closeClass settings outside) [] [] :=
  have h : Walk a (a.closeScope settings) [] [] := Analysed.closeScope.toWalk
  ⟨h.sound, h.found, h.distances, h.origin⟩

/-- Parameters that the analysis accepts have names of their own, which are new in their scope. -/
theorem nodup_of_declareParameters {settings : Settings} {a : Analysis} {rib : Rib}
    {outer : List Rib} {params : List Token} (hribs : a.ribs = rib :: outer)
    (h : (a.declareParameters settings params).failed = false) :
    (params.map Token.lexeme).Nodup ∧ ∀ p ∈ params, rib.status p.lexeme = none := by
  induction params generalizing a rib with
  | nil => exact ⟨.nil, fun _ hp => nomatch hp⟩
  | cons param params ih =>
    have hnext : (a.declareReady settings .parameter param).ribs =
        rib.set param.lexeme ⟨true, true⟩ :: outer := by
      rw [(declareReady_eq _ _ _ _).1, hribs]
      rfl
    obtain ⟨hrest, hnew⟩ := ih hnext h
    have hparam := (declares_eq_false hribs).mp
      (declares_of_declareReady ((Analysed.declareParameters params).sound h))
    have hother : ∀ p ∈ params, param.lexeme ≠ p.lexeme := fun p hp heq => by
      have hset := hnew p hp
      rw [← heq, Rib.set_status_self] at hset
      cases hset
    refine ⟨List.nodup_cons.mpr ⟨fun hmem => ?_, hrest⟩, fun p hp => ?_⟩
    · obtain ⟨p, hp, heq⟩ := List.mem_map.mp hmem
      exact hother p hp heq.symm
    · rcases List.mem_cons.mp hp with rfl | hp
      · exact hparam
      · exact (Rib.set_status_of_ne _ _ (hother p hp)).symm.trans (hnew p hp)

/-- A function whose body is accepted with its parameters. -/
theorem functionFits_of_opened {a : Analysis} {role : FunctionRole} {params : List Token}
    {body : List Stmt} (hribs : a.ribs = ribs)
    (h : Ready record (RegularBody body)
      (analyseBody record.settings body (a.openFunction record.settings role params body))
      (visitsOfBody record.settings body (a.openFunction record.settings role params body))) :
    FunctionFits record params body ribs where
  body := ⟨_, by rw [Analysed.ribs_openFunction, hribs], h⟩
  distinct :=
    have hopened : (a.openFunction record.settings role params body).failed = false :=
      (analysedBody record.settings body _ h.regular).sound h.accepted
    (nodup_of_declareParameters (a := (a.enterFunction role).openScope (.parameters params body))
      rfl hopened).1

theorem FunctionDecl.fits {a : Analysis} {role : FunctionRole} {d : FunctionDecl}
    (hribs : a.ribs = ribs)
    (h : Ready record d.Regular (d.analyse record.settings role a)
      (d.visits record.settings role a)) : FunctionFits record d.params d.body ribs := by
  obtain ⟨_, params, body⟩ := d
  exact functionFits_of_opened hribs ((h.imp And.left).before (walk_closeFunction _ _ _))

theorem Expr.Fits.arrow {decl : ArrowDecl} (h : (Expr.arrow decl).Fits record ribs) :
    FunctionFits record decl.params decl.body ribs := by
  obtain ⟨arrow, params, body⟩ := decl
  obtain ⟨a, hribs, hready⟩ := h
  exact functionFits_of_opened hribs ((hready.imp And.left).before (walk_closeFunction _ _ _))

/-! ## Parts of statements -/

/-- The rib of a scope in which a declaration has begun. -/
def beginning (name : Token) (kind : DeclarationKind) : List Rib → List Rib :=
  Rib.onHead (·.set name.lexeme ⟨kind.isMutable, false⟩)

namespace Stmt.Fits

/-- The name that a statement declares is new in its scope. -/
theorem fresh {s : Stmt} {rib : Rib} {outer : List Rib} (h : s.Fits record (rib :: outer))
    {name : Token} {kind : DeclarationKind} (hname : s.declaration? = some (name, kind)) :
    rib.status name.lexeme = none := by
  obtain ⟨a, hribs, hready⟩ := h
  exact (declares_eq_false hribs).mp (s.declares_fresh hready.regular hready.accepted hname)

theorem var {name : Token} {initializer : Expr}
    (h : (Stmt.var name (some initializer)).Fits record ribs) :
    initializer.Fits record (beginning name .variable ribs) := by
  obtain ⟨a, hribs, hready⟩ := h
  refine ⟨a.declare record.settings .variable name, ?_,
    ((hready.imp And.left).before Analysed.define.toWalk).before Analysed.markReady.toWalk⟩
  rw [(declare_eq _ _ _ _).1, hribs, beginning]

theorem const {name : Token} {initializer : Expr}
    (h : (Stmt.const name initializer).Fits record ribs) :
    initializer.Fits record (beginning name .constant ribs) := by
  obtain ⟨a, hribs, hready⟩ := h
  refine ⟨a.declare record.settings .constant name, ?_,
    ((hready.imp And.left).before Analysed.define.toWalk).before Analysed.markReady.toWalk⟩
  rw [(declare_eq _ _ _ _).1, hribs, beginning]

theorem block {body : List Stmt} (h : (Stmt.block body).Fits record ribs) :
    BodyFits record body (.bare (.block body) :: ribs) := by
  obtain ⟨a, hribs, hready⟩ := h
  exact ⟨a.openScope (.block body), congrArg (_ :: ·) hribs,
    hready.before Analysed.closeScope.toWalk⟩

theorem ifElse {condition : Expr} {thenBranch : Stmt} {elseBranch : Option Stmt}
    (h : (Stmt.ifElse condition thenBranch elseBranch).Fits record ribs) :
    condition.Fits record ribs ∧ (thenBranch.Fits record ribs ∧ thenBranch.declaration? = none) ∧
      ∀ s ∈ elseBranch, s.Fits record ribs ∧ s.declaration? = none := by
  obtain ⟨a, hribs, hready⟩ := h
  obtain ⟨hc, ht, he, hpt, hpe, -⟩ := hready.regular
  have hfirst := (condition.analysed record.settings a hc).ribs.trans hribs
  have hthen := thenBranch.analysed record.settings (condition.analyse record.settings a) ht
  have hsecond := hthen.ribs.trans (congrFun (Stmt.grow_of_plain hpt) _) |>.trans hfirst
  have hboth := hready.left (fun h => (⟨h.1, h.2.1⟩ : _ ∧ _)) (analysedBranch _ elseBranch _ he).toWalk
  refine ⟨⟨a, hribs, hboth.left And.left hthen.toWalk⟩, ⟨⟨_, hfirst, hboth.right And.right⟩, hpt⟩,
    fun s hs => ⟨?_, hpe s hs⟩⟩
  cases hs
  exact ⟨_, hsecond, hready.right (·.2.2.1)⟩

theorem «while» {condition : Expr} {body : Stmt} (h : (Stmt.while condition body).Fits record ribs) :
    condition.Fits record ribs ∧ body.Fits record ribs ∧ body.declaration? = none := by
  obtain ⟨a, hribs, hready⟩ := h
  obtain ⟨hc, hb, hp, -⟩ := hready.regular
  let entered := (condition.analyse record.settings a).enterLoop
  have hbody := (body.analysed record.settings entered hb).loop
  exact ⟨⟨a, hribs, hready.left And.left hbody.toWalk⟩,
    ⟨entered, (condition.analysed record.settings a hc).ribs.trans hribs,
      (hready.right (·.2.1)).before (walk_leaveLoop _)⟩, hp⟩

theorem «for» {initializer : Option Stmt} {condition update : Option Expr} {body : Stmt}
    (h : (Stmt.for initializer condition update body).Fits record ribs) :
    let opened := Rib.bare (.clauses initializer condition update body) :: ribs
    BranchFits record initializer opened ∧
      OptionalFits record condition (growBranch initializer opened) ∧
      OptionalFits record update (growBranch initializer opened) ∧
      body.Fits record (growBranch initializer opened) ∧ body.declaration? = none := by
  obtain ⟨a, hribs, hready⟩ := h
  obtain ⟨hi, hc, hu, hb, hp, -⟩ := hready.regular
  let opened := a.openScope (.clauses initializer condition update body)
  let begun := analyseBranch record.settings initializer opened
  let tested := analyseOptional record.settings condition begun
  let updated := analyseOptional record.settings update tested
  have hopened : opened.ribs = .bare (.clauses initializer condition update body) :: ribs :=
    congrArg (_ :: ·) hribs
  have hbegun : begun.ribs = growBranch initializer _ :=
    (analysedBranch record.settings initializer opened hi).ribs.trans (by rw [hopened])
  have htested := (analysedOptional record.settings condition begun hc).ribs.trans hbegun
  have hupdated := (analysedOptional record.settings update tested hu).ribs.trans htested
  have hall := hready.before (a := (body.analyse record.settings updated.enterLoop).leaveLoop)
    Analysed.closeScope.toWalk
  have hbody := (body.analysed record.settings updated.enterLoop hb).loop
  have hheader := hall.left (fun h => (⟨⟨h.1, h.2.1⟩, h.2.2.1⟩ : (_ ∧ _) ∧ _)) hbody.toWalk
  have hclauses := hheader.left And.left (analysedOptional _ update tested hu).toWalk
  exact ⟨⟨opened, hopened, hclauses.left And.left (analysedOptional _ condition begun hc).toWalk⟩,
    ⟨begun, hbegun, hclauses.right And.right⟩, ⟨tested, htested, hheader.right And.right⟩,
    ⟨updated.enterLoop, hupdated, (hall.right (·.2.2.2.1)).before (walk_leaveLoop _)⟩, hp⟩

theorem assert {keyword : Token} {condition : Expr} {message : Option Expr}
    (h : (Stmt.assert keyword condition message).Fits record ribs) :
    condition.Fits record ribs ∧ OptionalFits record message ribs := by
  obtain ⟨a, hribs, hready⟩ := h
  have hc := hready.regular.1
  have hm := hready.regular.2.1
  exact ⟨⟨a, hribs, hready.left And.left (analysedOptional _ message _ hm).toWalk⟩,
    ⟨_, (condition.analysed _ a hc).ribs.trans hribs, hready.right (·.2.1)⟩⟩

theorem «return» {keyword : Token} {value : Expr}
    (h : (Stmt.return keyword (some value)).Fits record ribs) : value.Fits record ribs := by
  obtain ⟨a, hribs, hready⟩ := h
  have hchecked : Analysed id a ((a.checkReturn keyword).checkReturnValue keyword) [] [] :=
    Analysed.checked.andThen .checked
  exact ⟨_, hchecked.ribs.trans hribs, hready⟩

theorem function {decl : FunctionDecl} (h : (Stmt.function decl).Fits record ribs) :
    FunctionFits record decl.params decl.body ((Stmt.function decl).grow ribs) := by
  obtain ⟨a, hribs, hready⟩ := h
  refine decl.fits (a := a.declareReady record.settings .function decl.name) ?_ hready
  rw [(declareReady_eq _ _ _ _).1, hribs]
  rfl

end Stmt.Fits

theorem BodyFits.cons {s : Stmt} {ss : List Stmt} (h : BodyFits record (s :: ss) ribs) :
    s.Fits record ribs ∧ BodyFits record ss (s.grow ribs) := by
  obtain ⟨a, hribs, hready⟩ := h
  have hs := hready.regular.1
  have hss := hready.regular.2.1
  exact ⟨⟨a, hribs, hready.left And.left (analysedBody _ ss _ hss).toWalk⟩,
    ⟨_, (s.analysed _ a hs).ribs.trans (by rw [hribs]), hready.right (·.2.1)⟩⟩

/-! ## Parts of classes -/

section Class

variable {ds : List FunctionDecl} {a : Analysis}

/-- The functions of a class, each inside the scopes of all. -/
def FunctionsFit (record : Record) (ds : List FunctionDecl) (ribs : List Rib) : Prop :=
  ∀ d ∈ ds, FunctionFits record d.params d.body ribs

theorem functionsFit_of_statics (hribs : a.ribs = ribs)
    (h : Ready record (RegularFunctions ds) (analyseStatics record.settings ds a)
      (visitsOfStatics record.settings ds a)) : FunctionsFit record ds ribs := by
  induction ds generalizing a with
  | nil => exact fun _ hd => nomatch hd
  | cons d ds ih =>
    have hd := h.regular.1
    have hds := h.regular.2.1
    let checked := a.checkNoInitializer d.name .staticInitializer
    have hchecked : checked.ribs = ribs := Analysed.checked.ribs.trans hribs
    have hfirst := h.left And.left (analysedStatics record.settings ds _ hds).toWalk
    exact List.forall_mem_cons.mpr ⟨d.fits hchecked hfirst,
      ih ((d.analysed record.settings .method checked hd).ribs.trans hchecked) (h.right (·.2.1))⟩

theorem functionsFit_of_methods (hribs : a.ribs = ribs)
    (h : Ready record (RegularFunctions ds) (analyseMethods record.settings ds a)
      (visitsOfMethods record.settings ds a)) : FunctionsFit record ds ribs := by
  induction ds generalizing a with
  | nil => exact fun _ hd => nomatch hd
  | cons d ds ih =>
    have hd := h.regular.1
    have hds := h.regular.2.1
    have hfirst := h.left And.left (analysedMethods record.settings ds _ hds).toWalk
    exact List.forall_mem_cons.mpr ⟨d.fits hribs hfirst,
      ih ((d.analysed record.settings _ a hd).ribs.trans hribs) (h.right (·.2.1))⟩

theorem functionsFit_of_getters (hribs : a.ribs = ribs)
    (h : Ready record (RegularFunctions ds) (analyseGetters record.settings ds a)
      (visitsOfGetters record.settings ds a)) : FunctionsFit record ds ribs := by
  induction ds generalizing a with
  | nil => exact fun _ hd => nomatch hd
  | cons d ds ih =>
    have hd := h.regular.1
    have hds := h.regular.2.1
    let checked := a.checkNoInitializer d.name .getterInitializer
    have hchecked : checked.ribs = ribs := Analysed.checked.ribs.trans hribs
    have hfirst := h.left And.left (analysedGetters record.settings ds _ hds).toWalk
    exact List.forall_mem_cons.mpr ⟨d.fits hchecked hfirst,
      ih ((d.analysed record.settings .method checked hd).ribs.trans hchecked) (h.right (·.2.1))⟩

theorem ne_of_checkOwnBase {name baseName : Token} {node : NodeId}
    (h : (a.checkOwnBase name (.variable node baseName)).failed = false) :
    name.lexeme ≠ baseName.lexeme := by
  intro heq
  rw [Analysis.checkOwnBase, if_pos heq.symm] at h
  cases h

/-- A method or getter, which is inside of its class and of the scope of an object. -/
structure MemberFits (record : Record) (decl : ClassDecl) (d : FunctionDecl) (ribs : List Rib) :
    Prop extends FunctionFits record d.params d.body (receiverRib decl :: ribs) where
  accepted : BodyAcceptedIn record.settings decl.role d.body

theorem MemberFits.widen {record' : Record} {decl : ClassDecl} {d : FunctionDecl}
    (h : MemberFits record decl d ribs) (hsettings : record'.settings = record.settings)
    (hvisited : ∀ v, record.visited v → record'.visited v) : MemberFits record' decl d ribs :=
  ⟨h.toFunctionFits.widen hsettings hvisited, hsettings ▸ h.accepted⟩

/-- A class. Its name is declared for its members; the base has another name, which the
declaration does not touch. -/
structure ClassFits (record : Record) (decl : ClassDecl) (ribs : List Rib) : Prop where
  base : ∀ e ∈ decl.base, ∃ id name, e = .variable id name ∧ NodeFits record id name ribs
  statics : FunctionsFit record decl.statics ((Stmt.class decl).grow ribs)
  methods : ∀ d ∈ decl.methods, MemberFits record decl d ((Stmt.class decl).grow ribs)
  getters : ∀ d ∈ decl.getters, MemberFits record decl d ((Stmt.class decl).grow ribs)
  bare : ∀ d ∈ decl.getters, d.params = []

theorem Stmt.Fits.class {decl : ClassDecl} (h : (Stmt.class decl).Fits record ribs) :
    ClassFits record decl ribs := by
  obtain ⟨name, base, methods, statics, getters⟩ := decl
  obtain ⟨a, hribs, hready⟩ := h
  obtain ⟨hbase, hbare, hm, hs, hg, -⟩ := hready.regular
  let decl : ClassDecl := ⟨name, base, methods, statics, getters⟩
  let named := a.nameClass record.settings name
  let based := analyseBase record.settings name base named
  let outer := analyseStatics record.settings statics based
  let inner := outer.openReceiver decl
  let ended := analyseMethods record.settings methods inner
  obtain ⟨role, hwayBase⟩ := analysedBase record.settings name base named hbase
  have hwayStatics := analysedStatics record.settings statics based hs
  have hwayInner : Analysed _ outer inner [] [] := .openReceiver decl
  have hwayMethods := analysedMethods record.settings methods inner hm
  have hwayGetters := analysedGetters record.settings getters ended hg
  have hnamed : named.ribs = (Stmt.class decl).grow ribs := by
    rw [← hribs]
    exact (declareReady_eq _ _ _ _).1
  have hbased : based.ribs = (Stmt.class decl).grow ribs := hwayBase.ribs.trans hnamed
  have hinner : inner.ribs = receiverRib decl :: (Stmt.class decl).grow ribs :=
    hwayInner.ribs.trans (congrArg (_ :: ·) (hwayStatics.ribs.trans hbased))
  have hall := hready.before (walk_closeClass record.settings a.around _)
  have houter := (hall.left (fun _ => trivial) (hwayMethods.trans hwayGetters).toWalk).before
    hwayInner.toWalk
  have hmembers := hall.right (fun _ => trivial)
  have hmethods := hmembers.left (fun _ => hm) hwayGetters.toWalk
  have hgetters := hmembers.right (fun _ => hg)
  have hfitMethods := functionsFit_of_methods hinner hmethods
  have hfitGetters := functionsFit_of_getters (hwayMethods.ribs.trans hinner) hgetters
  have hnaming : Analysed _ (a.enterClass .root) named [] [] := .declareReady
  have hrole : inner.around.classRole = decl.role := hwayInner.keepsRole
    (hwayStatics.keepsRole (decl.role_of_base hbase (hnaming.keepsRole rfl)))
  refine ⟨fun e he => ?_, functionsFit_of_statics hbased (houter.right fun _ => hs),
    fun d hd => ⟨hfitMethods d hd, acceptedIn_of_methods hm hrole hmethods.accepted d hd⟩,
    fun d hd => ⟨hfitGetters d hd,
      acceptedIn_of_getters hg (hwayMethods.keepsRole hrole) hgetters.accepted d hd⟩, hbare⟩
  cases he
  have hfound := houter.left (fun _ => trivial) hwayStatics.toWalk
  obtain ⟨node, baseName, rfl⟩ := hbase e rfl
  let found := (named.checkOwnBase name (.variable node baseName)).enterClass .derived
  have hwayFound : Walk found based _ _ :=
    ((Expr.variable node baseName).analysed record.settings found trivial).toWalk
  have hribsFound : found.ribs = (Stmt.class decl).grow ribs :=
    (Analysed.checkOwnBase.ribs (b := named.checkOwnBase name (.variable node baseName))).trans hnamed
  refine ⟨node, baseName, rfl, _, hfound.visited _ (List.mem_singleton_self _), rfl, rfl, ?_⟩
  rw [Visit.views, Visit.ribs]
  have hother : name.lexeme ≠ baseName.lexeme :=
    ne_of_checkOwnBase (hwayFound.sound hfound.accepted)
  exact (congrArg _ hribsFound).trans (Rib.views_onHead_set hother _ _)

end Class

end LoxLang
