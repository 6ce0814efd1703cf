import LoxLang.Proofs.Binding.Visit

/-!
# The way of an analysis through a tree

Behind an expression the open scopes and the surroundings are as before it; a statement adds to the
innermost scope the name that it declares itself, ready for use (`Expr.analysed`, `Stmt.analysed`).
-/

namespace LoxLang

open Analysis

/-! ## Names that statements declare -/

/-- The ribs behind a statement that declares a name. -/
def declaring : Option (Token × DeclarationKind) → List Rib → List Rib
  | none => id
  | some (name, kind) => Rib.onHead (·.set name.lexeme ⟨kind.isMutable, true⟩)

def Stmt.grow (s : Stmt) : List Rib → List Rib :=
  declaring s.declaration?

def growBody : List Stmt → List Rib → List Rib
  | [] => id
  | s :: ss => growBody ss ∘ s.grow

theorem tail_declaring (declaration : Option (Token × DeclarationKind)) (ribs : List Rib) :
    (declaring declaration ribs).tail = ribs.tail := by
  rcases declaration with _ | ⟨name, kind⟩
  · rfl
  · exact Rib.tail_onHead _ _

@[simp] theorem tail_growBody (body : List Stmt) (ribs : List Rib) :
    (growBody body ribs).tail = ribs.tail := by
  induction body generalizing ribs with
  | nil => rfl
  | cons s ss ih => exact (ih _).trans (tail_declaring _ _)

def growBranch : Option Stmt → List Rib → List Rib
  | none => id
  | some s => s.grow

theorem tail_growBranch (s : Option Stmt) (ribs : List Rib) :
    (growBranch s ribs).tail = ribs.tail := by
  cases s with
  | none => rfl
  | some s => exact tail_declaring _ _

theorem Stmt.grow_of_plain {s : Stmt} (h : s.declaration? = none) : s.grow = id := by
  rw [grow, h]
  rfl

theorem growBranch_of_plain {s : Option Stmt} (h : ∀ t ∈ s, t.declaration? = none) :
    growBranch s = id := by
  cases s with
  | none => rfl
  | some s => exact Stmt.grow_of_plain (h s rfl)

/-- The rib of a function's parameters. -/
def parameterRib (params : List Token) (body : List Stmt) : Rib :=
  params.foldl (fun rib param => rib.set param.lexeme ⟨true, true⟩) (.bare (.parameters params body))

/-- The rib in which methods find their object. -/
def receiverRib (decl : ClassDecl) : Rib :=
  let this := (Rib.bare (.receiver decl)).set "this" ⟨false, true⟩
  if decl.base.isSome then this.set "super" ⟨false, true⟩ else this

/-! ## Ways -/

/-- A walk that ends in the surroundings in which it began, with the scopes as `grow` says. -/
structure Analysed (grow : List Rib → List Rib) (a b : Analysis) (visits : List Visit)
    (references : List Reference) : Prop extends Walk a b visits references where
  ribs : b.ribs = grow a.ribs
  around : b.around = a.around

namespace Analysed

variable {grow grow' : List Rib → List Rib} {a b c : Analysis} {visits visits' : List Visit}
  {references references' : List Reference} {settings : Settings}

theorem quiet (hribs : b.ribs = grow a.ribs) (haround : b.around = a.around)
    (h : b.failed = false → a.failed = false ∧ b.distances = a.distances) :
    Analysed grow a b [] [] :=
  ⟨.quiet h, hribs, haround⟩

theorem refl : Analysed id a a [] [] := ⟨.refl, rfl, rfl⟩

theorem trans (h1 : Analysed grow a b visits references)
    (h2 : Analysed grow' b c visits' references') :
    Analysed (grow' ∘ grow) a c (visits ++ visits') (references ++ references') :=
  ⟨h1.toWalk.trans h2.toWalk, by rw [h2.ribs, h1.ribs]; rfl, h2.around.trans h1.around⟩

theorem after (h2 : Analysed grow' b c visits references) (h1 : Analysed grow a b [] []) :
    Analysed (grow' ∘ grow) a c visits references := h1.trans h2

theorem andThen (h1 : Analysed grow a b visits references) (h2 : Analysed grow' b c [] []) :
    Analysed (grow' ∘ grow) a c visits references := by
  simpa using h1.trans h2

theorem within (h : Analysed grow a b visits references)
    (hsub : ∀ r ∈ references, r ∈ references') : Analysed grow a b visits references' :=
  ⟨h.toWalk.within hsub, h.ribs, h.around⟩

theorem congr (h : Analysed grow a b visits references) (heq : grow a.ribs = grow' a.ribs) :
    Analysed grow' a b visits references :=
  ⟨h.toWalk, h.ribs.trans heq, h.around⟩

theorem fail {cause : StaticFault} {token : Token} : Analysed id a (a.fail cause token) [] [] :=
  .quiet rfl rfl fun h => nomatch h

theorem refer {node : NodeId} {name : Token} {access : Access} {r : Reference}
    (hr : r.id = node) :
    Analysed id a (a.refer node name access) [⟨node, name, a.scopes⟩] [r] where
  sound h := (distances_refer h).1
  found h v hv := by
    obtain ⟨-, hops, hfound, -⟩ := distances_refer h
    cases List.mem_singleton.mp hv
    exact ⟨hops, hfound⟩
  distances h := by
    obtain ⟨-, hops, hfound, hdist⟩ := distances_refer h
    have hnote : (⟨node, name, a.scopes⟩ : Visit).hops? = some hops := hfound
    rw [List.foldl_cons, List.foldl_nil, Visit.note, hnote, hdist]
  origin v hv := by
    cases List.mem_singleton.mp hv
    exact ⟨r, List.mem_singleton_self _, hr⟩
  ribs := (refer_eq node name access a).1
  around := (refer_eq node name access a).2

/-- A node whose name is refused before it is looked up. -/
theorem refused {node : NodeId} {name : Token} {cause : StaticFault} {token : Token}
    {r : Reference} (hr : r.id = node) :
    Analysed id a (a.fail cause token) [⟨node, name, a.scopes⟩] [r] where
  sound h := nomatch h
  found h := nomatch h
  distances h := nomatch h
  origin v hv := by
    cases List.mem_singleton.mp hv
    exact ⟨r, List.mem_singleton_self _, hr⟩
  ribs := rfl
  around := rfl

theorem referVariable {node : NodeId} {name : Token} :
    Analysed id a (a.referVariable node name) [⟨node, name, a.scopes⟩]
      [⟨.variable, node, name⟩] := by
  unfold Analysis.referVariable
  split
  · exact .refused rfl
  · exact .refer rfl

theorem referThis {node : NodeId} {keyword : Token} :
    Analysed id a (a.referThis node keyword) [⟨node, keyword, a.scopes⟩]
      [⟨.this, node, keyword⟩] := by
  unfold Analysis.referThis
  split
  · exact .refused rfl
  · exact .refer rfl

theorem referSuper {node : NodeId} {keyword : Token} :
    Analysed id a (a.referSuper node keyword) [⟨node, keyword, a.scopes⟩]
      [⟨.super, node, keyword⟩] := by
  unfold Analysis.referSuper
  split
  · exact .refused rfl
  · exact .refused rfl
  · exact .refer rfl

/-! ### Steps that come to no node -/

theorem declare {kind : DeclarationKind} {name : Token} :
    Analysed (Rib.onHead (·.set name.lexeme ⟨kind.isMutable, false⟩)) a
      (a.declare settings kind name) [] [] := by
  obtain ⟨hr, ha, hd, hf⟩ := declare_eq settings kind name a
  refine .quiet hr ha fun h => ⟨?_, hd⟩
  rw [hf, Bool.or_eq_false_iff] at h
  exact h.1

theorem declareReady {kind : DeclarationKind} {name : Token} :
    Analysed (declaring (some (name, kind))) a (a.declareReady settings kind name) [] [] := by
  obtain ⟨hr, ha, hd, hf⟩ := declareReady_eq settings kind name a
  refine .quiet hr ha fun h => ⟨?_, hd⟩
  rw [hf, Bool.or_eq_false_iff] at h
  exact h.1

theorem markReady {name : Token} : Analysed id a (a.markReady name) [] [] :=
  .quiet (ribs_markReady name) (modifyInnermost_eq _ _).1 fun h =>
    ⟨(modifyInnermost_eq _ _).2.2 ▸ h, (modifyInnermost_eq _ _).2.1⟩

theorem define {name : Token} :
    Analysed (Rib.onHead (·.define name.lexeme)) a (a.define name) [] [] :=
  .quiet (ribs_define name) (modifyInnermost_eq _ _).1 fun h =>
    ⟨(modifyInnermost_eq _ _).2.2 ▸ h, (modifyInnermost_eq _ _).2.1⟩

theorem openScope {kind : ScopeKind} :
    Analysed (.bare kind :: ·) a (a.openScope kind) [] [] :=
  .quiet rfl rfl fun h => ⟨h, rfl⟩

theorem closeScope : Analysed List.tail a (a.closeScope settings) [] [] := by
  obtain ⟨-, ha, hd, hf⟩ := closeScope_eq settings a
  exact .quiet ribs_closeScope ha fun h => ⟨hf ▸ h, hd⟩

theorem checked {ok : Prop} [Decidable ok] {cause : StaticFault} {token : Token} :
    Analysed id a (if ok then a.fail cause token else a) [] [] := by
  split
  · exact .fail
  · exact .refl

theorem checkOwnBase {name : Token} {base : Expr} :
    Analysed id a (a.checkOwnBase name base) [] [] := by
  unfold Analysis.checkOwnBase
  split
  · exact .checked
  · exact .refl

theorem declareParameters (params : List Token) :
    Analysed (Rib.onHead fun rib =>
        params.foldl (fun rib param => rib.set param.lexeme ⟨true, true⟩) rib)
      a (a.declareParameters settings params) [] [] := by
  induction params generalizing a with
  | nil => exact refl.congr (Rib.onHead_eq_self (fun _ => rfl) _).symm
  | cons param rest ih =>
    have hparam : Analysed _ a (a.declareReady settings .parameter param) [] [] := .declareReady
    exact (ih.after hparam).congr (Rib.onHead_onHead _ _ _)

theorem openReceiver (decl : ClassDecl) :
    Analysed (receiverRib decl :: ·) a (a.openReceiver decl) [] [] := by
  unfold Analysis.openReceiver receiverRib
  split
  · refine .quiet (by simp [StaticBinding.status, StaticBinding.provided]) ?_ fun h => ⟨?_, ?_⟩
    · simp [enter_eq, Analysis.openScope]
    · simpa [enter_eq, Analysis.openScope] using h
    · simp [enter_eq, Analysis.openScope]
  · refine .quiet (by simp [StaticBinding.status, StaticBinding.provided]) ?_ fun h => ⟨?_, ?_⟩
    · simp [enter_eq, Analysis.openScope]
    · simpa [enter_eq, Analysis.openScope] using h
    · simp [enter_eq, Analysis.openScope]

/-! ### Constructs -/

theorem declaredWith {kind : DeclarationKind} {name : Token}
    (h : Analysed id (a.declare settings kind name) b visits references) :
    Analysed (declaring (some (name, kind))) a (b.define name) visits references := by
  refine ((h.after declare).andThen define).congr ?_
  show Rib.onHead _ (Rib.onHead _ a.ribs) = Rib.onHead _ a.ribs
  simp only [Rib.onHead_onHead, Rib.define_set]

theorem scope {kind : ScopeKind} (htail : ∀ ribs, (grow ribs).tail = ribs.tail)
    (h : Analysed grow (a.openScope kind) b visits references) :
    Analysed id a (b.closeScope settings) visits references :=
  ((h.after openScope).andThen closeScope).congr (htail _)

theorem loop (h : Analysed grow a.enterLoop b visits references) :
    Analysed grow a b.leaveLoop visits references where
  sound := h.sound
  found := h.found
  distances := h.distances
  origin := h.origin
  ribs := h.ribs
  around := by
    show { b.around with loopDepth := b.around.loopDepth - 1 } = a.around
    rw [h.around]
    rfl

theorem function {role : FunctionRole} {params : List Token} {body : List Stmt}
    (h : Analysed (growBody body) (a.openFunction settings role params body) b visits references) :
    Analysed id a (b.closeFunction settings a.around) visits references := by
  have h' : Analysed id (a.enterFunction role) (b.closeScope settings) visits references :=
    (h.after (declareParameters params)).scope fun ribs => by simp
  exact
    { sound := h'.sound
      found := h'.found
      distances := h'.distances
      origin := h'.origin
      ribs := h'.ribs
      around := by
        show { (b.closeScope settings).around with
          functionRole := a.around.functionRole, loopDepth := a.around.loopDepth } = a.around
        rw [h'.around]
        rfl }

theorem ribs_openFunction (role : FunctionRole) (params : List Token) (body : List Stmt)
    (a : Analysis) :
    (a.openFunction settings role params body).ribs = parameterRib params body :: a.ribs :=
  (declareParameters (a := (a.enterFunction role).openScope (.parameters params body)) params).ribs

end Analysed

open Analysed

/-- The base of a class is looked up with the role of the class around it. -/
theorem analysedBase (settings : Settings) (name : Token) (base : Option Expr) (a : Analysis)
    (h : ∀ e ∈ base, ∃ id name, e = .variable id name) :
    ∃ role, Analysed id (a.enterClass role) (analyseBase settings name base a)
      (visitsOfBase settings name base a) (referencesOfOptional base) := by
  cases base with
  | none => exact ⟨a.around.classRole, .refl⟩
  | some base =>
    obtain ⟨node, baseName, rfl⟩ := h base rfl
    have hcheck : Analysed id a (a.checkOwnBase name (.variable node baseName)) [] [] :=
      .checkOwnBase
    have henter : Analysed id (a.enterClass .derived)
        ((a.checkOwnBase name (.variable node baseName)).enterClass .derived) [] [] :=
      .quiet hcheck.ribs (by simp only [enterClass, hcheck.around]) fun h =>
        ⟨hcheck.sound h, hcheck.distances h⟩
    exact ⟨.derived, referVariable.after henter⟩

/-- A class whose members have been walked through with the role that its base gives them. -/
theorem Analysed.classOf {grow : List Rib → List Rib} {a b : Analysis} {visits : List Visit}
    {references : List Reference} {settings : Settings} {name : Token} {role : ClassRole}
    (htail : ∀ ribs, (grow ribs).tail = ribs)
    (h : Analysed grow ((a.nameClass settings name).enterClass role) b visits references) :
    Analysed (declaring (some (name, .class))) a (b.closeClass settings a.around) visits
      references := by
  have hname : Analysed _ (a.enterClass .root) (a.nameClass settings name) [] [] := .declareReady
  have hclosed : Analysed (List.tail ∘ grow) _ (b.closeScope settings) visits references :=
    h.andThen .closeScope
  have hinner : Walk (a.nameClass settings name) (b.closeScope settings) visits references :=
    ⟨hclosed.sound, hclosed.found, hclosed.distances, hclosed.origin⟩
  have hwalk := hinner.after hname.toWalk
  exact
    { sound := hwalk.sound
      found := hwalk.found
      distances := hwalk.distances
      origin := hwalk.origin
      ribs := (hclosed.ribs.trans (htail _)).trans hname.ribs
      around := by
        show { (b.closeScope settings).around with classRole := a.around.classRole } = a.around
        rw [hclosed.around]
        show { (a.nameClass settings name).around with classRole := a.around.classRole } = a.around
        rw [hname.around]
        rfl }

mutual

theorem Expr.analysed (settings : Settings) : ∀ (e : Expr) (a : Analysis), e.Regular →
    Analysed id a (e.analyse settings a) (e.visits settings a) e.references
  | .literal _, _, _ => .refl
  | .grouping inner, a, h => inner.analysed settings a h
  | .unary _ right, a, h => right.analysed settings a h
  | .binary left _ right, a, h | .logical left _ right, a, h =>
    (left.analysed settings a h.1).trans (right.analysed settings _ h.2.1)
  | .ternary condition _ thenBranch elseBranch, a, h =>
    ((condition.analysed settings a h.1).trans (thenBranch.analysed settings _ h.2.1)).trans
      (elseBranch.analysed settings _ h.2.2.1)
  | .variable _ _, _, _ => .referVariable
  | .assign id name value, a, h =>
    ((value.analysed settings a h.1).trans (.refer (r := ⟨.assign, id, name⟩) rfl)).within
      (by simp [Expr.references, or_comm])
  | .call callee _ arguments, a, h =>
    (callee.analysed settings a h.1).trans (analysedEach settings arguments _ h.2.1)
  | .get object _, a, h => object.analysed settings a h
  | .set object _ value, a, h =>
    ((value.analysed settings a h.2.1).trans (object.analysed settings _ h.1)).within
      (by simp [Expr.references, or_comm])
  | .this _ _, _, _ => .referThis
  | .super _ _ _, _, _ => .referSuper
  | .arrow decl, a, h => decl.analysed settings a h

theorem ArrowDecl.analysed (settings : Settings) : ∀ (d : ArrowDecl) (a : Analysis), d.Regular →
    Analysed id a (d.analyse settings a) (d.visits settings a) d.references
  | ⟨_, _, body⟩, _, h => .function (analysedBody settings body _ h.1)

theorem analysedEach (settings : Settings) : ∀ (es : List Expr) (a : Analysis), RegularEach es →
    Analysed id a (analyseEach settings es a) (visitsOfEach settings es a) (referencesOfEach es)
  | [], _, _ => .refl
  | e :: es, a, h => (e.analysed settings a h.1).trans (analysedEach settings es _ h.2.1)

theorem analysedOptional (settings : Settings) : ∀ (e : Option Expr) (a : Analysis),
    RegularOptional e → Analysed id a (analyseOptional settings e a)
      (visitsOfOptional settings e a) (referencesOfOptional e)
  | none, _, _ => .refl
  | some e, a, h => e.analysed settings a h

theorem Stmt.analysed (settings : Settings) : ∀ (s : Stmt) (a : Analysis), s.Regular →
    Analysed s.grow a (s.analyse settings a) (s.visits settings a) s.references
  | .expression value, a, h | .print value, a, h | .println value, a, h =>
    value.analysed settings a h
  | .var _ none, _, _ => .declaredWith .refl
  | .var _ (some initializer), _, h =>
    .declaredWith ((initializer.analysed settings _ h.1).andThen .markReady)
  | .const _ initializer, _, h =>
    .declaredWith ((initializer.analysed settings _ h.1).andThen .markReady)
  | .block body, _, h => .scope (tail_growBody body) (analysedBody settings body _ h)
  | .ifElse condition thenBranch elseBranch, a, h => by
    obtain ⟨hc, ht, he, hpt, hpe, -⟩ := h
    have hthen := thenBranch.analysed settings (condition.analyse settings a) ht
    rw [Stmt.grow_of_plain hpt] at hthen
    have helse := analysedBranch settings elseBranch
      (thenBranch.analyse settings (condition.analyse settings a)) he
    rw [growBranch_of_plain hpe] at helse
    exact ((condition.analysed settings a hc).trans hthen).trans helse
  | .while condition body, a, h => by
    obtain ⟨hc, hb, hp, -⟩ := h
    have hbody := body.analysed settings (condition.analyse settings a).enterLoop hb
    rw [Stmt.grow_of_plain hp] at hbody
    exact (condition.analysed settings a hc).trans hbody.loop
  | .for initializer condition update body, a, h => by
    obtain ⟨hi, hc, hu, hb, hp, -⟩ := h
    let begun := analyseBranch settings initializer
      (a.openScope (.clauses initializer condition update body))
    let tested := analyseOptional settings condition begun
    have hbody := body.analysed settings (analyseOptional settings update tested).enterLoop hb
    rw [Stmt.grow_of_plain hp] at hbody
    have hheader := ((analysedBranch settings initializer _ hi).trans
      (analysedOptional settings condition begun hc)).trans
      (analysedOptional settings update tested hu)
    exact .scope (tail_growBranch initializer) (hheader.trans hbody.loop)
  | .break _, _, _ | .continue _, _, _ => .checked
  | .assert _ condition message, a, h =>
    (condition.analysed settings a h.1).trans (analysedOptional settings message _ h.2.1)
  | .function decl, a, h => (decl.analysed settings .function _ h).after .declareReady
  | .return _ none, _, _ => .checked
  | .return _ (some value), _, h =>
    ((value.analysed settings _ h).after .checked).after .checked
  | .class decl, a, h => decl.analysed settings a h

theorem analysedBranch (settings : Settings) : ∀ (s : Option Stmt) (a : Analysis),
    RegularBranch s → Analysed (growBranch s) a (analyseBranch settings s a)
      (visitsOfBranch settings s a) (referencesOfBranch s)
  | none, _, _ => .refl
  | some s, a, h => s.analysed settings a h

theorem analysedBody (settings : Settings) : ∀ (ss : List Stmt) (a : Analysis), RegularBody ss →
    Analysed (growBody ss) a (analyseBody settings ss a) (visitsOfBody settings ss a)
      (referencesOfBody ss)
  | [], _, _ => .refl
  | s :: ss, a, h => (s.analysed settings a h.1).trans (analysedBody settings ss _ h.2.1)

theorem FunctionDecl.analysed (settings : Settings) (role : FunctionRole) :
    ∀ (d : FunctionDecl) (a : Analysis), d.Regular →
    Analysed id a (d.analyse settings role a) (d.visits settings role a) d.references
  | ⟨_, _, body⟩, _, h => .function (analysedBody settings body _ h.1)

theorem analysedStatics (settings : Settings) : ∀ (ds : List FunctionDecl) (a : Analysis),
    RegularFunctions ds → Analysed id a (analyseStatics settings ds a)
      (visitsOfStatics settings ds a) (referencesOfFunctions ds)
  | [], _, _ => .refl
  | d :: ds, _, h =>
    ((d.analysed settings .method _ h.1).after .checked).trans (analysedStatics settings ds _ h.2.1)

theorem analysedMethods (settings : Settings) : ∀ (ds : List FunctionDecl) (a : Analysis),
    RegularFunctions ds → Analysed id a (analyseMethods settings ds a)
      (visitsOfMethods settings ds a) (referencesOfFunctions ds)
  | [], _, _ => .refl
  | d :: ds, a, h =>
    (d.analysed settings (methodRole d.name) a h.1).trans (analysedMethods settings ds _ h.2.1)

theorem analysedGetters (settings : Settings) : ∀ (ds : List FunctionDecl) (a : Analysis),
    RegularFunctions ds → Analysed id a (analyseGetters settings ds a)
      (visitsOfGetters settings ds a) (referencesOfFunctions ds)
  | [], _, _ => .refl
  | d :: ds, _, h =>
    ((d.analysed settings .method _ h.1).after .checked).trans (analysedGetters settings ds _ h.2.1)

theorem ClassDecl.analysed (settings : Settings) : ∀ (d : ClassDecl) (a : Analysis), d.Regular →
    Analysed (declaring (some (d.name, .class))) a (d.analyse settings a) (d.visits settings a)
      d.references
  | ⟨name, base, methods, statics, getters⟩, a, h => by
    obtain ⟨hbase, -, hm, hs, hg, -⟩ := h
    obtain ⟨role, hb⟩ := analysedBase settings name base (a.nameClass settings name) hbase
    let outer := analyseStatics settings statics
      (analyseBase settings name base (a.nameClass settings name))
    have hmembers := (analysedMethods settings methods
        (outer.openReceiver ⟨name, base, methods, statics, getters⟩) hm).trans
      (analysedGetters settings getters _ hg)
    have hall := (hb.trans (analysedStatics settings statics _ hs)).trans
      (hmembers.after (.openReceiver _))
    refine (classOf (fun _ => rfl) hall).within ?_
    intro r hr
    simp only [ClassDecl.references, List.mem_append] at hr ⊢
    rcases hr with (hr | hr) | hr | hr <;> simp [hr]

end

end LoxLang
