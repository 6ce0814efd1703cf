import LoxLang.Proofs.Binding.Rib

/-!
# Analyses that report differently

Which warnings are wanted, and what has been reported before, is without effect on what an analysis
finds: two analyses that differ only in the settings and in the log (`Analysis.Concurs`) keep the
same scopes, note the same distances and find faults at the same points (`concursBody`,
`Resolver.resolve_concurs`).
-/

namespace LoxLang

open Analysis

/-- Two analyses that differ in nothing but what they have reported. -/
structure Analysis.Concurs (a a' : Analysis) : Prop where
  scopes : a.scopes = a'.scopes
  around : a.around = a'.around
  distances : a.distances = a'.distances
  failed : a.failed = a'.failed

namespace Analysis.Concurs

variable {a a' b b' : Analysis} {settings settings' : Settings} {name : Token}

theorem refl (a : Analysis) : Concurs a a := ⟨rfl, rfl, rfl, rfl⟩

theorem symm (h : Concurs a a') : Concurs a' a :=
  ⟨h.scopes.symm, h.around.symm, h.distances.symm, h.failed.symm⟩

theorem trans (h : Concurs a a') (h' : Concurs a' b) : Concurs a b :=
  ⟨h.scopes.trans h'.scopes, h.around.trans h'.around, h.distances.trans h'.distances,
    h.failed.trans h'.failed⟩

/-- An analysis is one that concurs with it, with another log. -/
theorem relog (h : Concurs a a') : a' = { a with log := a'.log } := by
  cases a
  cases a'
  obtain ⟨rfl, rfl, rfl, rfl⟩ := h
  rfl

/-- A warning is only reported. -/
theorem warn (a : Analysis) (text : String) (token : Token) : Concurs (a.warn text token) a :=
  ⟨rfl, rfl, rfl, rfl⟩

theorem warnShadow (a : Analysis) (name : Token) (hidden : StaticBinding) :
    Concurs (a.warnShadow name hidden) a := by
  unfold Analysis.warnShadow
  split
  · exact (warn _ _ _).trans (warn _ _ _)
  · exact warn _ _ _

/-! ## Scopes -/

theorem openScope (h : Concurs a a') (kind : ScopeKind) :
    Concurs (a.openScope kind) (a'.openScope kind) :=
  ⟨congrArg (_ :: ·) h.scopes, h.around, h.distances, h.failed⟩

theorem closeScope (h : Concurs a a') :
    Concurs (closeScope settings a) (Analysis.closeScope settings' a') := by
  obtain ⟨hscopes, haround, hdistances, hfailed⟩ := closeScope_eq settings a
  obtain ⟨hscopes', haround', hdistances', hfailed'⟩ := closeScope_eq settings' a'
  refine ⟨?_, ?_, ?_, ?_⟩
  · rw [hscopes, hscopes', h.scopes]
  · rw [haround, haround', h.around]
  · rw [hdistances, hdistances', h.distances]
  · rw [hfailed, hfailed', h.failed]

theorem surround (h : Concurs a a') (change : Surroundings → Surroundings) :
    Concurs { a with around := change a.around } { a' with around := change a'.around } :=
  ⟨h.scopes, congrArg change h.around, h.distances, h.failed⟩

theorem fail (h : Concurs a a') (cause : StaticFault) (token : Token) :
    Concurs (a.fail cause token) (a'.fail cause token) :=
  ⟨h.scopes, h.around, h.distances, rfl⟩

theorem enter (h : Concurs a a') (name : String) (binding : StaticBinding) :
    Concurs (a.enter name binding) (a'.enter name binding) := by
  rw [h.relog]
  unfold Analysis.enter
  dsimp only
  split <;> exact ⟨rfl, rfl, rfl, rfl⟩

theorem modifyInnermost (h : Concurs a a') (name : String)
    (change : StaticBinding → StaticBinding) :
    Concurs (a.modifyInnermost name change) (a'.modifyInnermost name change) := by
  rw [h.relog]
  unfold Analysis.modifyInnermost
  dsimp only
  split <;> exact ⟨rfl, rfl, rfl, rfl⟩

/-! ## Declarations -/

theorem checkDeclaration (h : Concurs a a') (kind : DeclarationKind) (name : Token) :
    Concurs (a.checkDeclaration settings kind name) (a'.checkDeclaration settings' kind name) := by
  -- only the warning about a hidden name asks for the settings
  have hchecked (settings : Settings) (a : Analysis) : Concurs (a.checkDeclaration settings kind name)
      (if a.declares name.lexeme then a.fail (.redeclared kind name.lexeme) name else a) := by
    unfold Analysis.checkDeclaration
    split
    · exact refl _
    · split
      · split
        · exact warnShadow _ _ _
        · exact refl _
      · exact refl _
  refine (hchecked settings a).trans (Concurs.trans ?_ (hchecked settings' a').symm)
  have hdeclares : a.declares name.lexeme = a'.declares name.lexeme := by
    rw [Analysis.declares, Analysis.declares, h.scopes]
  rw [hdeclares]
  split
  · exact h.fail _ _
  · exact h

theorem declare (h : Concurs a a') (kind : DeclarationKind) (name : Token) :
    Concurs (a.declare settings kind name) (a'.declare settings' kind name) :=
  (h.checkDeclaration kind name).enter _ _

theorem define (h : Concurs a a') (name : Token) : Concurs (a.define name) (a'.define name) :=
  h.modifyInnermost _ _

theorem markReady (h : Concurs a a') (name : Token) :
    Concurs (a.markReady name) (a'.markReady name) :=
  h.modifyInnermost _ _

theorem declareReady (h : Concurs a a') (kind : DeclarationKind) (name : Token) :
    Concurs (a.declareReady settings kind name) (a'.declareReady settings' kind name) :=
  ((h.declare kind name).markReady name).define name

theorem declareParameters (h : Concurs a a') (params : List Token) :
    Concurs (a.declareParameters settings params) (a'.declareParameters settings' params) := by
  induction params generalizing a a' with
  | nil => exact h
  | cons param rest ih => exact ih (h.declareReady .parameter param)

/-! ## Uses -/

theorem refer (h : Concurs a a') (id : NodeId) (name : Token) (access : Access) :
    Concurs (a.refer id name access) (a'.refer id name access) := by
  rw [h.relog]
  unfold Analysis.refer
  dsimp only
  split
  · exact ⟨rfl, rfl, rfl, rfl⟩
  · split <;> exact ⟨rfl, rfl, rfl, rfl⟩

theorem referVariable (h : Concurs a a') (id : NodeId) (name : Token) :
    Concurs (a.referVariable id name) (a'.referVariable id name) := by
  have hown : a.inOwnInitializer name.lexeme = a'.inOwnInitializer name.lexeme := by
    rw [inOwnInitializer, inOwnInitializer, h.scopes]
  unfold Analysis.referVariable
  rw [hown]
  split
  · exact h.fail _ _
  · exact h.refer _ _ _

theorem referThis (h : Concurs a a') (id : NodeId) (keyword : Token) :
    Concurs (a.referThis id keyword) (a'.referThis id keyword) := by
  unfold Analysis.referThis
  rw [h.around]
  split
  · exact h.fail _ _
  · exact h.refer _ _ _

theorem referSuper (h : Concurs a a') (id : NodeId) (keyword : Token) :
    Concurs (a.referSuper id keyword) (a'.referSuper id keyword) := by
  unfold Analysis.referSuper
  rw [h.around]
  split
  · exact h.fail _ _
  · exact h.fail _ _
  · exact h.refer _ _ _

/-! ## Checks -/

/-- A check that both analyses make. -/
theorem checked (h : Concurs a a') (ok : Prop) [Decidable ok] (cause : StaticFault)
    (token : Token) :
    Concurs (if ok then a.fail cause token else a) (if ok then a'.fail cause token else a') := by
  split
  · exact h.fail _ _
  · exact h

theorem checkJump (h : Concurs a a') (keyword : Token) :
    Concurs (a.checkJump keyword) (a'.checkJump keyword) := by
  unfold Analysis.checkJump
  rw [h.around]
  exact h.checked _ _ _

theorem checkReturn (h : Concurs a a') (keyword : Token) :
    Concurs (a.checkReturn keyword) (a'.checkReturn keyword) := by
  unfold Analysis.checkReturn
  rw [h.around]
  exact h.checked _ _ _

theorem checkReturnValue (h : Concurs a a') (keyword : Token) :
    Concurs (a.checkReturnValue keyword) (a'.checkReturnValue keyword) := by
  unfold Analysis.checkReturnValue
  rw [h.around]
  exact h.checked _ _ _

theorem checkNoInitializer (h : Concurs a a') (name : Token) (cause : StaticFault) :
    Concurs (a.checkNoInitializer name cause) (a'.checkNoInitializer name cause) :=
  h.checked _ _ _

theorem checkOwnBase (h : Concurs a a') (name : Token) (base : Expr) :
    Concurs (a.checkOwnBase name base) (a'.checkOwnBase name base) := by
  unfold Analysis.checkOwnBase
  split
  · exact h.checked _ _ _
  · exact h

/-! ## Constructs -/

theorem enterClass (h : Concurs a a') (role : ClassRole) :
    Concurs (a.enterClass role) (a'.enterClass role) :=
  h.surround fun around => { around with classRole := role }

theorem nameClass (h : Concurs a a') (name : Token) :
    Concurs (a.nameClass settings name) (a'.nameClass settings' name) :=
  (h.enterClass .root).declareReady .class name

theorem openReceiver (h : Concurs a a') (decl : ClassDecl) :
    Concurs (a.openReceiver decl) (a'.openReceiver decl) := by
  have hopened := (h.openScope (.receiver decl)).enter "this" (.provided .constant)
  unfold Analysis.openReceiver
  dsimp only
  split
  · exact hopened.enter _ _
  · exact hopened

theorem openFunction (h : Concurs a a') (role : FunctionRole) (params : List Token)
    (body : List Stmt) : Concurs (a.openFunction settings role params body)
      (a'.openFunction settings' role params body) :=
  ((h.surround fun around => { around with functionRole := role, loopDepth := 0 }).openScope
    (.parameters params body)).declareParameters params

theorem closeFunction (h : Concurs a a') {outside outside' : Surroundings}
    (houtside : outside = outside') :
    Concurs (closeFunction settings outside a) (closeFunction settings' outside' a') := by
  subst houtside
  exact h.closeScope.surround fun around => { around with
    functionRole := outside.functionRole, loopDepth := outside.loopDepth }

theorem closeClass (h : Concurs a a') {outside outside' : Surroundings}
    (houtside : outside = outside') :
    Concurs (closeClass settings outside a) (closeClass settings' outside' a') := by
  subst houtside
  exact h.closeScope.surround fun around => { around with classRole := outside.classRole }

theorem enterLoop (h : Concurs a a') : Concurs a.enterLoop a'.enterLoop :=
  h.surround fun around => { around with loopDepth := around.loopDepth + 1 }

theorem leaveLoop (h : Concurs a a') : Concurs a.leaveLoop a'.leaveLoop :=
  h.surround fun around => { around with loopDepth := around.loopDepth - 1 }

end Analysis.Concurs

section

variable (settings settings' : Settings)

mutual

theorem Expr.concurs : ∀ (e : Expr) {a a' : Analysis}, Concurs a a' →
    Concurs (e.analyse settings a) (e.analyse settings' a')
  | .literal _, _, _, h => h
  | .grouping inner, _, _, h => inner.concurs h
  | .unary _ right, _, _, h => right.concurs h
  | .binary left _ right, _, _, h | .logical left _ right, _, _, h => right.concurs (left.concurs h)
  | .ternary condition _ thenBranch elseBranch, _, _, h =>
    elseBranch.concurs (thenBranch.concurs (condition.concurs h))
  | .variable id name, _, _, h => h.referVariable id name
  | .assign id name value, _, _, h => (value.concurs h).refer id name .write
  | .call callee _ arguments, _, _, h => concursEach arguments (callee.concurs h)
  | .get object _, _, _, h => object.concurs h
  | .set object _ value, _, _, h => object.concurs (value.concurs h)
  | .this id keyword, _, _, h => h.referThis id keyword
  | .super id keyword _, _, _, h => h.referSuper id keyword
  | .arrow decl, _, _, h => decl.concurs h

theorem ArrowDecl.concurs : ∀ (d : ArrowDecl) {a a' : Analysis}, Concurs a a' →
    Concurs (d.analyse settings a) (d.analyse settings' a')
  | ⟨_, params, body⟩, _, _, h =>
    (concursBody body (h.openFunction .function params body)).closeFunction h.around

theorem concursEach : ∀ (es : List Expr) {a a' : Analysis}, Concurs a a' →
    Concurs (analyseEach settings es a) (analyseEach settings' es a')
  | [], _, _, h => h
  | e :: es, _, _, h => concursEach es (e.concurs h)

theorem concursOptional : ∀ (e : Option Expr) {a a' : Analysis}, Concurs a a' →
    Concurs (analyseOptional settings e a) (analyseOptional settings' e a')
  | none, _, _, h => h
  | some e, _, _, h => e.concurs h

theorem Stmt.concurs : ∀ (s : Stmt) {a a' : Analysis}, Concurs a a' →
    Concurs (s.analyse settings a) (s.analyse settings' a')
  | .expression value, _, _, h | .print value, _, _, h | .println value, _, _, h => value.concurs h
  | .var name none, _, _, h => (h.declare .variable name).define name
  | .var name (some initializer), _, _, h =>
    ((initializer.concurs (h.declare .variable name)).markReady name).define name
  | .const name initializer, _, _, h =>
    ((initializer.concurs (h.declare .constant name)).markReady name).define name
  | .block body, _, _, h => (concursBody body (h.openScope (.block body))).closeScope
  | .ifElse condition thenBranch elseBranch, _, _, h =>
    concursBranch elseBranch (thenBranch.concurs (condition.concurs h))
  | .while condition body, _, _, h => (body.concurs (condition.concurs h).enterLoop).leaveLoop
  | .for initializer condition update body, _, _, h => by
    have hheader := concursOptional update (concursOptional condition
      (concursBranch initializer (h.openScope (.clauses initializer condition update body))))
    exact (body.concurs hheader.enterLoop).leaveLoop.closeScope
  | .break keyword, _, _, h | .continue keyword, _, _, h => h.checkJump keyword
  | .assert _ condition message, _, _, h => concursOptional message (condition.concurs h)
  | .function decl, _, _, h => decl.concurs .function (h.declareReady .function decl.name)
  | .return keyword none, _, _, h => h.checkReturn keyword
  | .return keyword (some value), _, _, h =>
    value.concurs ((h.checkReturn keyword).checkReturnValue keyword)
  | .class decl, _, _, h => decl.concurs h

theorem concursBranch : ∀ (s : Option Stmt) {a a' : Analysis}, Concurs a a' →
    Concurs (analyseBranch settings s a) (analyseBranch settings' s a')
  | none, _, _, h => h
  | some s, _, _, h => s.concurs h

theorem concursBody : ∀ (ss : List Stmt) {a a' : Analysis}, Concurs a a' →
    Concurs (analyseBody settings ss a) (analyseBody settings' ss a')
  | [], _, _, h => h
  | s :: ss, _, _, h => concursBody ss (s.concurs h)

theorem FunctionDecl.concurs (role : FunctionRole) : ∀ (d : FunctionDecl) {a a' : Analysis},
    Concurs a a' → Concurs (d.analyse settings role a) (d.analyse settings' role a')
  | ⟨_, params, body⟩, _, _, h =>
    (concursBody body (h.openFunction role params body)).closeFunction h.around

theorem concursStatics : ∀ (ds : List FunctionDecl) {a a' : Analysis}, Concurs a a' →
    Concurs (analyseStatics settings ds a) (analyseStatics settings' ds a')
  | [], _, _, h => h
  | d :: ds, _, _, h =>
    concursStatics ds (d.concurs .method (h.checkNoInitializer d.name .staticInitializer))

theorem concursMethods : ∀ (ds : List FunctionDecl) {a a' : Analysis}, Concurs a a' →
    Concurs (analyseMethods settings ds a) (analyseMethods settings' ds a')
  | [], _, _, h => h
  | d :: ds, _, _, h => concursMethods ds (d.concurs (methodRole d.name) h)

theorem concursGetters : ∀ (ds : List FunctionDecl) {a a' : Analysis}, Concurs a a' →
    Concurs (analyseGetters settings ds a) (analyseGetters settings' ds a')
  | [], _, _, h => h
  | d :: ds, _, _, h =>
    concursGetters ds (d.concurs .method (h.checkNoInitializer d.name .getterInitializer))

theorem concursBase (name : Token) : ∀ (base : Option Expr) {a a' : Analysis}, Concurs a a' →
    Concurs (analyseBase settings name base a) (analyseBase settings' name base a')
  | none, _, _, h => h
  | some base, _, _, h => base.concurs ((h.checkOwnBase name base).enterClass .derived)

theorem ClassDecl.concurs : ∀ (d : ClassDecl) {a a' : Analysis}, Concurs a a' →
    Concurs (d.analyse settings a) (d.analyse settings' a')
  | ⟨name, base, methods, statics, getters⟩, _, _, h =>
    (concursGetters getters (concursMethods methods
      ((concursStatics statics (concursBase name base (h.nameClass name))).openReceiver
        ⟨name, base, methods, statics, getters⟩))).closeClass h.around

end

/-- The analysis of a program gives the same resolver and the same distances, whatever the settings
and whatever has been reported. -/
theorem Resolver.resolve_concurs (log log' : Log) (program : List Stmt) (r : Resolver) :
    (r.resolve settings log program).resolver = (r.resolve settings' log' program).resolver ∧
      (r.resolve settings log program).distances =
        (r.resolve settings' log' program).distances := by
  have hopening : Concurs (r.opening log) (r.opening log') := ⟨rfl, rfl, rfl, rfl⟩
  have hwalk := concursBody settings settings' program hopening
  unfold resolve
  dsimp only
  rw [hwalk.scopes, hwalk.around, hwalk.distances, hwalk.failed]
  split <;> exact ⟨rfl, rfl⟩

end

end LoxLang
