import LoxLang.Binding.Analysis
import LoxLang.Proofs.Syntax.WellFormed

/-!
# What an analysis reports

An analysis only adds to its log: warnings, which count for nothing, and the faults by which it
fails. On a well-formed tree no fault is that of a jump outside a loop (`Stmt.reports`,
`Resolver.reports_resolve`).
-/

namespace LoxLang

/-- A log that has grown by warnings and by faults of some kind. -/
inductive Log.Grows (allowed : StaticFault → Prop) : Log → Log → Prop
  | refl (log) : Grows allowed log log
  | fault {log after} (grown : Grows allowed log after) (cause token) (isAllowed : allowed cause) :
    Grows allowed log (after.addFault (cause.toFault token))
  | warning {log after} (grown : Grows allowed log after) (message token) :
    Grows allowed log (after.add ⟨.warning, message, token⟩)

theorem Log.Grows.trans {allowed : StaticFault → Prop} {log mid after : Log}
    (h : log.Grows allowed mid) (h' : mid.Grows allowed after) : log.Grows allowed after := by
  induction h' with
  | refl => exact h
  | fault _ cause token isAllowed ih => exact ih.fault cause token isAllowed
  | warning _ message token ih => exact ih.warning message token

@[simp] theorem Log.cap_addFaults (log : Log) (faults : List Fault) :
    (log.addFaults faults).cap = log.cap := by
  induction faults generalizing log with
  | nil => rfl
  | cons fault rest ih => exact ih (log.addFault fault)

theorem Log.Grows.cap {allowed : StaticFault → Prop} {log after : Log}
    (h : log.Grows allowed after) : after.cap = log.cap := by
  induction h with
  | refl => rfl
  | fault _ _ _ _ ih => exact ih
  | warning _ _ _ ih => exact ih

/-- Any fault but that of a jump outside a loop. -/
def StaticFault.IsNoJump (cause : StaticFault) : Prop := ∀ word, cause ≠ .jumpOutsideLoop word

open Analysis

/-- A walk that reports no jump outside a loop, and comes back to as many loops as were around. An
error is seen in the log just if a fault has been found. -/
structure Analysis.Reports (a b : Analysis) : Prop where
  log : a.log.Grows StaticFault.IsNoJump b.log
  seen : a.log.sawError = a.failed → b.log.sawError = b.failed
  loopDepth : b.around.loopDepth = a.around.loopDepth

namespace Analysis.Reports

variable {a b c : Analysis} {settings : Settings}

theorem refl : Reports a a := ⟨.refl _, id, rfl⟩

theorem trans (h : Reports a b) (h' : Reports b c) : Reports a c :=
  ⟨h.log.trans h'.log, fun hseen => h'.seen (h.seen hseen), h'.loopDepth.trans h.loopDepth⟩

/-- A step that reports nothing. -/
theorem silent (hlog : b.log = a.log) (hfailed : b.failed = a.failed)
    (hdepth : b.around.loopDepth = a.around.loopDepth) : Reports a b :=
  ⟨hlog ▸ .refl _, fun hseen => by rw [hlog, hfailed, hseen], hdepth⟩

/-- Behind a step that reports nothing. -/
theorem after (h : Reports b c) (hlog : b.log = a.log) (hfailed : b.failed = a.failed)
    (hdepth : b.around.loopDepth = a.around.loopDepth) : Reports a c :=
  (silent hlog hfailed hdepth).trans h

theorem fail {cause : StaticFault} {token : Token} (h : cause.IsNoJump) :
    Reports a (a.fail cause token) :=
  ⟨(Log.Grows.refl _).fault cause token h, fun _ => by simp [Analysis.fail, Log.addFault, Log.add],
    rfl⟩

theorem warn {text : String} {token : Token} : Reports a (a.warn text token) :=
  ⟨(Log.Grows.refl _).warning _ _, fun hseen => by simp [Analysis.warn, Log.add, hseen], rfl⟩

theorem checked {ok : Prop} [Decidable ok] {cause : StaticFault} {token : Token}
    (h : cause.IsNoJump) : Reports a (if ok then a.fail cause token else a) := by
  split
  · exact .fail h
  · exact .refl

/-! ### Names -/

theorem enter {name : String} {binding : StaticBinding} : Reports a (a.enter name binding) := by
  unfold Analysis.enter
  split <;> exact .silent rfl rfl rfl

theorem modifyInnermost {name : String} {change : StaticBinding → StaticBinding} :
    Reports a (a.modifyInnermost name change) := by
  unfold Analysis.modifyInnermost
  split <;> exact .silent rfl rfl rfl

theorem warnShadow {name : Token} {hidden : StaticBinding} :
    Reports a (a.warnShadow name hidden) := by
  unfold Analysis.warnShadow
  split
  · exact warn.trans .warn
  · exact .warn

theorem checkDeclaration {kind : DeclarationKind} {name : Token} :
    Reports a (a.checkDeclaration settings kind name) := by
  unfold Analysis.checkDeclaration
  split
  · exact .fail nofun
  · split
    · split
      · exact .warnShadow
      · exact .refl
    · exact .refl

theorem declare {kind : DeclarationKind} {name : Token} :
    Reports a (a.declare settings kind name) := checkDeclaration.trans .enter

theorem markReady {name : Token} : Reports a (a.markReady name) := .modifyInnermost

theorem define {name : Token} : Reports a (a.define name) := .modifyInnermost

theorem declareReady {kind : DeclarationKind} {name : Token} :
    Reports a (a.declareReady settings kind name) := (declare.trans .markReady).trans .define

theorem problem? {name : String} {access : Access} {binding : StaticBinding} {cause : StaticFault}
    (h : Analysis.problem? name access binding = some cause) : cause.IsNoJump := by
  unfold Analysis.problem? at h
  intro word
  split at h
  all_goals first
    | cases h
    | (split at h <;> cases h; nofun)

theorem refer {id : NodeId} {name : Token} {access : Access} :
    Reports a (a.refer id name access) := by
  unfold Analysis.refer
  split
  · exact .fail nofun
  · dsimp only
    split
    · next hproblem => exact .after (.fail (problem? hproblem)) rfl rfl rfl
    · exact .silent rfl rfl rfl

theorem referVariable {id : NodeId} {name : Token} : Reports a (a.referVariable id name) := by
  unfold Analysis.referVariable
  split
  · exact .fail nofun
  · exact .refer

theorem referThis {id : NodeId} {keyword : Token} : Reports a (a.referThis id keyword) := by
  unfold Analysis.referThis
  split
  · exact .fail nofun
  · exact .refer

theorem referSuper {id : NodeId} {keyword : Token} : Reports a (a.referSuper id keyword) := by
  unfold Analysis.referSuper
  split
  · exact .fail nofun
  · exact .fail nofun
  · exact .refer

/-! ### Constructs -/

theorem openScope {kind : ScopeKind} : Reports a (a.openScope kind) := .silent rfl rfl rfl

theorem closeScope : Reports a (a.closeScope settings) := by
  have hwarned (entries : List (String × Token × DeclarationKind)) (a : Analysis) :
      Reports a (entries.foldl warnUnused a) := by
    induction entries generalizing a with
    | nil => exact .refl
    | cons entry rest ih => exact warn.trans (ih _)
  unfold Analysis.closeScope
  split
  · exact .refl
  · dsimp only
    split
    · exact .after (hwarned _ _) rfl rfl rfl
    · exact .silent rfl rfl rfl

theorem loop (h : Reports a.enterLoop b) : Reports a b.leaveLoop where
  log := h.log
  seen := h.seen
  loopDepth := congrArg (· - 1) h.loopDepth

theorem declareParameters (params : List Token) :
    Reports a (a.declareParameters settings params) := by
  induction params generalizing a with
  | nil => exact .refl
  | cons param rest ih => exact declareReady.trans ih

theorem function {role : FunctionRole} {params : List Token} {body : List Stmt}
    (h : Reports (a.openFunction settings role params body) b) :
    Reports a (b.closeFunction settings a.around) := by
  have hinner : Reports (a.enterFunction role) (b.closeScope settings) :=
    ((openScope.trans (declareParameters params)).trans h).trans .closeScope
  exact ⟨hinner.log, hinner.seen, rfl⟩

theorem openReceiver (decl : ClassDecl) : Reports a (a.openReceiver decl) := by
  unfold Analysis.openReceiver
  split
  · exact (openScope.trans .enter).trans .enter
  · exact openScope.trans .enter

theorem checkReturn {keyword : Token} : Reports a (a.checkReturn keyword) := .checked nofun

theorem checkReturnValue {keyword : Token} : Reports a (a.checkReturnValue keyword) :=
  .checked nofun

theorem checkNoInitializer {name : Token} {cause : StaticFault} (h : cause.IsNoJump) :
    Reports a (a.checkNoInitializer name cause) := .checked h

theorem checkOwnBase {name : Token} {base : Expr} : Reports a (a.checkOwnBase name base) := by
  unfold Analysis.checkOwnBase
  split
  · exact .checked nofun
  · exact .refl

/-- A jump inside a loop is not refused. -/
theorem checkJump {keyword : Token} {inLoop : Bool} (h : inLoop)
    (hloops : inLoop → 0 < a.around.loopDepth) : Reports a (a.checkJump keyword) := by
  unfold Analysis.checkJump
  rw [if_neg (Nat.ne_of_gt (hloops h))]
  exact .refl

end Analysis.Reports

open Analysis.Reports

mutual

theorem Expr.reports (settings : Settings) : ∀ (e : Expr) (a : Analysis), e.WellFormed →
    Reports a (e.analyse settings a)
  | .literal _, _, _ => .refl
  | .grouping inner, a, h => inner.reports settings a h
  | .unary _ right, a, h => right.reports settings a h.2
  | .binary left _ right, a, h | .logical left _ right, a, h =>
    (left.reports settings a h.2.1).trans (right.reports settings _ h.2.2)
  | .ternary condition _ thenBranch elseBranch, a, h =>
    ((condition.reports settings a h.1).trans (thenBranch.reports settings _ h.2.1)).trans
      (elseBranch.reports settings _ h.2.2)
  | .variable _ _, _, _ => .referVariable
  | .assign _ _ value, a, h => (value.reports settings a h).trans .refer
  | .call callee _ arguments, a, h =>
    (callee.reports settings a h.1).trans (reportsEach settings arguments _ h.2.2)
  | .get object _, a, h => object.reports settings a h
  | .set object _ value, a, h =>
    (value.reports settings a h.2).trans (object.reports settings _ h.1)
  | .this _ _, _, _ => .referThis
  | .super _ _ _, _, _ => .referSuper
  | .arrow decl, a, h => decl.reports settings a h

theorem ArrowDecl.reports (settings : Settings) : ∀ (d : ArrowDecl) (a : Analysis), d.WellFormed →
    Reports a (d.analyse settings a)
  | ⟨_, _, body⟩, _, h =>
    .function (reportsBody settings body false _ h.2 (absurd · Bool.false_ne_true))

theorem reportsEach (settings : Settings) : ∀ (es : List Expr) (a : Analysis), WellFormedEach es →
    Reports a (analyseEach settings es a)
  | [], _, _ => .refl
  | e :: es, a, h => (e.reports settings a h.1).trans (reportsEach settings es _ h.2)

theorem reportsOptional (settings : Settings) : ∀ (e : Option Expr) (a : Analysis),
    WellFormedOptional e → Reports a (analyseOptional settings e a)
  | none, _, _ => .refl
  | some e, a, h => e.reports settings a h

/-- A statement inside a loop of the same function has a loop around it. -/
theorem Stmt.reports (settings : Settings) : ∀ (s : Stmt) (inLoop : Bool) (a : Analysis),
    s.WellFormed inLoop → (inLoop → 0 < a.around.loopDepth) → Reports a (s.analyse settings a)
  | .expression value, _, a, h, _ | .print value, _, a, h, _ | .println value, _, a, h, _ =>
    value.reports settings a h
  | .var _ none, _, _, _, _ => declare.trans .define
  | .var _ (some initializer), _, _, h, _ | .const _ initializer, _, _, h, _ =>
    ((declare.trans (initializer.reports settings _ h)).trans .markReady).trans .define
  | .block body, inLoop, _, h, hloops =>
    (openScope.trans (reportsBody settings body inLoop _ h hloops)).trans .closeScope
  | .ifElse condition thenBranch elseBranch, inLoop, a, h, hloops => by
    have hcondition := condition.reports settings a h.1
    have hthen := thenBranch.reports settings inLoop _ h.2.1 (hcondition.loopDepth ▸ hloops)
    have hbehind := hcondition.trans hthen
    exact hbehind.trans
      (reportsBranch settings elseBranch inLoop _ h.2.2 (hbehind.loopDepth ▸ hloops))
  | .while condition body, _, a, h, _ =>
    (condition.reports settings a h.1).trans
      (.loop (body.reports settings true _ h.2 fun _ => Nat.succ_pos _))
  | .for initializer condition update body, _, a, h, _ => by
    obtain ⟨hi, hc, hu, -, hb⟩ := h
    have hinitializer := reportsBranch settings initializer false
      (a.openScope (.clauses initializer condition update body)) hi (absurd · Bool.false_ne_true)
    have hheader := ((openScope.trans hinitializer).trans
      (reportsOptional settings condition _ hc)).trans (reportsOptional settings update _ hu)
    exact (hheader.trans (.loop (body.reports settings true _ hb fun _ => Nat.succ_pos _))).trans
      .closeScope
  | .break _, _, _, h, hloops | .continue _, _, _, h, hloops => .checkJump h hloops
  | .assert _ condition message, _, a, h, _ =>
    (condition.reports settings a h.1).trans (reportsOptional settings message _ h.2)
  | .function decl, _, _, h, _ => declareReady.trans (decl.reports settings .function _ h)
  | .return _ none, _, _, _, _ => .checkReturn
  | .return _ (some value), _, _, h, _ =>
    checkReturn.trans (checkReturnValue.trans (value.reports settings _ h))
  | .class decl, _, a, h, _ => decl.reports settings a h

theorem reportsBranch (settings : Settings) : ∀ (s : Option Stmt) (inLoop : Bool) (a : Analysis),
    WellFormedBranch s inLoop → (inLoop → 0 < a.around.loopDepth) →
      Reports a (analyseBranch settings s a)
  | none, _, _, _, _ => .refl
  | some s, inLoop, a, h, hloops => s.reports settings inLoop a h hloops

theorem reportsBody (settings : Settings) : ∀ (ss : List Stmt) (inLoop : Bool) (a : Analysis),
    WellFormedBody ss inLoop → (inLoop → 0 < a.around.loopDepth) →
      Reports a (analyseBody settings ss a)
  | [], _, _, _, _ => .refl
  | s :: ss, inLoop, a, h, hloops => by
    have hfirst := s.reports settings inLoop a h.1 hloops
    exact hfirst.trans (reportsBody settings ss inLoop _ h.2 (hfirst.loopDepth ▸ hloops))

theorem FunctionDecl.reports (settings : Settings) (role : FunctionRole) :
    ∀ (d : FunctionDecl) (a : Analysis), d.WellFormed → Reports a (d.analyse settings role a)
  | ⟨_, _, body⟩, _, h =>
    .function (reportsBody settings body false _ h.2 (absurd · Bool.false_ne_true))

theorem reportsStatics (settings : Settings) : ∀ (ds : List FunctionDecl) (a : Analysis),
    WellFormedFunctions ds → Reports a (analyseStatics settings ds a)
  | [], _, _ => .refl
  | d :: ds, _, h =>
    ((Reports.checkNoInitializer (by nofun)).trans (d.reports settings .method _ h.1)).trans
      (reportsStatics settings ds _ h.2)

theorem reportsMethods (settings : Settings) : ∀ (ds : List FunctionDecl) (a : Analysis),
    WellFormedFunctions ds → Reports a (analyseMethods settings ds a)
  | [], _, _ => .refl
  | d :: ds, a, h =>
    (d.reports settings (methodRole d.name) a h.1).trans (reportsMethods settings ds _ h.2)

theorem reportsGetters (settings : Settings) : ∀ (ds : List FunctionDecl) (a : Analysis),
    WellFormedFunctions ds → Reports a (analyseGetters settings ds a)
  | [], _, _ => .refl
  | d :: ds, _, h =>
    ((Reports.checkNoInitializer (by nofun)).trans (d.reports settings .method _ h.1)).trans
      (reportsGetters settings ds _ h.2)

theorem ClassDecl.reports (settings : Settings) : ∀ (d : ClassDecl) (a : Analysis), d.WellFormed →
    Reports a (d.analyse settings a)
  | ⟨name, base, methods, statics, getters⟩, a, h => by
    obtain ⟨hbase, -, hm, hs, hg⟩ := h
    have hnamed : Reports a (a.nameClass settings name) := declareReady.after rfl rfl rfl
    have hbegun : Reports a (analyseBase settings name base (a.nameClass settings name)) := by
      cases base with
      | none => exact hnamed
      | some base =>
        obtain ⟨id, baseName, rfl⟩ := hbase base rfl
        exact (hnamed.trans .checkOwnBase).trans (referVariable.after rfl rfl rfl)
    have hmembers := (((hbegun.trans (reportsStatics settings statics _ hs)).trans
      (openReceiver ⟨name, base, methods, statics, getters⟩)).trans
        (reportsMethods settings methods _ hm)).trans (reportsGetters settings getters _ hg)
    exact (hmembers.trans .closeScope).trans (.silent rfl rfl rfl)

end

/-- What the analysis of a well-formed program reports. It finds no jump outside a loop, and where
no error has been seen before, one is seen behind it just if the program is rejected. -/
theorem Resolver.reports_resolve (settings : Settings) (log : Log) {program : List Stmt}
    (h : WellFormedBody program false) (r : Resolver) :
    log.Grows StaticFault.IsNoJump (r.resolve settings log program).log ∧
      (log.sawError = false → (r.resolve settings log program).log.sawError =
        (r.resolve settings log program).distances.isNone) := by
  have hreports := reportsBody settings program false (r.opening log) h
    (absurd · Bool.false_ne_true)
  unfold resolve
  dsimp only
  split
  · next hfailed => exact ⟨hreports.log, fun hlog => (hreports.seen hlog).trans hfailed⟩
  · next hfailed =>
    exact ⟨hreports.log, fun hlog => (hreports.seen hlog).trans (Bool.eq_false_iff.mpr hfailed)⟩

end LoxLang
