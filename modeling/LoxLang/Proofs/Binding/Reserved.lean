import LoxLang.Proofs.Binding.Analysed

/-!
# Reserved names

What every scope that is opened and every declaration keeps, holds of the ribs at every node that
the analysis visits (`visitsOfBody_kept`). So `this` and `super` are names of objects there, and of
nothing else: no declaration is spelled like a keyword (`WordsReserved`).
-/

namespace LoxLang

open Analysis

/-- What is kept where a scope is opened and where a name is declared. -/
structure Rib.Kept (P : List Rib → Prop) : Prop where
  opened : ∀ {ribs kind}, (∀ decl, kind ≠ .receiver decl) → P ribs → P (.bare kind :: ribs)
  received : ∀ {ribs} decl, P ribs → P (receiverRib decl :: ribs)
  declared : ∀ {ribs} {name : Token} status, name.IsName → P ribs →
    P (Rib.onHead (·.set name.lexeme status) ribs)

section Kept

variable {P : List Rib → Prop} {a : Analysis} {settings : Settings}

/-- The name of a statement that declares one is not spelled like a keyword. -/
theorem Stmt.Regular.isName {s : Stmt} (h : s.Regular) {name : Token} {kind : DeclarationKind}
    (hname : s.declaration? = some (name, kind)) : name.IsName := by
  cases s <;> cases hname
  case var | const => exact h.2
  case function decl =>
    obtain ⟨_, _, _⟩ := decl
    exact h.2.1
  case «class» decl =>
    obtain ⟨_, _, _, _, _⟩ := decl
    obtain ⟨-, -, -, -, -, -, -, -, h⟩ := h
    exact h

namespace Rib.Kept

variable (hP : Rib.Kept P)

include hP

theorem declaring {s : Stmt} (h : s.Regular) {ribs : List Rib} (hribs : P ribs) :
    P (s.grow ribs) := by
  rw [Stmt.grow]
  cases hname : s.declaration? with
  | none => exact hribs
  | some declared => exact hP.declared _ (h.isName hname) hribs

theorem body {ss : List Stmt} (h : RegularBody ss) {ribs : List Rib} (hribs : P ribs) :
    P (growBody ss ribs) := by
  induction ss generalizing ribs with
  | nil => exact hribs
  | cons s ss ih => exact ih h.2.1 (hP.declaring h.1 hribs)

theorem parameters {params : List Token} (hparams : ∀ p ∈ params, p.IsName) {rib : Rib}
    {ribs : List Rib} (hribs : P (rib :: ribs)) :
    P (params.foldl (fun rib param => rib.set param.lexeme ⟨true, true⟩) rib :: ribs) := by
  induction params generalizing rib with
  | nil => exact hribs
  | cons param params ih =>
    obtain ⟨hparam, hrest⟩ := List.forall_mem_cons.mp hparams
    exact ih hrest (hP.declared _ hparam hribs)

/-- The scope of a function, with its parameters. -/
theorem function {role : FunctionRole} {params : List Token} {body : List Stmt}
    (hparams : ∀ p ∈ params, p.IsName) (ha : P a.ribs) :
    P (a.openFunction settings role params body).ribs := by
  rw [Analysed.ribs_openFunction]
  exact hP.parameters hparams (hP.opened nofun ha)

theorem declare {kind : DeclarationKind} {name : Token} (hname : name.IsName) (ha : P a.ribs) :
    P (a.declare settings kind name).ribs := by
  rw [(declare_eq settings kind name a).1]
  exact hP.declared _ hname ha

theorem declareReady {kind : DeclarationKind} {name : Token} (hname : name.IsName)
    (ha : P a.ribs) : P (a.declareReady settings kind name).ribs := by
  rw [(declareReady_eq settings kind name a).1]
  exact hP.declared _ hname ha

end Rib.Kept

/-- A way that leaves the scopes as they are. -/
theorem Analysed.kept {b : Analysis} {visits : List Visit} {references : List Reference}
    (h : Analysed id a b visits references) (ha : P a.ribs) : P b.ribs := by
  rw [h.ribs]
  exact ha

theorem visitsOfBase_kept (name : Token) (base : Option Expr)
    (h : ∀ e ∈ base, ∃ id name, e = .variable id name) (ha : P a.ribs) :
    ∀ v ∈ visitsOfBase settings name base a, P v.ribs := by
  cases base with
  | none => exact fun _ hv => nomatch hv
  | some base =>
    obtain ⟨node, baseName, rfl⟩ := h base rfl
    intro v hv
    cases List.mem_singleton.mp hv
    exact Analysed.checkOwnBase.kept (P := P) ha

mutual

theorem Expr.visits_kept (hP : Rib.Kept P) (settings : Settings) : ∀ (e : Expr) {a : Analysis},
    e.Regular → P a.ribs → ∀ v ∈ e.visits settings a, P v.ribs
  | .literal _, _, _, _ => fun _ hv => nomatch hv
  | .grouping inner, _, h, ha => inner.visits_kept hP settings h ha
  | .unary _ right, _, h, ha => right.visits_kept hP settings h ha
  | .binary left _ right, a, h, ha | .logical left _ right, a, h, ha =>
    List.forall_mem_append.mpr ⟨left.visits_kept hP settings h.1 ha,
      right.visits_kept hP settings h.2.1 ((left.analysed settings a h.1).kept ha)⟩
  | .ternary condition _ thenBranch elseBranch, a, h, ha => by
    have hc := (condition.analysed settings a h.1).kept ha
    have ht := (thenBranch.analysed settings _ h.2.1).kept hc
    exact List.forall_mem_append.mpr ⟨List.forall_mem_append.mpr
      ⟨condition.visits_kept hP settings h.1 ha, thenBranch.visits_kept hP settings h.2.1 hc⟩,
      elseBranch.visits_kept hP settings h.2.2.1 ht⟩
  | .variable _ _, _, _, ha | .this _ _, _, _, ha | .super _ _ _, _, _, ha =>
    fun _ hv => List.mem_singleton.mp hv ▸ ha
  | .assign _ _ value, a, h, ha =>
    List.forall_mem_append.mpr ⟨value.visits_kept hP settings h.1 ha,
      fun _ hv => List.mem_singleton.mp hv ▸ (value.analysed settings a h.1).kept ha⟩
  | .call callee _ arguments, a, h, ha =>
    List.forall_mem_append.mpr ⟨callee.visits_kept hP settings h.1 ha,
      visitsOfEach_kept hP settings arguments h.2.1 ((callee.analysed settings a h.1).kept ha)⟩
  | .get object _, _, h, ha => object.visits_kept hP settings h ha
  | .set object _ value, a, h, ha =>
    List.forall_mem_append.mpr ⟨value.visits_kept hP settings h.2.1 ha,
      object.visits_kept hP settings h.1 ((value.analysed settings a h.2.1).kept ha)⟩
  | .arrow ⟨_, _, body⟩, _, h, ha =>
    visitsOfBody_kept hP settings body h.1 (hP.function h.2 ha)

theorem visitsOfEach_kept (hP : Rib.Kept P) (settings : Settings) : ∀ (es : List Expr)
    {a : Analysis}, RegularEach es → P a.ribs → ∀ v ∈ visitsOfEach settings es a, P v.ribs
  | [], _, _, _ => fun _ hv => nomatch hv
  | e :: es, a, h, ha =>
    List.forall_mem_append.mpr ⟨e.visits_kept hP settings h.1 ha,
      visitsOfEach_kept hP settings es h.2.1 ((e.analysed settings a h.1).kept ha)⟩

theorem visitsOfOptional_kept (hP : Rib.Kept P) (settings : Settings) : ∀ (e : Option Expr)
    {a : Analysis}, RegularOptional e → P a.ribs → ∀ v ∈ visitsOfOptional settings e a, P v.ribs
  | none, _, _, _ => fun _ hv => nomatch hv
  | some e, _, h, ha => e.visits_kept hP settings h ha

theorem Stmt.visits_kept (hP : Rib.Kept P) (settings : Settings) : ∀ (s : Stmt) {a : Analysis},
    s.Regular → P a.ribs → ∀ v ∈ s.visits settings a, P v.ribs
  | .expression value, _, h, ha | .print value, _, h, ha | .println value, _, h, ha =>
    value.visits_kept hP settings h ha
  | .var _ initializer, _, h, ha =>
    visitsOfOptional_kept hP settings initializer h.1 (hP.declare h.2 ha)
  | .const _ initializer, _, h, ha => initializer.visits_kept hP settings h.1 (hP.declare h.2 ha)
  | .block body, _, h, ha => visitsOfBody_kept hP settings body h (hP.opened nofun ha)
  | .ifElse condition thenBranch elseBranch, a, h, ha => by
    have hc := (condition.analysed settings a h.1).kept ha
    have ht : P (thenBranch.analyse settings (condition.analyse settings a)).ribs := by
      rw [(thenBranch.analysed settings _ h.2.1).ribs]
      exact hP.declaring h.2.1 hc
    exact List.forall_mem_append.mpr ⟨List.forall_mem_append.mpr
      ⟨condition.visits_kept hP settings h.1 ha, thenBranch.visits_kept hP settings h.2.1 hc⟩,
      visitsOfBranch_kept hP settings elseBranch h.2.2.1 ht⟩
  | .while condition body, a, h, ha =>
    List.forall_mem_append.mpr ⟨condition.visits_kept hP settings h.1 ha,
      body.visits_kept hP settings (a := (condition.analyse settings a).enterLoop) h.2.1
        ((condition.analysed settings a h.1).kept ha)⟩
  | .for initializer condition update body, a, h, ha => by
    let opened := a.openScope (.clauses initializer condition update body)
    let begun := analyseBranch settings initializer opened
    let tested := analyseOptional settings condition begun
    have ho : P opened.ribs := hP.opened nofun ha
    have hi : P begun.ribs := by
      rw [(analysedBranch settings initializer opened h.1).ribs]
      cases initializer with
      | none => exact ho
      | some s => exact hP.declaring h.1 ho
    have hc : P tested.ribs := (analysedOptional settings condition begun h.2.1).kept hi
    have hu : P (analyseOptional settings update tested).ribs :=
      (analysedOptional settings update tested h.2.2.1).kept hc
    exact List.forall_mem_append.mpr ⟨List.forall_mem_append.mpr ⟨List.forall_mem_append.mpr
      ⟨visitsOfBranch_kept hP settings initializer h.1 ho,
        visitsOfOptional_kept hP settings condition h.2.1 hi⟩,
        visitsOfOptional_kept hP settings update h.2.2.1 hc⟩,
        body.visits_kept hP settings (a := (analyseOptional settings update tested).enterLoop)
          h.2.2.2.1 hu⟩
  | .break _, _, _, _ | .continue _, _, _, _ | .return _ none, _, _, _ => fun _ hv => nomatch hv
  | .assert _ condition message, a, h, ha =>
    List.forall_mem_append.mpr ⟨condition.visits_kept hP settings h.1 ha,
      visitsOfOptional_kept hP settings message h.2.1 ((condition.analysed settings a h.1).kept ha)⟩
  | .function ⟨name, params, body⟩, _, h, ha =>
    FunctionDecl.visits_kept hP settings .function ⟨name, params, body⟩ h
      (hP.declareReady h.2.1 ha)
  | .return keyword (some value), a, h, ha =>
    have hchecked : P (a.checkReturn keyword).ribs := Analysed.checked.kept (P := P) ha
    value.visits_kept hP settings h (Analysed.checked.kept (P := P) hchecked)
  | .class decl, _, h, ha => decl.visits_kept hP settings h ha

theorem visitsOfBranch_kept (hP : Rib.Kept P) (settings : Settings) : ∀ (s : Option Stmt)
    {a : Analysis}, RegularBranch s → P a.ribs → ∀ v ∈ visitsOfBranch settings s a, P v.ribs
  | none, _, _, _ => fun _ hv => nomatch hv
  | some s, _, h, ha => s.visits_kept hP settings h ha

theorem visitsOfBody_kept (hP : Rib.Kept P) (settings : Settings) : ∀ (ss : List Stmt)
    {a : Analysis}, RegularBody ss → P a.ribs → ∀ v ∈ visitsOfBody settings ss a, P v.ribs
  | [], _, _, _ => fun _ hv => nomatch hv
  | s :: ss, a, h, ha => by
    have hs : P (s.analyse settings a).ribs := by
      rw [(s.analysed settings a h.1).ribs]
      exact hP.declaring h.1 ha
    exact List.forall_mem_append.mpr
      ⟨s.visits_kept hP settings h.1 ha, visitsOfBody_kept hP settings ss h.2.1 hs⟩

theorem FunctionDecl.visits_kept (hP : Rib.Kept P) (settings : Settings) (role : FunctionRole) :
    ∀ (d : FunctionDecl) {a : Analysis}, d.Regular → P a.ribs →
    ∀ v ∈ d.visits settings role a, P v.ribs
  | ⟨_, _, body⟩, _, h, ha => visitsOfBody_kept hP settings body h.1 (hP.function h.2.2 ha)

theorem visitsOfStatics_kept (hP : Rib.Kept P) (settings : Settings) :
    ∀ (ds : List FunctionDecl) {a : Analysis}, RegularFunctions ds → P a.ribs →
    ∀ v ∈ visitsOfStatics settings ds a, P v.ribs
  | [], _, _, _ => fun _ hv => nomatch hv
  | d :: ds, a, h, ha => by
    have hchecked : P (a.checkNoInitializer d.name .staticInitializer).ribs :=
      Analysed.checked.kept (P := P) ha
    exact List.forall_mem_append.mpr ⟨d.visits_kept hP settings .method h.1 hchecked,
      visitsOfStatics_kept hP settings ds h.2.1 ((d.analysed settings .method _ h.1).kept hchecked)⟩

theorem visitsOfMethods_kept (hP : Rib.Kept P) (settings : Settings) :
    ∀ (ds : List FunctionDecl) {a : Analysis}, RegularFunctions ds → P a.ribs →
    ∀ v ∈ visitsOfMethods settings ds a, P v.ribs
  | [], _, _, _ => fun _ hv => nomatch hv
  | d :: ds, a, h, ha =>
    List.forall_mem_append.mpr ⟨d.visits_kept hP settings _ h.1 ha,
      visitsOfMethods_kept hP settings ds h.2.1 ((d.analysed settings _ a h.1).kept ha)⟩

theorem visitsOfGetters_kept (hP : Rib.Kept P) (settings : Settings) :
    ∀ (ds : List FunctionDecl) {a : Analysis}, RegularFunctions ds → P a.ribs →
    ∀ v ∈ visitsOfGetters settings ds a, P v.ribs
  | [], _, _, _ => fun _ hv => nomatch hv
  | d :: ds, a, h, ha => by
    have hchecked : P (a.checkNoInitializer d.name .getterInitializer).ribs :=
      Analysed.checked.kept (P := P) ha
    exact List.forall_mem_append.mpr ⟨d.visits_kept hP settings .method h.1 hchecked,
      visitsOfGetters_kept hP settings ds h.2.1 ((d.analysed settings .method _ h.1).kept hchecked)⟩

theorem ClassDecl.visits_kept (hP : Rib.Kept P) (settings : Settings) :
    ∀ (d : ClassDecl) {a : Analysis}, d.Regular → P a.ribs → ∀ v ∈ d.visits settings a, P v.ribs
  | ⟨name, base, methods, statics, getters⟩, a, h, ha => by
    obtain ⟨hbase, -, hm, hs, hg, -, -, -, hname⟩ := h
    let named := a.nameClass settings name
    let based := analyseBase settings name base named
    let inner := (analyseStatics settings statics based).openReceiver
      ⟨name, base, methods, statics, getters⟩
    have hnamed : P named.ribs := hP.declareReady (a := a.enterClass .root) hname ha
    obtain ⟨role, hb⟩ := analysedBase settings name base named hbase
    have hbased : P based.ribs := hb.kept hnamed
    have hinner : P inner.ribs := by
      rw [(Analysed.openReceiver ⟨name, base, methods, statics, getters⟩).ribs]
      exact hP.received _ ((analysedStatics settings statics based hs).kept hbased)
    exact List.forall_mem_append.mpr ⟨List.forall_mem_append.mpr
      ⟨visitsOfBase_kept name base hbase hnamed, visitsOfStatics_kept hP settings statics hs hbased⟩,
      List.forall_mem_append.mpr ⟨visitsOfMethods_kept hP settings methods hm hinner,
        visitsOfGetters_kept hP settings getters hg
          ((analysedMethods settings methods inner hm).kept hinner)⟩⟩

end

end Kept

/-! ## The words for the object of a method -/

/-- The words that a class gives its methods: one for the object, and one for what it has of the base
class, if there is one. -/
def ClassDecl.Gives (decl : ClassDecl) : Keyword → Prop
  | .this => True
  | .super => decl.base.isSome
  | _ => False

/-- The scopes that know a keyword as a name are those in which methods find their object. -/
def WordsReserved (ribs : List Rib) : Prop :=
  ∀ rib ∈ ribs, ∀ word : Keyword, (rib.status word.text).isSome ↔
    ∃ decl, rib.kind = .receiver decl ∧ decl.Gives word

theorem Keyword.text_ne {word other : Keyword} (h : word ≠ other) : word.text ≠ other.text :=
  fun heq => h (Option.some.inj (word.ofText?_text.symm.trans (heq ▸ other.ofText?_text)))

theorem kind_receiverRib (decl : ClassDecl) : (receiverRib decl).kind = .receiver decl := by
  unfold receiverRib
  split <;> rfl

theorem status_receiverRib (decl : ClassDecl) (word : Keyword) :
    ((receiverRib decl).status word.text).isSome ↔ decl.Gives word := by
  let this := (Rib.bare (.receiver decl)).set Keyword.this.text ⟨false, true⟩
  have hother (hne : word ≠ .this) : this.status word.text = none :=
    Rib.set_status_of_ne _ _ (Keyword.text_ne hne.symm)
  have hrib : receiverRib decl =
      if decl.base.isSome then this.set Keyword.super.text ⟨false, true⟩ else this := rfl
  rw [hrib]
  by_cases hthis : word = .this
  · subst hthis
    have hknown : (this.status Keyword.this.text).isSome := rfl
    refine iff_of_true ?_ trivial
    split
    · rwa [Rib.set_status_of_ne _ _ (Keyword.text_ne (by decide))]
    · exact hknown
  · by_cases hsuper : word = .super
    · subst hsuper
      split
      · next hbase => exact iff_of_true (by rw [Rib.set_status_self]; rfl) hbase
      · next hbase => exact iff_of_false (by rw [hother hthis]; exact Bool.false_ne_true) hbase
    · have hnone : ¬decl.Gives word := fun h => by cases word <;> first | exact h | contradiction
      refine iff_of_false ?_ hnone
      split
      · rw [Rib.set_status_of_ne _ _ (Keyword.text_ne (Ne.symm hsuper)), hother hthis]
        exact Bool.false_ne_true
      · rw [hother hthis]
        exact Bool.false_ne_true

theorem kept_wordsReserved : Rib.Kept WordsReserved where
  opened hkind h := by
    refine List.forall_mem_cons.mpr ⟨fun word => ⟨fun hknown => ?_, fun ⟨decl, heq, _⟩ => ?_⟩, h⟩
    · cases hknown
    · exact absurd heq (hkind decl)
  received decl h := by
    refine List.forall_mem_cons.mpr ⟨fun word => ?_, h⟩
    rw [status_receiverRib, kind_receiverRib]
    refine ⟨fun hgives => ⟨decl, rfl, hgives⟩, fun ⟨other, heq, hgives⟩ => ?_⟩
    cases heq
    exact hgives
  declared {ribs name} status hname h := by
    cases ribs with
    | nil => exact h
    | cons rib ribs =>
      obtain ⟨hrib, hribs⟩ := List.forall_mem_cons.mp h
      refine List.forall_mem_cons.mpr ⟨fun word => ?_, hribs⟩
      rw [Rib.set_status_of_ne rib status (hname.ne word)]
      exact hrib word

end LoxLang
