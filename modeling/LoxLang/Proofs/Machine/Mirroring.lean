import LoxLang.Proofs.Machine.Calls
import LoxLang.Proofs.Machine.Rounds

/-!
# Mirroring

Every evaluation of a part of an accepted program is taken in order, and so comes to each node with
the frames around it that the analysis saw there as scopes. `Behaves` says so of all functions of
the evaluation with a bound on its depth; there is one lemma for each function that goes from a
bound to the next one, and `behaves` puts them together.
-/

namespace LoxLang

/-- How the evaluation behaves with a bound on its depth. -/
structure Behaves (course : Course) (fuel : Nat) : Prop where
  evaluate : ∀ {e ribs m}, e.Fits course ribs → Placed course ribs m →
    Evaluates course (Eval.evaluate fuel course.lookup e) m
  evaluateEach : ∀ {es ribs m}, EachFits course es ribs → Placed course ribs m →
    Evaluates course (Eval.evaluateEach fuel course.lookup es) m
  attributeValue : ∀ {found m} name, found.Sound course m.store → m.store.Sound course →
    Evaluates course (Eval.attributeValue fuel course.lookup found name) m
  invoke : ∀ {m} callee paren args, m.store.Sound course →
    Evaluates course (Eval.invoke fuel course.lookup callee paren args) m
  construct : ∀ {object args m} paren, m.store.Sound course →
    (∀ portion c, m.store.initializer? object = some (portion, c) →
      args.length = c.decl.params.length) →
    Evaluates course (Eval.construct fuel course.lookup object args paren) m
  callFunction : ∀ {c args m} place, c.Sound course m.store → m.store.Sound course →
    args.length = c.decl.params.length →
    Evaluates course (Eval.callFunction fuel course.lookup c args place) m
  callBody : ∀ {outer params body args ribs m} place, Mirrors m.store outer ribs →
    FunctionFits course params body ribs → m.store.Sound course → args.length = params.length →
    Evaluates course (Eval.callBody fuel course.lookup outer params body args place) m
  execute : ∀ {s ribs m}, s.Fits course ribs → Hosts ribs s → Placed course ribs m →
    Runs course none (Eval.execute fuel course.lookup s) m fun _ after => Executed course s ribs m after
  executeEach : ∀ {ss ribs m}, BodyFits course ss ribs → (∀ s ∈ ss, Hosts ribs s) →
    Placed course ribs m →
    Runs course (some m.here) (Eval.executeEach fuel course.lookup ss) m fun _ after =>
      Keeps course (some m.here) m after
  whileLoop : ∀ {condition body ribs m}, condition.Fits course ribs → body.Fits course ribs →
    body.declaration? = none → Placed course ribs m →
    Evaluates course (Eval.whileLoop fuel course.lookup condition body) m
  forLoop : ∀ {condition update body ribs m}, OptionalFits course condition ribs →
    OptionalFits course update ribs → body.Fits course ribs → body.declaration? = none →
    Placed course ribs m → Evaluates course (Eval.forLoop fuel course.lookup condition update body) m

namespace Behaves

variable {course : Course} {fuel : Nat} {ribs : List Rib} {m : Machine}

/-- Without any depth every evaluation stops at once. -/
theorem zero : Behaves course 0 where
  evaluate _ h := by rw [Eval.evaluate]; exact .outOfFuel h.sound
  evaluateEach _ h := by rw [Eval.evaluateEach]; exact .outOfFuel h.sound
  attributeValue _ _ h := by rw [Eval.attributeValue]; exact .outOfFuel h
  invoke _ _ _ h := by rw [Eval.invoke]; exact .outOfFuel h
  construct _ h _ := by rw [Eval.construct]; exact .outOfFuel h
  callFunction _ _ h _ := by rw [Eval.callFunction]; exact .outOfFuel h
  callBody _ _ _ h _ := by rw [Eval.callBody]; exact .outOfFuel h
  execute _ _ h := by rw [Eval.execute]; exact ⟨.refl h.sound, trivial⟩
  executeEach _ _ h := by rw [Eval.executeEach]; exact ⟨.refl h.sound, trivial⟩
  whileLoop _ _ _ h := by rw [Eval.whileLoop]; exact .outOfFuel h.sound
  forLoop _ _ _ _ h := by rw [Eval.forLoop]; exact .outOfFuel h.sound

/-! ## Expressions -/

theorem evaluate_get (ih : Behaves course fuel) {object : Expr} {name : Token}
    (hfits : (Expr.get object name).Fits course ribs) (h : Placed course ribs m) :
    Evaluates course (Eval.evaluate (fuel + 1) course.lookup (.get object name)) m := by
  have hobject : object.Fits course ribs := hfits
  rw [Eval.evaluate]
  refine (ih.evaluate hobject h).bind ?_
  intro value m₁ h₁
  split
  · refine .instanceAttribute h₁.sound ?_
    intro found m₂ h₂ hfound
    cases found with
    | some found => exact ih.attributeValue name (hfound found rfl) h₂
    | none => exact .inspect (.fail h₂ nofun)
  · refine .inspect ?_
    split
    · exact .pure h₁.sound
    · exact .inspect (.fail h₁.sound nofun)
  · exact .fail h₁.sound nofun

theorem evaluate_set (ih : Behaves course fuel) {object value : Expr} {name : Token}
    (hfits : (Expr.set object name value).Fits course ribs) (h : Placed course ribs m) :
    Evaluates course (Eval.evaluate (fuel + 1) course.lookup (.set object name value)) m := by
  obtain ⟨ho, hv⟩ := hfits.set
  rw [Eval.evaluate]
  refine (ih.evaluate ho h).bind ?_
  intro _ m₁ h₁
  split
  · refine (ih.evaluate hv (h₁.placed h)).bind ?_
    intro value m₂ h₂
    have hset := h₂.sound.setInstanceField
    exact Evaluates.bind (.changeStore (Store.Sound.grows_setInstanceField ..) (hset _ _ _))
      fun _ _ h₃ => .pure h₃.sound
  · refine (ih.evaluate hv (h₁.placed h)).bind ?_
    intro value m₂ h₂
    have hset := h₂.sound.setClassField
    exact Evaluates.bind (.changeStore (.of_instances rfl id rfl) (hset _ _ _))
      fun _ _ h₃ => .pure h₃.sound
  · exact .fail h₁.sound nofun

theorem evaluate_super (ih : Behaves course fuel)
    {id : NodeId} {keyword method : Token}
    (hfits : (Expr.super id keyword method).Fits course ribs) (h : Placed course ribs m) :
    Evaluates course (Eval.evaluate (fuel + 1) course.lookup (.super id keyword method)) m := by
  rw [Eval.evaluate]
  refine (Evaluates.readName h (hfits.node fun _ _ => rfl)).bind ?_
  intro value m₁ h₁
  split
  · refine .instanceAttribute h₁.sound ?_
    intro found m₂ h₂ hfound
    cases found with
    | some found => exact ih.attributeValue method (hfound found rfl) h₂
    | none => exact .inspect (.fail h₂ nofun)
  · exact .fail h₁.sound nofun

theorem evaluate_succ (ih : Behaves course fuel)
    {e : Expr} (hfits : e.Fits course ribs) (h : Placed course ribs m) :
    Evaluates course (Eval.evaluate (fuel + 1) course.lookup e) m := by
  cases e with
  | literal value =>
    rw [Eval.evaluate]
    exact .pure h.sound
  | grouping inner =>
    rw [Eval.evaluate]
    exact ih.evaluate hfits h
  | unary operator right =>
    have hright : right.Fits course ribs := hfits
    rw [Eval.evaluate]
    refine (ih.evaluate hright h).bind ?_
    intro value m₁ h₁
    split
    · exact .computed h₁.sound fun _ h => Bool.noConfusion (Value.applyUnary_fault h)
    · exact .fail h₁.sound nofun
  | binary left operator right =>
    obtain ⟨hl, hr⟩ := hfits.binary
    rw [Eval.evaluate]
    refine (ih.evaluate hl h).bind fun _ m₁ h₁ =>
      (ih.evaluate hr (h₁.placed h)).bind fun _ m₂ h₂ => .ite (fun _ => .pure h₂.sound) fun _ => ?_
    exact .computed h₂.sound fun _ h => Bool.noConfusion (Value.applyBinary_fault h)
  | logical left operator right =>
    obtain ⟨hl, hr⟩ := hfits.logical
    rw [Eval.evaluate]
    exact (ih.evaluate hl h).bind fun _ m₁ h₁ =>
      .ite (fun _ => .pure h₁.sound) fun _ => ih.evaluate hr (h₁.placed h)
  | ternary condition question thenBranch elseBranch =>
    obtain ⟨hc, ht, he⟩ := hfits.ternary
    rw [Eval.evaluate]
    exact (ih.evaluate hc h).bind fun _ m₁ h₁ =>
      .ite (fun _ => ih.evaluate ht (h₁.placed h)) fun _ => ih.evaluate he (h₁.placed h)
  | «variable» id name =>
    rw [Eval.evaluate]
    exact .readName h (hfits.node fun _ _ => rfl)
  | assign id name value =>
    obtain ⟨hv, hnode⟩ := hfits.assign
    rw [Eval.evaluate]
    exact (ih.evaluate hv h).bind fun value m₁ h₁ =>
      (Evaluates.writeName (h₁.placed h) hnode value).bind fun _ m₂ h₂ => .pure h₂.sound
  | call callee paren arguments =>
    obtain ⟨hc, hargs⟩ := hfits.call
    rw [Eval.evaluate]
    exact (ih.evaluate hc h).bind fun callee m₁ h₁ =>
      (ih.evaluateEach hargs (h₁.placed h)).bind fun args m₂ h₂ => ih.invoke callee paren args h₂.sound
  | get object name => exact ih.evaluate_get hfits h
  | set object name value => exact ih.evaluate_set hfits h
  | this id keyword =>
    rw [Eval.evaluate]
    exact .readName h (hfits.node fun _ _ => rfl)
  | super id keyword method => exact ih.evaluate_super hfits h
  | arrow decl =>
    rw [Eval.evaluate]
    have hadded := h.sound.addArrow (c := ⟨decl, m.here⟩) ⟨ribs, h.stands.mirrors, hfits.arrow⟩
    exact .get (.updateStore (.of_instances rfl id rfl) hadded (.pure hadded))

theorem evaluateEach_succ (ih : Behaves course fuel) {es : List Expr}
    (hfits : EachFits course es ribs) (h : Placed course ribs m) :
    Evaluates course (Eval.evaluateEach (fuel + 1) course.lookup es) m := by
  cases es with
  | nil =>
    rw [Eval.evaluateEach]
    exact .pure h.sound
  | cons e es =>
    obtain ⟨he, hes⟩ := hfits.cons
    rw [Eval.evaluateEach]
    exact (ih.evaluate he h).bind fun value m₁ h₁ =>
      (ih.evaluateEach hes (h₁.placed h)).bind fun values m₂ h₂ => .pure h₂.sound

/-! ## Calls -/

theorem attributeValue_succ (ih : Behaves course fuel) {found : Attribute} (name : Token)
    (hfound : found.Sound course m.store) (h : m.store.Sound course) :
    Evaluates course (Eval.attributeValue (fuel + 1) course.lookup found name) m := by
  cases found with
  | value value =>
    rw [Eval.attributeValue]
    exact .pure h
  | getter bound =>
    obtain ⟨hbound, hbare⟩ := hfound
    rw [Eval.attributeValue]
    exact ih.callFunction name hbound h (by rw [hbare]; rfl)

theorem invoke_succ (ih : Behaves course fuel) (callee : Value) (paren : Token)
    (args : List Value) (h : m.store.Sound course) :
    Evaluates course (Eval.invoke (fuel + 1) course.lookup callee paren args) m := by
  rw [Eval.invoke]
  refine (runs_checkCall h callee paren args.length).bind ?_
  intro c m₁ hcall
  obtain ⟨rfl, hlength⟩ := hcall
  refine ⟨.refl h, ?_⟩
  cases c with
  | native id => exact Evaluates.callNative h id args paren
  | function id =>
    refine .inspect ?_
    cases hfunction : m₁.store.function? id with
    | none => exact Keeps.refl h
    | some c =>
      rw [Store.arity, hfunction] at hlength
      exact ih.callFunction paren (h.functions hfunction) h hlength
  | arrow id =>
    refine .inspect ?_
    cases harrow : m₁.store.arrow? id with
    | none => exact Keeps.refl h
    | some c =>
      rw [Store.arity, harrow] at hlength
      obtain ⟨ribs, hmirrors, hfits⟩ := h.arrows harrow
      exact (ih.callBody paren hmirrors hfits h hlength).bind fun _ _ h₁ => .pure h₁.sound
  | «class» id =>
    refine .inspect ?_
    cases hclass : m₁.store.class? id with
    | none => exact Keeps.refl h
    | some object =>
      obtain ⟨hsound, hgrows, -, -⟩ := h.instantiate hclass
      have hinitializer : ∀ portion c,
          (m₁.store.instantiate id).2.initializer? (m₁.store.instantiate id).1 =
            some (portion, c) → args.length = c.decl.params.length := fun portion c hfound =>
        hlength.trans (Store.initializer?_instantiate h hclass hfound)
      have hconstruct :
          Evaluates course (Eval.construct fuel course.lookup (m₁.store.instantiate id).1 args paren)
            { m₁ with store := (m₁.store.instantiate id).2 } :=
        ih.construct paren hsound hinitializer
      refine Evaluates.updateStore hgrows hsound ?_
      exact hconstruct.bind fun _ _ h₂ => .pure h₂.sound

theorem construct_succ (ih : Behaves course fuel) {object : InstanceId} {args : List Value}
    (paren : Token) (h : m.store.Sound course)
    (hargs : ∀ portion c, m.store.initializer? object = some (portion, c) →
      args.length = c.decl.params.length) :
    Evaluates course (Eval.construct (fuel + 1) course.lookup object args paren) m := by
  rw [Eval.construct]
  refine .inspect ?_
  cases hfound : m.store.initializer? object with
  | none => exact Evaluates.pure h
  | some found =>
    obtain ⟨portion, c⟩ := found
    obtain ⟨hsound, hgrows, hbound⟩ :
        (m.store.bind c portion).2.Sound course ∧ m.store.Grows none (m.store.bind c portion).2 ∧
          (m.store.bind c portion).1.Sound course (m.store.bind c portion).2 ∧
          (m.store.bind c portion).1.decl = c.decl := by
      cases Store.methods_of_initializer? hfound with
      | method hportion hobject hc =>
        exact h.bind hportion hobject ((h.classes hobject).methods hc)
    refine .updateStore hgrows hsound (Evaluates.discard ?_)
    exact ih.callFunction paren hbound.1 hsound (hbound.2 ▸ hargs portion c hfound)

theorem callFunction_succ (ih : Behaves course fuel) {c : Closure} {args : List Value}
    (place : Token) (hc : c.Sound course m.store) (h : m.store.Sound course)
    (hlength : args.length = c.decl.params.length) :
    Evaluates course (Eval.callFunction (fuel + 1) course.lookup c args place) m := by
  obtain ⟨ribs, hmirrors, hfits⟩ := hc.place
  rw [Eval.callFunction]
  refine (ih.callBody place hmirrors hfits h hlength).bind fun _ m₁ h₁ =>
    .ite (fun hinitializer => ?_) fun _ => .pure h₁.sound
  exact .initializedObject h₁.sound ((hc.mono h₁.grows).receiver hinitializer)

theorem callBody_succ (ih : Behaves course fuel) {outer : FrameId} {params : List Token}
    {body : List Stmt} {args : List Value} (place : Token) (hmirrors : Mirrors m.store outer ribs)
    (hfits : FunctionFits course params body ribs) (h : m.store.Sound course)
    (hlength : args.length = params.length) :
    Evaluates course (Eval.callBody (fuel + 1) course.lookup outer params body args place) m := by
  rw [Eval.callBody]
  refine .called h (wellFormed_parameterFrame hmirrors hlength) ?_
  intro inner hstore hhere hsound
  refine ih.executeEach hfits.body (fun _ => hosts_parameterRib) ⟨hsound, ?_⟩
  rw [hstore, hhere]
  exact hmirrors.parameterFrame hlength

/-! ## Statements -/

/-- A branch does not declare anything. -/
theorem executePlain (ih : Behaves course fuel) {s : Stmt} (hfits : s.Fits course ribs)
    (hplain : s.declaration? = none) (h : Placed course ribs m) :
    Evaluates course (Eval.execute fuel course.lookup s) m := by
  exact (ih.execute hfits (.of_plain hplain) h).imp fun _ _ hexecuted => hexecuted.plain hplain

theorem execute_ifElse (ih : Behaves course fuel) {condition : Expr} {thenBranch : Stmt}
    {elseBranch : Option Stmt}
    (hfits : (Stmt.ifElse condition thenBranch elseBranch).Fits course ribs)
    (h : Placed course ribs m) :
    Evaluates course
      (Eval.execute (fuel + 1) course.lookup (.ifElse condition thenBranch elseBranch)) m := by
  obtain ⟨hc, ⟨ht, hplain⟩, he⟩ := hfits.ifElse
  cases elseBranch with
  | none =>
    rw [Eval.execute]
    exact (ih.evaluate hc h).bind fun _ m₁ h₁ =>
      .ite (fun _ => ih.executePlain ht hplain (h₁.placed h)) fun _ => .pure h₁.sound
  | some elseBranch =>
    obtain ⟨hother, hotherPlain⟩ := he elseBranch rfl
    rw [Eval.execute]
    exact (ih.evaluate hc h).bind fun _ m₁ h₁ =>
      .ite (fun _ => ih.executePlain ht hplain (h₁.placed h)) fun _ =>
        ih.executePlain hother hotherPlain (h₁.placed h)

theorem execute_block (ih : Behaves course fuel) {body : List Stmt}
    (hfits : (Stmt.block body).Fits course ribs) (h : Placed course ribs m) :
    Evaluates course (Eval.execute (fuel + 1) course.lookup (.block body)) m := by
  rw [Eval.execute]
  exact .opened h nofun fun inner hinner => ih.executeEach hfits.block
    (fun s hs => hosts_bare fun _ hname => ⟨s, hs, hname⟩) hinner

theorem execute_for (ih : Behaves course fuel) {initializer : Option Stmt}
    {condition update : Option Expr} {body : Stmt}
    (hfits : (Stmt.for initializer condition update body).Fits course ribs)
    (h : Placed course ribs m) :
    Evaluates course
      (Eval.execute (fuel + 1) course.lookup (.for initializer condition update body)) m := by
  obtain ⟨hi, hc, hu, hb, hplain⟩ := hfits.for
  rw [Eval.execute]
  refine .opened h nofun ?_
  intro inner hinner
  have hloop : ∀ m₁, Keeps course (some inner.here) inner m₁ →
      Placed course (growBranch initializer (.bare _ :: ribs)) m₁ →
      Runs course (some inner.here) (Eval.forLoop fuel course.lookup condition update body) m₁
        fun _ after => Keeps course (some inner.here) inner after := fun m₁ h₁ hplaced =>
    (Runs.allow (ih.forLoop hc hu hb hplain hplaced)).imp fun _ _ h₂ => h₁.trans h₂.allow
  cases initializer with
  | none => exact hloop inner (.refl hinner.sound) hinner
  | some initializer =>
    have hhosts : Hosts (.bare (.clauses (some initializer) condition update body) :: ribs)
        initializer := hosts_bare fun _ hname => ⟨initializer, rfl, hname⟩
    refine (Runs.allow (ih.execute hi hhosts hinner).discard).bind ?_
    intro _ m₁ hexecuted
    obtain ⟨_, hexecuted⟩ := hexecuted
    exact ⟨hexecuted.grown, hloop m₁ hexecuted.grown hexecuted.placed⟩

theorem execute_assert (ih : Behaves course fuel) {keyword : Token} {condition : Expr}
    {message : Option Expr} (hfits : (Stmt.assert keyword condition message).Fits course ribs)
    (h : Placed course ribs m) :
    Evaluates course
      (Eval.execute (fuel + 1) course.lookup (.assert keyword condition message)) m := by
  obtain ⟨hc, hm⟩ := hfits.assert
  rw [Eval.execute]
  refine (ih.evaluate hc h).bind fun _ m₁ h₁ => .ite (fun _ => .pure h₁.sound) fun _ => ?_
  cases message with
  | none => exact .fail h₁.sound nofun
  | some message =>
    have hmessage : message.Fits course ribs := hm
    exact (ih.evaluate hmessage (h₁.placed h)).bind fun value m₂ h₂ =>
      .inspect (.fail h₂.sound nofun)

/-- The base of a class is a name, which is evaluated with any bound but none at all. -/
theorem evaluate_variable {id : NodeId} {name : Token}
    (hnode : NodeFits course id name ribs) (h : Placed course ribs m) :
    Evaluates course (Eval.evaluate fuel course.lookup (.variable id name)) m := by
  cases fuel with
  | zero =>
    rw [Eval.evaluate]
    exact .outOfFuel h.sound
  | succ fuel =>
    rw [Eval.evaluate]
    exact .readName h hnode

theorem execute_class {decl : ClassDecl}
    (hfits : (Stmt.class decl).Fits course ribs) (hhosts : Hosts ribs (.class decl))
    (h : Placed course ribs m) :
    Runs course none (Eval.execute (fuel + 1) course.lookup (.class decl)) m fun _ after =>
      Executed course (.class decl) ribs m after := by
  have hdeclare : ∀ base m₁, Keeps course none m m₁ → base.isSome = decl.base.isSome →
      (∀ id ∈ base, (m₁.store.class? id).isSome) →
      Runs course none (Eval.declareClass decl base >>= fun _ => pure Signal.completed) m₁
        fun _ after => Executed course (.class decl) ribs m after := fun base m₁ h₁ hbase hold =>
    (runs_declareClass hfits hhosts (h₁.placed h) hbase hold).andReturn fun _ _ h₂ => h₂.behind h₁
  rw [Eval.execute]
  cases hbase : decl.base with
  | none => exact hdeclare none m (.refl h.sound) (by rw [hbase]; rfl) nofun
  | some base =>
    obtain ⟨id, name, rfl, hnode⟩ := hfits.class.base base hbase
    refine (evaluate_variable hnode h).run ?_
    intro value m₁ h₁
    rw [map_eq_pure_bind, bind_assoc]
    refine (runs_asBaseClass h₁.sound decl _ value).bind fun id m₂ hfound => ⟨hfound.1, ?_⟩
    refine hdeclare (some id) m₂ (h₁.trans hfound.1) (by rw [hbase]; rfl) ?_
    intro other hother
    cases hother
    exact hfound.2

/-- A declaration with an initializer. -/
theorem execute_initialized (ih : Behaves course fuel) {s : Stmt} {initializer : Expr}
    {name : Token} {kind : DeclarationKind} {isConst : Bool} (hfits : s.Fits course ribs)
    (hhosts : Hosts ribs s) (hname : s.declaration? = some (name, kind))
    (hconst : isConst = !kind.isMutable)
    (hinitializer : initializer.Fits course (beginning name kind ribs)) (h : Placed course ribs m) :
    Runs course none (do
      let value ← Eval.evaluate fuel course.lookup initializer
      Eval.declare name.lexeme (some value) isConst
      return Signal.completed) m fun _ after => Executed course s ribs m after := by
  subst hconst
  exact (ih.evaluate hinitializer (hfits.placed_beginning h hname)).run fun value _ h₁ =>
    (hfits.runs_declare hhosts (h₁.placed h) hname (some value)).andReturn fun _ _ h₂ => h₂.behind h₁

theorem execute_succ (ih : Behaves course fuel)
    {s : Stmt} (hfits : s.Fits course ribs) (hhosts : Hosts ribs s) (h : Placed course ribs m) :
    Runs course none (Eval.execute (fuel + 1) course.lookup s) m fun _ after =>
      Executed course s ribs m after := by
  cases s with
  | expression value =>
    have hvalue : value.Fits course ribs := hfits
    rw [Eval.execute]
    exact .executed rfl h ((ih.evaluate hvalue h).discard.bind fun _ _ h₁ => .pure h₁.sound)
  | print value =>
    have hvalue : value.Fits course ribs := hfits
    rw [Eval.execute]
    exact .executed rfl h ((ih.evaluate hvalue h).bind fun _ m₁ h₁ =>
      .inspect ((Evaluates.write h₁.sound _).bind fun _ _ h₂ => .pure h₂.sound))
  | println value =>
    have hvalue : value.Fits course ribs := hfits
    rw [Eval.execute]
    exact .executed rfl h ((ih.evaluate hvalue h).bind fun _ m₁ h₁ =>
      .inspect ((Evaluates.write h₁.sound _).bind fun _ _ h₂ => .pure h₂.sound))
  | var name initializer =>
    cases initializer with
    | none =>
      rw [Eval.execute]
      exact (hfits.runs_declare hhosts h rfl none).andReturn fun _ _ => id
    | some initializer =>
      rw [Eval.execute]
      exact ih.execute_initialized hfits hhosts rfl rfl hfits.var h
  | const name initializer =>
    rw [Eval.execute]
    exact ih.execute_initialized hfits hhosts rfl rfl hfits.const h
  | block body => exact .executed rfl h (ih.execute_block hfits h)
  | ifElse condition thenBranch elseBranch => exact .executed rfl h (ih.execute_ifElse hfits h)
  | «while» condition body =>
    obtain ⟨hc, hb, hplain⟩ := hfits.while
    rw [Eval.execute]
    exact .executed rfl h (ih.whileLoop hc hb hplain h)
  | «for» initializer condition update body => exact .executed rfl h (ih.execute_for hfits h)
  | «break» keyword =>
    rw [Eval.execute]
    exact .executed rfl h (.pure h.sound)
  | «continue» keyword =>
    rw [Eval.execute]
    exact .executed rfl h (.pure h.sound)
  | assert keyword condition message => exact .executed rfl h (ih.execute_assert hfits h)
  | function decl =>
    rw [Eval.execute]
    exact (runs_declareFunction hfits hhosts h).andReturn fun _ _ => id
  | «return» keyword value =>
    cases value with
    | none =>
      rw [Eval.execute]
      exact .executed rfl h (.pure h.sound)
    | some value =>
      rw [Eval.execute]
      exact .executed rfl h ((ih.evaluate hfits.return h).bind fun _ _ h₁ => .pure h₁.sound)
  | «class» decl => exact execute_class hfits hhosts h

theorem executeEach_succ (ih : Behaves course fuel) {ss : List Stmt}
    (hfits : BodyFits course ss ribs) (hhosts : ∀ s ∈ ss, Hosts ribs s) (h : Placed course ribs m) :
    Runs course (some m.here) (Eval.executeEach (fuel + 1) course.lookup ss) m fun _ after =>
      Keeps course (some m.here) m after := by
  cases ss with
  | nil =>
    rw [Eval.executeEach]
    exact Keeps.refl h.sound
  | cons s ss =>
    obtain ⟨hs, hss⟩ := hfits.cons
    rw [Eval.executeEach]
    have hfirst := ih.execute hs (hhosts s List.mem_cons_self) h
    refine (Runs.allow hfirst).bind fun signal m₁ h₁ => ⟨h₁.grown, ?_⟩
    split
    · have hrest := ih.executeEach hss
        (fun t ht => (hhosts t (List.mem_cons_of_mem _ ht)).grow s) h₁.placed
      rw [h₁.grown.here] at hrest
      exact hrest.imp fun _ _ h₂ => h₁.grown.trans h₂
    · exact h₁.grown

theorem whileLoop_succ (ih : Behaves course fuel) {condition : Expr} {body : Stmt}
    (hcondition : condition.Fits course ribs) (hbody : body.Fits course ribs)
    (hplain : body.declaration? = none) (h : Placed course ribs m) :
    Evaluates course (Eval.whileLoop (fuel + 1) course.lookup condition body) m := by
  rw [Eval.whileLoop]
  refine (ih.evaluate hcondition h).bind fun _ m₁ h₁ => .ite (fun _ => ?_) fun _ => .pure h₁.sound
  refine (ih.executePlain hbody hplain (h₁.placed h)).bind ?_
  intro signal m₂ h₂
  split
  · exact .pure h₂.sound
  · exact .pure h₂.sound
  · exact ih.whileLoop hcondition hbody hplain (h₂.placed (h₁.placed h))

theorem goesOn (ih : Behaves course fuel) {condition : Option Expr}
    (hcondition : OptionalFits course condition ribs) (h : Placed course ribs m) :
    Evaluates course (Eval.goesOn fuel course.lookup condition) m := by
  cases condition with
  | none => exact .pure h.sound
  | some condition => exact Evaluates.map (ih.evaluate hcondition h)

theorem step (ih : Behaves course fuel) {update : Option Expr}
    (hupdate : OptionalFits course update ribs) (h : Placed course ribs m) :
    Evaluates course (Eval.step fuel course.lookup update) m := by
  cases update with
  | none => exact .pure h.sound
  | some update => exact Evaluates.discard (ih.evaluate hupdate h)

/-- A round of a `for` may be the last one or not. -/
theorem behindRound (ih : Behaves course fuel) {condition update : Option Expr} {body : Stmt}
    (hcondition : OptionalFits course condition ribs) (hupdate : OptionalFits course update ribs)
    (hbody : body.Fits course ribs) (hplain : body.declaration? = none) (h : Placed course ribs m)
    (signal : Signal) :
    Evaluates course (Eval.behindRound fuel course.lookup condition update body signal) m := by
  cases signal with
  | broke | returned => exact .pure h.sound
  | completed | continued =>
    exact (ih.step hupdate h).bind fun _ m₁ h₁ =>
      ih.forLoop hcondition hupdate hbody hplain (h₁.placed h)

theorem forLoop_succ (ih : Behaves course fuel) {condition update : Option Expr} {body : Stmt}
    (hcondition : OptionalFits course condition ribs) (hupdate : OptionalFits course update ribs)
    (hbody : body.Fits course ribs) (hplain : body.declaration? = none) (h : Placed course ribs m) :
    Evaluates course (Eval.forLoop (fuel + 1) course.lookup condition update body) m := by
  rw [Eval.forLoop_eq]
  refine (ih.goesOn hcondition h).bind fun _ m₁ h₁ => .ite (fun _ => ?_) fun _ => .pure h₁.sound
  exact (ih.executePlain hbody hplain (h₁.placed h)).bind fun signal m₂ h₂ =>
    ih.behindRound hcondition hupdate hbody hplain (h₂.placed (h₁.placed h)) signal

end Behaves

/-- The evaluation of accepted programs is taken in order, however deep it goes and wherever it is
watched. -/
theorem behaves (course : Course)
    (fuel : Nat) : Behaves course fuel := by
  induction fuel with
  | zero => exact .zero
  | succ fuel ih =>
    exact
      { evaluate := ih.evaluate_succ
        evaluateEach := ih.evaluateEach_succ
        attributeValue := ih.attributeValue_succ
        invoke := ih.invoke_succ
        construct := ih.construct_succ
        callFunction := ih.callFunction_succ
        callBody := ih.callBody_succ
        execute := ih.execute_succ
        executeEach := ih.executeEach_succ
        whileLoop := ih.whileLoop_succ
        forLoop := ih.forLoop_succ }

end LoxLang
