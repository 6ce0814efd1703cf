import LoxLang.Proofs.Machine.Calls
import LoxLang.Proofs.Machine.Rounds
import LoxLang.Proofs.Machine.Steps
import LoxLang.Proofs.Syntax.WellFormed

/-!
# Running well-formed code

A store is tidy if all code in it is well formed (`Store.Tidy`). The evaluation of well-formed code
keeps it tidy and never stops at an operator that it does not know (`Proceeds`). There is one lemma
for each function of the evaluation, and `proceeding` puts them together.
-/

namespace LoxLang

/-! ## Tidy stores -/

/-- The methods and getters of a class are well formed; its static methods lie among the functions
of the store. -/
structure ClassObject.Tidy (object : ClassObject) : Prop where
  methods : ∀ {name c}, object.methods.find? name = some c → c.decl.WellFormed
  getters : ∀ {name c}, object.getters.find? name = some c → c.decl.WellFormed

structure Store.Tidy (s : Store) : Prop where
  functions : ∀ {id c}, s.function? id = some c → c.decl.WellFormed
  arrows : ∀ {id c}, s.arrow? id = some c → c.decl.WellFormed
  classes : ∀ {id object}, s.class? id = some object → object.Tidy

def Attribute.Tidy : Attribute → Prop
  | .value _ => True
  | .getter bound => bound.decl.WellFormed

namespace Store.Tidy

variable {s t : Store}

theorem of_eq (h : s.Tidy) (hfunctions : t.functions = s.functions) (harrows : t.arrows = s.arrows)
    (hclasses : t.classes = s.classes) : t.Tidy where
  functions hc := h.functions (by rwa [function?, hfunctions] at hc)
  arrows hc := h.arrows (by rwa [arrow?, harrows] at hc)
  classes ho := h.classes (by rwa [class?, hclasses] at ho)

theorem addFunction (h : s.Tidy) {c : Closure} (hc : c.decl.WellFormed) :
    (s.addFunction c).2.Tidy where
  functions {id d} hd := by
    simp only [Store.addFunction, function?, Array.getElem?_push] at hd
    split at hd
    · cases hd
      exact hc
    · exact h.functions hd
  arrows := h.arrows
  classes := h.classes

theorem addArrow (h : s.Tidy) {c : ArrowClosure} (hc : c.decl.WellFormed) :
    (s.addArrow c).2.Tidy where
  functions := h.functions
  arrows {id d} hd := by
    simp only [Store.addArrow, arrow?, Array.getElem?_push] at hd
    split at hd
    · cases hd
      exact hc
    · exact h.arrows hd
  classes := h.classes

theorem addClass (h : s.Tidy) {object : ClassObject} (hobject : object.Tidy) :
    (s.addClass object).2.Tidy where
  functions := h.functions
  arrows := h.arrows
  classes {id o} ho := by
    rw [Sound.class?_addClass] at ho
    split at ho
    · cases ho
      exact hobject
    · exact h.classes ho

theorem setClassField (h : s.Tidy) (id : ClassId) (name : String) (value : Value) :
    (s.setClassField id name value).Tidy where
  functions := h.functions
  arrows := h.arrows
  classes {other o} ho := by
    simp only [Store.setClassField, class?, Array.getElem?_modify] at ho
    split at ho
    · obtain ⟨old, hold, rfl⟩ := Option.map_eq_some_iff.mp ho
      replace hold : s.class? other = some old := hold
      exact ⟨(h.classes hold).methods, (h.classes hold).getters⟩
    · replace ho : s.class? other = some o := ho
      exact h.classes ho

theorem addStatics (h : s.Tidy) {decls : List FunctionDecl} (hdecls : WellFormedFunctions decls)
    (frame : FrameId) : (Eval.addStatics frame decls s).2.Tidy := by
  unfold Eval.addStatics
  generalize (NameMap.empty : NameMap FunctionId) = statics
  induction decls generalizing s statics with
  | nil => exact h
  | cons decl decls ih => exact ih (h.addFunction (c := ⟨decl, frame, false⟩) hdecls.1) hdecls.2 _

theorem bind (h : s.Tidy) (c : Closure) (id : InstanceId) : (s.bind c id).2.Tidy :=
  h.of_eq rfl rfl rfl

/-- Only functions in the store are made into attributes. -/
theorem attribute? (h : s.Tidy) (id : InstanceId) (name : String) :
    (s.attribute? id name).2.Tidy ∧ ∀ found ∈ (s.attribute? id name).1, found.Tidy := by
  unfold Store.attribute?
  cases hmember : s.member? id name with
  | none => exact ⟨h, nofun⟩
  | some found =>
    obtain ⟨portion, member⟩ := found
    dsimp only
    cases provides_of_member? hmember with
    | value value =>
      refine ⟨h, fun found hfound => ?_⟩
      cases hfound
      trivial
    | getter hportion hobject hc =>
      have hdecl := (h.classes hobject).getters hc
      refine ⟨h.bind _ portion, fun found hfound => ?_⟩
      cases hfound
      exact hdecl
    | method hportion hobject hc =>
      have hdecl := (h.classes hobject).methods hc
      refine ⟨(h.bind _ portion).addFunction hdecl, fun found hfound => ?_⟩
      cases hfound
      trivial

theorem buildPortions (h : s.Tidy) (cs : List ClassId) : (s.buildPortions cs).2.Tidy := by
  induction cs with
  | nil => exact h
  | cons id bases ih => exact ih.of_eq rfl rfl rfl

theorem instantiate (h : s.Tidy) (id : ClassId) : (s.instantiate id).2.Tidy :=
  (h.buildPortions _).of_eq rfl rfl rfl

theorem initializer? (h : s.Tidy) {id portion : InstanceId} {c : Closure}
    (hfound : s.initializer? id = some (portion, c)) : c.decl.WellFormed := by
  cases methods_of_initializer? hfound with
  | method hportion hobject hc => exact (h.classes hobject).methods hc

end Store.Tidy

/-! ## Steps -/

/-- A fault of an operator that the evaluation does not know. -/
def RunFault.BlamesOperator : RunFault → Prop
  | unaryOperator _ | binaryOperator _ => True
  | _ => False

/-- An evaluation of well-formed code may stop for this reason. -/
def Halt.Admissible : Halt → Prop
  | .error (.located cause _) => ¬cause.BlamesOperator
  | _ => True

theorem RunFault.not_blamesOperator_of_name {cause : RunFault} (h : cause.isOfName = true) :
    ¬cause.BlamesOperator := by
  cases cause <;> first | exact not_false | cases h

/-- What is written does not matter to the device. -/
theorem Sink.failFlush_write (sink : Sink) (text : String) :
    (sink.write text).2.failFlush = sink.failFlush := by
  unfold write
  split
  · rfl
  · split <;> rfl

/-- A machine with a tidy store, and whether its device refuses to pass the output on. -/
structure Machine.Tidy (refuses : Bool) (m : Machine) : Prop where
  store : m.store.Tidy
  device : m.sink.failFlush = refuses

/-- Steps keep a store tidy and its device as it is, and blame no operator. -/
abbrev tidiness : Conduct Halt Machine where
  good m := m.store.Tidy
  keeps m after := after.store.Tidy ∧ after.sink.failFlush = m.sink.failFlush
  stops := Halt.Admissible
  refl hm := ⟨hm, rfl⟩
  trans h h' := ⟨h'.1, h'.2.trans h.2⟩
  stays h _ := h.1

/-- A step from tidy stores, and what it gives back. -/
abbrev Proceeds {α : Type} (act : Eval α) (P : α → Prop) : Prop := tidiness.Always act P

/-- A step whose result does not matter. -/
abbrev Goes {α : Type} (act : Eval α) : Prop := Proceeds act fun _ => True

namespace Proceeds

variable {α β : Type} {act : Eval α} {k : α → Eval β} {P : α → Prop} {Q : β → Prop}

/-- A tidy machine is tidy behind a step, and the step stops for admissible reasons only. -/
theorem tidy (h : Proceeds act P) {refuses : Bool} {m : Machine} (hm : m.Tidy refuses) :
    Ends (fun _ after => after.Tidy refuses)
      (fun halt after => after.Tidy refuses ∧ halt.Admissible) (act m) :=
  (h m hm.store).imp (fun _ _ hend => ⟨hend.1.1, hend.1.2.trans hm.device⟩)
    fun _ _ hend => ⟨⟨hend.1.1, hend.1.2.trans hm.device⟩, hend.2⟩

/-! ### Single steps -/

theorem outOfFuel : Proceeds (Eval.outOfFuel : Eval α) P := fun _ hm => ⟨⟨hm, rfl⟩, trivial⟩

theorem fail {cause : RunFault} {token : Token} (h : ¬cause.BlamesOperator) :
    Proceeds (Eval.fail cause token : Eval α) P := fun _ hm => ⟨⟨hm, rfl⟩, h⟩

theorem get : Goes (get : Eval Machine) := fun _ hm => ⟨⟨hm, rfl⟩, trivial⟩

theorem inspect {question : Store → α} (h : ∀ s : Store, s.Tidy → P (question s)) :
    Proceeds (Eval.inspect question) P := fun m hm => ⟨⟨hm, rfl⟩, h m.store hm⟩

/-- The answer to a question does not matter. -/
theorem asked {question : Store → α} (hk : ∀ a, Proceeds (k a) Q) :
    Proceeds (Eval.inspect question >>= k) Q :=
  (inspect (P := fun _ => True) fun _ _ => trivial).andThen hk

theorem changeStore {change : Store → Store} (h : ∀ s : Store, s.Tidy → (change s).Tidy) :
    Goes (Eval.changeStore change) := fun m hm => ⟨⟨h m.store hm, rfl⟩, trivial⟩

theorem updateStore {update : Store → α × Store}
    (h : ∀ s : Store, s.Tidy → (update s).2.Tidy ∧ P (update s).1) :
    Proceeds (Eval.updateStore update) P := fun m hm =>
  have hupdate := h m.store hm
  ⟨⟨hupdate.1, rfl⟩, hupdate.2⟩

theorem computed {result : Computed} {operator : Token}
    (h : ∀ cause, result = .error cause → ¬cause.BlamesOperator) :
    Goes (Eval.computed result operator) := fun _ hm =>
  .computed (fun _ _ => ⟨⟨hm, rfl⟩, trivial⟩) fun cause hcause => ⟨⟨hm, rfl⟩, h cause hcause⟩

theorem openFrame {kind : ScopeKind} : Goes (Eval.openFrame kind) :=
  fun _ hm => ⟨⟨hm.of_eq rfl rfl rfl, rfl⟩, trivial⟩

theorem declare {name : String} {value : Option Value} {isConst : Bool} :
    Goes (Eval.declare name value isConst) :=
  fun _ hm => ⟨⟨hm.of_eq rfl rfl rfl, rfl⟩, trivial⟩

theorem write {text : String} : Goes (Eval.write text) := fun m hm =>
  have hdevice := m.sink.failFlush_write text
  .write ⟨⟨hm, hdevice⟩, trivial⟩ fun _ => ⟨⟨hm, hdevice⟩, trivial⟩

theorem within (h : Proceeds act P) (frame : FrameId) : Proceeds (Eval.within frame act) P :=
  fun m hm => .within (h { m with here := frame } hm)

theorem counted (h : Proceeds act P) (place : Token) : Proceeds (Eval.counted place act) P :=
  fun m hm => .counted ⟨⟨hm, rfl⟩, not_false⟩ fun _ => h { m with depth := m.depth + 1 } hm

theorem readName {lookup : Lookup} {id : NodeId} {name : Token} :
    Goes (Eval.readName lookup id name) := fun _ hm =>
  .readName (fun _ => ⟨⟨hm, rfl⟩, trivial⟩)
    (fun _ _ hcause => ⟨⟨hm, rfl⟩, RunFault.not_blamesOperator_of_name hcause⟩)
    fun _ => ⟨⟨hm, rfl⟩, trivial⟩

theorem writeName {lookup : Lookup} {id : NodeId} {name : Token} {value : Value} :
    Goes (Eval.writeName lookup id name value) := fun _ hm =>
  .writeName (fun _ => ⟨⟨hm, rfl⟩, trivial⟩)
    (fun _ _ hcause => ⟨⟨hm, rfl⟩, RunFault.not_blamesOperator_of_name hcause⟩)
    fun _ => ⟨⟨hm.of_eq rfl rfl rfl, rfl⟩, trivial⟩

end Proceeds

/-! ## Operators -/

namespace Value

variable {cause : RunFault}

theorem not_blamesOperator_applyUnary {operator : UnaryOperator} {value : Value}
    (h : value.applyUnary operator = .error cause) : ¬cause.BlamesOperator := by
  unfold applyUnary negate at h
  split at h
  · split at h
    · split at h <;> cases h
    · cases h
    · cases h
      exact not_false
  · cases h
  · cases h

theorem not_blamesOperator_floatArithmetic {operator : Arithmetic} {x y : Float}
    (h : floatArithmetic operator x y = .error cause) : ¬cause.BlamesOperator := by
  unfold floatArithmetic at h
  split at h
  all_goals first
    | cases h
    | (split at h <;> cases h; exact not_false)

theorem not_blamesOperator_arithmetic {operator : Arithmetic} {lexeme : String} {left right : Value}
    (h : arithmetic operator lexeme left right = .error cause) : ¬cause.BlamesOperator := by
  unfold arithmetic at h
  split at h
  · split at h
    · cases h
    · exact not_blamesOperator_floatArithmetic h
  · split at h
    · exact not_blamesOperator_floatArithmetic h
    · cases h
      exact not_false

theorem not_blamesOperator_order {lexeme : String} {left right : Value}
    (h : order lexeme left right = .error cause) : ¬cause.BlamesOperator := by
  unfold order at h
  split at h
  · cases h
  · cases h
  · split at h <;> cases h
    exact not_false

/-- The operator of a binary node is known, so it is not blamed. -/
theorem not_blamesOperator_applyBinary {operator : Token} {left right : Value}
    (hknown : (BinaryOperator.ofKind? operator.kind).isSome)
    (h : applyBinary operator left right = .error cause) : ¬cause.BlamesOperator := by
  obtain ⟨known, hknown⟩ := Option.isSome_iff_exists.mp hknown
  unfold applyBinary at h
  rw [hknown] at h
  cases known with
  | equal | notEqual => cases h
  | arithmetic op =>
    dsimp only at h
    split at h
    · split at h
      · cases h
      · exact not_blamesOperator_arithmetic h
    · cases h
      exact not_false
  | comparison op =>
    dsimp only at h
    split at h
    · cases horder : order operator.lexeme left right with
      | ok found =>
        rw [horder] at h
        cases h
      | error other =>
        rw [horder] at h
        cases h
        exact not_blamesOperator_order horder
    · cases h
      exact not_false

end Value

/-! ## Functions and classes -/

namespace Proceeds

theorem declareFunction {decl : FunctionDecl} (h : decl.WellFormed) :
    Goes (Eval.declareFunction decl) :=
  get.andThen fun _ =>
    (updateStore (P := fun _ => True) fun _ hs => ⟨hs.addFunction h, trivial⟩).andThen
      fun _ => declare

theorem declareClass {decl : ClassDecl} {base : Option ClassId} (h : decl.WellFormed) :
    Goes (Eval.declareClass decl base) := by
  obtain ⟨name, base', methods, statics, getters⟩ := decl
  obtain ⟨-, -, hmethods, hstatics, hgetters⟩ := h
  have hclosures {decls : List FunctionDecl} (hdecls : WellFormedFunctions decls) {frame : FrameId}
      {hasInitializer : Bool} {name : String} {c : Closure}
      (hc : (Eval.closures frame decls hasInitializer).find? name = some c) : c.decl.WellFormed :=
    wellFormedFunctions_iff.mp hdecls c.decl (exists_of_closures hc).1
  refine get.bind fun m _ => .andThen (P := fun _ => True) (updateStore ?_)
    fun _ => declare
  intro s hs
  exact ⟨(hs.addStatics hstatics m.here).addClass ⟨hclosures hmethods, hclosures hgetters⟩, trivial⟩

theorem asBaseClass {decl : ClassDecl} {base : Expr} {value : Value} :
    Goes (Eval.asBaseClass decl base value) := fun _ hm =>
  .asBaseClass (fun _ _ => ⟨⟨hm, rfl⟩, trivial⟩) fun _ _ => ⟨⟨hm, rfl⟩, not_false⟩

theorem instanceAttribute? {id : InstanceId} {name : String} :
    Proceeds (Eval.instanceAttribute? id name) fun found => ∀ a ∈ found, a.Tidy :=
  updateStore fun _ hs => hs.attribute? id name

theorem checkCall {callee : Value} {paren : Token} {given : Nat} :
    Goes (Eval.checkCall callee paren given) := fun _ hm =>
  .checkCall (fun _ _ _ => ⟨⟨hm, rfl⟩, trivial⟩) (fun _ _ => ⟨⟨hm, rfl⟩, not_false⟩)
    fun _ => ⟨⟨hm, rfl⟩, not_false⟩

theorem callNative {id : NativeId} {args : List Value} {paren : Token} :
    Goes (Eval.callNative id args paren) := fun _ hm =>
  .callNative (fun _ _ _ => ⟨⟨hm, rfl⟩, trivial⟩) fun _ _ => ⟨⟨hm, rfl⟩, not_false⟩

theorem initializedObject {bound : Closure} : Goes (Eval.initializedObject bound) := fun _ hm =>
  .ask (fun _ _ => ⟨⟨hm, rfl⟩, trivial⟩) fun error herror => by
    obtain ⟨cause, token, rfl, hcause⟩ := AboutName.getAt error herror
    exact ⟨⟨hm, rfl⟩, RunFault.not_blamesOperator_of_name hcause⟩

end Proceeds

/-! ## Evaluation -/

/-- How the evaluation of well-formed code goes with a bound on its depth. -/
structure Proceeding (lookup : Lookup) (fuel : Nat) : Prop where
  evaluate : ∀ e, e.WellFormed → Goes (Eval.evaluate fuel lookup e)
  evaluateEach : ∀ es, WellFormedEach es → Goes (Eval.evaluateEach fuel lookup es)
  attributeValue : ∀ found name, found.Tidy → Goes (Eval.attributeValue fuel lookup found name)
  invoke : ∀ callee paren args, Goes (Eval.invoke fuel lookup callee paren args)
  construct : ∀ object args paren, Goes (Eval.construct fuel lookup object args paren)
  callFunction : ∀ c args place, c.decl.WellFormed →
    Goes (Eval.callFunction fuel lookup c args place)
  callBody : ∀ outer params body args place, WellFormedBody body false →
    Goes (Eval.callBody fuel lookup outer params body args place)
  execute : ∀ s {inLoop}, s.WellFormed inLoop → Goes (Eval.execute fuel lookup s)
  executeEach : ∀ ss {inLoop}, WellFormedBody ss inLoop → Goes (Eval.executeEach fuel lookup ss)
  whileLoop : ∀ condition body, condition.WellFormed → body.WellFormed true →
    Goes (Eval.whileLoop fuel lookup condition body)
  forLoop : ∀ condition update body, WellFormedOptional condition → WellFormedOptional update →
    body.WellFormed true → Goes (Eval.forLoop fuel lookup condition update body)

namespace Proceeding

open Proceeds

variable {lookup : Lookup} {fuel : Nat}

theorem zero : Proceeding lookup 0 where
  evaluate _ _ := by rw [Eval.evaluate]; exact .outOfFuel
  evaluateEach _ _ := by rw [Eval.evaluateEach]; exact .outOfFuel
  attributeValue _ _ _ := by rw [Eval.attributeValue]; exact .outOfFuel
  invoke _ _ _ := by rw [Eval.invoke]; exact .outOfFuel
  construct _ _ _ := by rw [Eval.construct]; exact .outOfFuel
  callFunction _ _ _ _ := by rw [Eval.callFunction]; exact .outOfFuel
  callBody _ _ _ _ _ _ := by rw [Eval.callBody]; exact .outOfFuel
  execute _ _ _ := by rw [Eval.execute]; exact .outOfFuel
  executeEach _ _ _ := by rw [Eval.executeEach]; exact .outOfFuel
  whileLoop _ _ _ _ := by rw [Eval.whileLoop]; exact .outOfFuel
  forLoop _ _ _ _ _ _ := by rw [Eval.forLoop]; exact .outOfFuel

theorem evaluate_get (ih : Proceeding lookup fuel) {object : Expr} {name : Token}
    (h : (Expr.get object name).WellFormed) :
    Goes (Eval.evaluate (fuel + 1) lookup (.get object name)) := by
  rw [Eval.evaluate]
  refine (ih.evaluate object h).bind ?_
  intro value _
  split
  · refine instanceAttribute?.bind ?_
    intro found hfound
    cases found with
    | some found => exact ih.attributeValue found name (hfound found rfl)
    | none => exact asked fun className => fail not_false
  · refine asked ?_
    intro found
    cases found with
    | some value => exact .pure trivial
    | none => exact asked fun className => fail not_false
  · exact fail not_false

theorem evaluate_set (ih : Proceeding lookup fuel) {object value : Expr} {name : Token}
    (h : (Expr.set object name value).WellFormed) :
    Goes (Eval.evaluate (fuel + 1) lookup (.set object name value)) := by
  rw [Eval.evaluate]
  refine (ih.evaluate object h.1).bind ?_
  intro object _
  split
  · exact (ih.evaluate value h.2).bind fun _ _ =>
      .andThen (changeStore fun _ hs => hs.of_eq rfl rfl rfl) fun _ => .pure trivial
  · exact (ih.evaluate value h.2).bind fun _ _ =>
      .andThen (changeStore fun _ hs => hs.setClassField _ _ _) fun _ => .pure trivial
  · exact fail not_false

theorem evaluate_super (ih : Proceeding lookup fuel) {id : NodeId} {keyword method : Token} :
    Goes (Eval.evaluate (fuel + 1) lookup (.super id keyword method)) := by
  rw [Eval.evaluate]
  refine readName.bind ?_
  intro base _
  split
  · refine instanceAttribute?.bind ?_
    intro found hfound
    cases found with
    | some found => exact ih.attributeValue found method (hfound found rfl)
    | none => exact asked fun className => fail not_false
  · exact fail not_false

theorem evaluate_succ (ih : Proceeding lookup fuel) (e : Expr) (h : e.WellFormed) :
    Goes (Eval.evaluate (fuel + 1) lookup e) := by
  cases e with
  | literal value =>
    rw [Eval.evaluate]
    exact .pure trivial
  | grouping inner =>
    rw [Eval.evaluate]
    exact ih.evaluate inner h
  | unary operator right =>
    rw [Eval.evaluate]
    obtain ⟨hknown, hright⟩ := h
    obtain ⟨known, hknown⟩ := Option.isSome_iff_exists.mp hknown
    refine (ih.evaluate right hright).bind fun value _ => ?_
    rw [hknown]
    exact computed fun _ => Value.not_blamesOperator_applyUnary
  | binary left operator right =>
    rw [Eval.evaluate]
    obtain ⟨hknown, hleft, hright⟩ := h
    refine (ih.evaluate left hleft).bind fun _ _ => (ih.evaluate right hright).bind fun _ _ =>
      .ite (fun _ => .pure trivial) fun hcomma => computed fun _ =>
        Value.not_blamesOperator_applyBinary ?_
    exact ((Bool.or_eq_true _ _).mp hknown).resolve_left hcomma
  | logical left operator right =>
    rw [Eval.evaluate]
    exact (ih.evaluate left h.2.1).bind fun _ _ => .ite (fun _ => .pure trivial) fun _ =>
      ih.evaluate right h.2.2
  | ternary condition question thenBranch elseBranch =>
    rw [Eval.evaluate]
    exact (ih.evaluate condition h.1).bind fun _ _ =>
      .ite (fun _ => ih.evaluate thenBranch h.2.1) fun _ => ih.evaluate elseBranch h.2.2
  | «variable» id name =>
    rw [Eval.evaluate]
    exact .readName
  | assign id name value =>
    rw [Eval.evaluate]
    exact (ih.evaluate value h).bind fun _ _ => writeName.bind fun _ _ => .pure trivial
  | call callee paren arguments =>
    rw [Eval.evaluate]
    exact (ih.evaluate callee h.1).bind fun callee _ =>
      (ih.evaluateEach arguments h.2.2).bind fun args _ =>
      ih.invoke callee paren args
  | get object name => exact ih.evaluate_get h
  | set object name value => exact ih.evaluate_set h
  | this id keyword =>
    rw [Eval.evaluate]
    exact .readName
  | super id keyword method => exact ih.evaluate_super
  | arrow decl =>
    rw [Eval.evaluate]
    have hadd (frame : FrameId) : Goes (Eval.updateStore fun s => s.addArrow ⟨decl, frame⟩) :=
      updateStore fun _ hs => ⟨hs.addArrow h, trivial⟩
    exact Proceeds.get.bind fun m _ => (hadd m.here).bind fun _ _ => .pure trivial

theorem evaluateEach_succ (ih : Proceeding lookup fuel) (es : List Expr) (h : WellFormedEach es) :
    Goes (Eval.evaluateEach (fuel + 1) lookup es) := by
  cases es with rw [Eval.evaluateEach]
  | nil => exact .pure trivial
  | cons e es =>
    exact (ih.evaluate e h.1).bind fun _ _ => (ih.evaluateEach es h.2).bind fun _ _ => .pure trivial

theorem attributeValue_succ (ih : Proceeding lookup fuel) (found : Attribute) (name : Token)
    (h : found.Tidy) : Goes (Eval.attributeValue (fuel + 1) lookup found name) := by
  cases found with rw [Eval.attributeValue]
  | value value => exact .pure trivial
  | getter bound => exact ih.callFunction bound [] name h

theorem invoke_succ (ih : Proceeding lookup fuel) (callee : Value) (paren : Token)
    (args : List Value) : Goes (Eval.invoke (fuel + 1) lookup callee paren args) := by
  rw [Eval.invoke]
  refine checkCall.bind ?_
  intro c _
  cases c with
  | native id => exact callNative
  | function id =>
    have hfound : Proceeds (Eval.inspect fun s => s.function? id) fun found =>
        ∀ c ∈ found, c.decl.WellFormed := inspect fun s hs c hc => hs.functions hc
    refine hfound.bind ?_
    intro found hdecl
    cases found with
    | some c => exact ih.callFunction c args paren (hdecl c rfl)
    | none => exact .pure trivial
  | arrow id =>
    have hfound : Proceeds (Eval.inspect fun s => s.arrow? id) fun found =>
        ∀ c ∈ found, c.decl.WellFormed := inspect fun s hs c hc => hs.arrows hc
    refine hfound.bind ?_
    intro found hdecl
    cases found with
    | some c =>
      have hbody := (hdecl c rfl).body
      exact (ih.callBody c.frame c.decl.params c.decl.body args paren hbody).bind fun _ _ =>
        .pure trivial
    | none => exact .pure trivial
  | «class» id =>
    refine asked ?_
    intro found
    cases found with
    | some object =>
      have hmake : Goes (Eval.updateStore fun s => s.instantiate id) :=
        updateStore fun _ hs => ⟨hs.instantiate id, trivial⟩
      exact hmake.bind fun made _ => (ih.construct made args paren).bind fun _ _ => .pure trivial
    | none => exact .pure trivial

theorem construct_succ (ih : Proceeding lookup fuel) (object : InstanceId) (args : List Value)
    (paren : Token) : Goes (Eval.construct (fuel + 1) lookup object args paren) := by
  rw [Eval.construct]
  have hfound : Proceeds (Eval.inspect fun s => s.initializer? object) fun found =>
      ∀ entry ∈ found, entry.2.decl.WellFormed := inspect fun s hs _ hc => hs.initializer? hc
  refine hfound.bind ?_
  intro found hdecl
  cases found with
  | some found =>
    have hbound : Proceeds (Eval.updateStore fun s => s.bind found.2 found.1) fun bound =>
        bound.decl.WellFormed := updateStore fun s hs => ⟨hs.bind _ _, hdecl found rfl⟩
    exact hbound.bind fun bound hbound => (ih.callFunction bound args paren hbound).discard
  | none => exact .pure trivial

theorem callFunction_succ (ih : Proceeding lookup fuel) (c : Closure) (args : List Value)
    (place : Token) (h : c.decl.WellFormed) :
    Goes (Eval.callFunction (fuel + 1) lookup c args place) := by
  rw [Eval.callFunction]
  exact (ih.callBody c.frame c.decl.params c.decl.body args place h.body).bind fun signal _ =>
    .ite (fun _ => initializedObject) fun _ => .pure trivial

theorem callBody_succ (ih : Proceeding lookup fuel) (outer : FrameId) (params : List Token)
    (body : List Stmt) (args : List Value) (place : Token) (h : WellFormedBody body false) :
    Goes (Eval.callBody (fuel + 1) lookup outer params body args place) := by
  rw [Eval.callBody]
  have hopen : Goes (Eval.updateStore fun s =>
      s.addFrame (Eval.parameterFrame params body args outer)) :=
    updateStore fun _ hs => ⟨hs.of_eq rfl rfl rfl, trivial⟩
  exact hopen.bind fun frame _ => ((ih.executeEach body h).within frame).counted place

theorem execute_succ (ih : Proceeding lookup fuel) (s : Stmt) {inLoop : Bool}
    (h : s.WellFormed inLoop) : Goes (Eval.execute (fuel + 1) lookup s) := by
  cases s with
  | expression value =>
    rw [Eval.execute]
    exact (ih.evaluate value h).discard.bind fun _ _ => .pure trivial
  | print value | println value =>
    rw [Eval.execute]
    exact (ih.evaluate value h).bind fun _ _ => asked fun text => write.bind fun _ _ =>
      .pure trivial
  | var name initializer =>
    cases initializer with rw [Eval.execute]
    | none => exact declare.bind fun _ _ => .pure trivial
    | some initializer =>
      exact (ih.evaluate initializer h).bind fun _ _ => declare.bind fun _ _ => .pure trivial
  | const name initializer =>
    rw [Eval.execute]
    exact (ih.evaluate initializer h).bind fun _ _ => declare.bind fun _ _ => .pure trivial
  | block body =>
    rw [Eval.execute]
    exact openFrame.bind fun frame _ => (ih.executeEach body h).within frame
  | ifElse condition thenBranch elseBranch =>
    obtain ⟨hc, ht, he⟩ := h
    cases elseBranch with rw [Eval.execute]
    | none =>
      exact (ih.evaluate condition hc).bind fun _ _ =>
        .ite (fun _ => ih.execute thenBranch ht) fun _ => .pure trivial
    | some elseBranch =>
      exact (ih.evaluate condition hc).bind fun _ _ =>
        .ite (fun _ => ih.execute thenBranch ht) fun _ => ih.execute elseBranch he
  | «while» condition body =>
    rw [Eval.execute]
    exact ih.whileLoop condition body h.1 h.2
  | «for» initializer condition update body =>
    obtain ⟨hi, hc, hu, -, hb⟩ := h
    rw [Eval.execute]
    refine openFrame.bind fun frame _ => within ?_ frame
    cases initializer with
    | none => exact ih.forLoop condition update body hc hu hb
    | some initializer =>
      exact (ih.execute initializer hi).discard.bind fun _ _ =>
        ih.forLoop condition update body hc hu hb
  | «break» keyword | «continue» keyword =>
    rw [Eval.execute]
    exact .pure trivial
  | assert keyword condition message =>
    rw [Eval.execute]
    refine (ih.evaluate condition h.1).bind fun _ _ =>
      .ite (fun _ => .pure trivial) fun _ => ?_
    cases message with
    | none => exact fail not_false
    | some message =>
      exact (ih.evaluate message h.2).bind fun _ _ => asked fun text => fail not_false
  | function decl =>
    rw [Eval.execute]
    exact (declareFunction h).bind fun _ _ => .pure trivial
  | «return» keyword value =>
    cases value with rw [Eval.execute]
    | none => exact .pure trivial
    | some value => exact (ih.evaluate value h).bind fun _ _ => .pure trivial
  | «class» decl =>
    have hdeclare (base : Option ClassId) : Goes (do
        Eval.declareClass decl base
        return Signal.completed) := (declareClass h).bind fun _ _ => .pure trivial
    obtain ⟨name, base, methods, statics, getters⟩ := decl
    cases base with rw [Eval.execute]
    | none => exact hdeclare none
    | some base =>
      obtain ⟨id, baseName, rfl⟩ := h.1 base rfl
      have hvalue : Goes (Eval.evaluate fuel lookup (.variable id baseName)) :=
        ih.evaluate _ trivial
      exact hvalue.bind fun value _ => asBaseClass.map.bind fun base _ => hdeclare base

theorem executeEach_succ (ih : Proceeding lookup fuel) (ss : List Stmt) {inLoop : Bool}
    (h : WellFormedBody ss inLoop) : Goes (Eval.executeEach (fuel + 1) lookup ss) := by
  cases ss with rw [Eval.executeEach]
  | nil => exact .pure trivial
  | cons s ss =>
    refine (ih.execute s h.1).bind ?_
    intro signal _
    cases signal with
    | completed => exact ih.executeEach ss h.2
    | broke | continued | returned => exact .pure trivial

theorem whileLoop_succ (ih : Proceeding lookup fuel) (condition : Expr) (body : Stmt)
    (hc : condition.WellFormed) (hb : body.WellFormed true) :
    Goes (Eval.whileLoop (fuel + 1) lookup condition body) := by
  rw [Eval.whileLoop]
  refine (ih.evaluate condition hc).bind fun _ _ =>
    .ite (fun _ => (ih.execute body hb).bind fun signal _ => ?_) fun _ => .pure trivial
  cases signal with
  | broke | returned => exact .pure trivial
  | completed | continued => exact ih.whileLoop condition body hc hb

theorem goesOn (ih : Proceeding lookup fuel) (condition : Option Expr)
    (h : WellFormedOptional condition) : Goes (Eval.goesOn fuel lookup condition) := by
  cases condition with
  | none => exact .pure trivial
  | some condition => exact (ih.evaluate condition h).map

theorem step (ih : Proceeding lookup fuel) (update : Option Expr) (h : WellFormedOptional update) :
    Goes (Eval.step fuel lookup update) := by
  cases update with
  | none => exact .pure trivial
  | some update => exact (ih.evaluate update h).discard

theorem forLoop_succ (ih : Proceeding lookup fuel) (condition update : Option Expr) (body : Stmt)
    (hc : WellFormedOptional condition) (hu : WellFormedOptional update)
    (hb : body.WellFormed true) :
    Goes (Eval.forLoop (fuel + 1) lookup condition update body) := by
  rw [Eval.forLoop_eq]
  refine (ih.goesOn condition hc).bind fun _ _ =>
    .ite (fun _ => (ih.execute body hb).bind fun signal _ => ?_) fun _ => .pure trivial
  cases signal with
  | broke | returned => exact .pure trivial
  | completed | continued =>
    exact (ih.step update hu).bind fun _ _ => ih.forLoop condition update body hc hu hb

end Proceeding

theorem proceeding (lookup : Lookup) (fuel : Nat) : Proceeding lookup fuel := by
  induction fuel with
  | zero => exact .zero
  | succ fuel ih =>
    exact
      { evaluate := ih.evaluate_succ
        evaluateEach := ih.evaluateEach_succ
        attributeValue := ih.attributeValue_succ
        invoke := ih.invoke_succ
        construct := ih.construct_succ
        callFunction := ih.callFunction_succ
        callBody := ih.callBody_succ
        execute := ih.execute_succ
        executeEach := ih.executeEach_succ
        whileLoop := ih.whileLoop_succ
        forLoop := ih.forLoop_succ }

/-- The run of a well-formed program. -/
theorem Machine.interpret_orderly (bound : Nat) (lookup : Lookup) {program : List Stmt}
    (h : WellFormedBody program false) {refuses : Bool} {m : Machine} (hm : m.Tidy refuses) :
    (m.interpret bound lookup program).2.Tidy refuses ∧
      ∀ halt, (m.interpret bound lookup program).1 = .error halt → halt.Admissible := by
  induction program generalizing m with
  | nil =>
    rw [interpret]
    split
    · refine ⟨hm, fun halt hhalt => ?_⟩
      cases hhalt
      trivial
    · exact ⟨hm, fun _ hhalt => nomatch hhalt⟩
  | cons s rest ih =>
    have hexecute := ((proceeding lookup bound).execute s h.1).tidy hm
    rw [interpret]
    cases hrun : Eval.execute bound lookup s m with
    | ok signal after => exact ih h.2 (hexecute.ok hrun)
    | error halt after =>
      obtain ⟨⟨hstore, hdevice⟩, hadmissible⟩ := hexecute.error hrun
      refine ⟨⟨hstore, hdevice⟩, fun other hother => ?_⟩
      cases hother
      exact hadmissible

end LoxLang
