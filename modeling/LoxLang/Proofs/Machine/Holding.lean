import LoxLang.Proofs.Machine.Holds
import LoxLang.Proofs.Machine.Rounds

/-!
# Evaluation between whole stores

The evaluation of well-formed code leads from a whole store to a later whole one, and what it gives
back is known there. `Holding` says so of all functions of the evaluation with a bound on its depth;
there is one lemma for each function that goes from a bound to the next one, and `holding` puts them
together.
-/

namespace LoxLang

/-- The value that is returned is known. -/
def Signal.Known (s : Store) (signal : Signal) : Prop :=
  ∀ value, signal = .returned value → value.Known s

theorem Signal.Known.callValue {s : Store} {signal : Signal} (h : signal.Known s) :
    signal.callValue.Known s := by
  cases signal with
  | returned value => exact h value rfl
  | completed | broke | continued => trivial

theorem Signal.known_completed {s : Store} : Signal.Known s .completed := by
  intro value hvalue
  cases hvalue

/-- How the evaluation of well-formed code holds with a bound on its depth. -/
structure Holding (lookup : Lookup) (fuel : Nat) : Prop where
  evaluate : ∀ {e} m, e.WellFormed →
    Holds (Eval.evaluate fuel lookup e) m fun s value => value.Known s
  evaluateEach : ∀ {es} m, WellFormedEach es →
    Holds (Eval.evaluateEach fuel lookup es) m fun s values => ∀ v ∈ values, v.Known s
  attributeValue : ∀ {found} name m, found.Whole m.store →
    Holds (Eval.attributeValue fuel lookup found name) m fun s value => value.Known s
  invoke : ∀ {args} callee paren m, (∀ v ∈ args, v.Known m.store) →
    Holds (Eval.invoke fuel lookup callee paren args) m fun s value => value.Known s
  construct : ∀ {args} object paren m, (∀ v ∈ args, v.Known m.store) →
    Continues (Eval.construct fuel lookup object args paren) m
  callFunction : ∀ {c args} place m, c.decl.WellFormed → (∀ v ∈ args, v.Known m.store) →
    Holds (Eval.callFunction fuel lookup c args place) m fun s value => value.Known s
  callBody : ∀ {body args} outer params place m, WellFormedBody body false →
    (∀ v ∈ args, v.Known m.store) →
    Holds (Eval.callBody fuel lookup outer params body args place) m fun s signal => signal.Known s
  execute : ∀ {s inLoop} m, s.WellFormed inLoop →
    Holds (Eval.execute fuel lookup s) m fun s signal => signal.Known s
  executeEach : ∀ {ss inLoop} m, WellFormedBody ss inLoop →
    Holds (Eval.executeEach fuel lookup ss) m fun s signal => signal.Known s
  whileLoop : ∀ {condition body} m, condition.WellFormed → body.WellFormed true →
    Holds (Eval.whileLoop fuel lookup condition body) m fun s signal => signal.Known s
  forLoop : ∀ {condition update body} m, WellFormedOptional condition → WellFormedOptional update →
    body.WellFormed true →
    Holds (Eval.forLoop fuel lookup condition update body) m fun s signal => signal.Known s

namespace Holding

open Holds

variable {lookup : Lookup} {fuel : Nat}

theorem zero : Holding lookup 0 where
  evaluate _ _ := by rw [Eval.evaluate]; exact .outOfFuel
  evaluateEach _ _ := by rw [Eval.evaluateEach]; exact .outOfFuel
  attributeValue _ _ _ := by rw [Eval.attributeValue]; exact .outOfFuel
  invoke _ _ _ _ := by rw [Eval.invoke]; exact .outOfFuel
  construct _ _ _ _ := by rw [Eval.construct]; exact .outOfFuel
  callFunction _ _ _ _ := by rw [Eval.callFunction]; exact .outOfFuel
  callBody _ _ _ _ _ _ := by rw [Eval.callBody]; exact .outOfFuel
  execute _ _ := by rw [Eval.execute]; exact .outOfFuel
  executeEach _ _ := by rw [Eval.executeEach]; exact .outOfFuel
  whileLoop _ _ _ := by rw [Eval.whileLoop]; exact .outOfFuel
  forLoop _ _ _ _ := by rw [Eval.forLoop]; exact .outOfFuel

/-! ## Expressions -/

theorem evaluate_get (ih : Holding lookup fuel) {object : Expr} {name : Token} (m : Machine)
    (h : (Expr.get object name).WellFormed) :
    Holds (Eval.evaluate (fuel + 1) lookup (.get object name)) m fun s value => value.Known s := by
  rw [Eval.evaluate]
  refine (ih.evaluate (e := object) m h).bind ?_
  intro value m₁ _ hm₁ _
  split
  · refine instanceAttribute.bind ?_
    intro found m₂ _ _ hfound
    cases found with
    | some found => exact ih.attributeValue name m₂ (hfound found rfl)
    | none => exact inspect fail
  · refine inspect ?_
    split
    · next hfound => exact .pure (hm₁.store.classAttribute? hfound)
    · exact .inspect fail
  · exact fail

theorem evaluate_set (ih : Holding lookup fuel) {object value : Expr} {name : Token} (m : Machine)
    (h : (Expr.set object name value).WellFormed) :
    Holds (Eval.evaluate (fuel + 1) lookup (.set object name value)) m
      fun s value => value.Known s := by
  rw [Eval.evaluate]
  refine (ih.evaluate m h.1).bind ?_
  intro object m₁ _ _ _
  split
  · refine (ih.evaluate m₁ h.2).bind fun value m₂ _ hm₂ hvalue => ?_
    refine .bind (changeStore fun hm => hm.store.setInstanceField _ _ hvalue) ?_
    exact fun _ m₃ h₃ _ _ => .pure (hvalue.mono h₃.store.precedes)
  · refine (ih.evaluate m₁ h.2).bind fun value m₂ _ hm₂ hvalue => ?_
    refine .bind (changeStore fun hm => hm.store.setClassField _ _ hvalue) ?_
    exact fun _ m₃ h₃ _ _ => .pure (hvalue.mono h₃.store.precedes)
  · exact fail

theorem evaluate_super (ih : Holding lookup fuel) {id : NodeId} {keyword method : Token}
    (m : Machine) : Holds (Eval.evaluate (fuel + 1) lookup (.super id keyword method)) m
      fun s value => value.Known s := by
  rw [Eval.evaluate]
  refine readName.bind ?_
  intro base m₁ _ _ _
  split
  · refine instanceAttribute.bind ?_
    intro found m₂ _ _ hfound
    cases found with
    | some found => exact ih.attributeValue method m₂ (hfound found rfl)
    | none => exact inspect fail
  · exact fail

theorem evaluate_succ (ih : Holding lookup fuel) {e : Expr} (m : Machine) (h : e.WellFormed) :
    Holds (Eval.evaluate (fuel + 1) lookup e) m fun s value => value.Known s := by
  cases e with
  | literal value =>
    rw [Eval.evaluate]
    exact .pure ((Eval.scalar_literalValue value).known _)
  | grouping inner =>
    rw [Eval.evaluate]
    exact ih.evaluate (e := inner) m h
  | unary operator right =>
    rw [Eval.evaluate]
    refine (ih.evaluate m h.2).bind fun value m₁ _ _ _ => ?_
    split
    · exact computed fun _ h => (Value.scalar_applyUnary h).known _
    · exact fail
  | binary left operator right =>
    rw [Eval.evaluate]
    refine (ih.evaluate m h.2.1).bind fun _ m₁ _ _ _ =>
      (ih.evaluate m₁ h.2.2).bind fun _ m₂ _ _ hright => ?_
    exact .ite (fun _ => .pure hright) fun _ =>
      computed fun _ h => (Value.scalar_applyBinary h).known _
  | logical left operator right =>
    rw [Eval.evaluate]
    exact (ih.evaluate m h.2.1).bind fun _ m₁ _ _ hleft =>
      .ite (fun _ => .pure hleft) fun _ => ih.evaluate m₁ h.2.2
  | ternary condition question thenBranch elseBranch =>
    rw [Eval.evaluate]
    exact (ih.evaluate m h.1).bind fun _ m₁ _ _ _ =>
      .ite (fun _ => ih.evaluate m₁ h.2.1) fun _ => ih.evaluate m₁ h.2.2
  | «variable» id name | this id keyword =>
    rw [Eval.evaluate]
    exact .readName
  | assign id name value =>
    rw [Eval.evaluate]
    refine (ih.evaluate (e := value) m h).bind fun _ m₁ _ _ hvalue => ?_
    exact (writeName hvalue).bind fun _ m₂ h₂ _ _ => .pure (hvalue.mono h₂.store.precedes)
  | call callee paren arguments =>
    rw [Eval.evaluate]
    exact (ih.evaluate m h.1).bind fun callee m₁ _ _ _ =>
      (ih.evaluateEach m₁ h.2.2).bind fun args m₂ _ _ hargs => ih.invoke callee paren m₂ hargs
  | get object name => exact ih.evaluate_get m h
  | set object name value => exact ih.evaluate_set m h
  | super id keyword method => exact ih.evaluate_super m
  | arrow decl =>
    rw [Eval.evaluate]
    have hadd : Continues (Eval.updateStore fun s => s.addArrow ⟨decl, m.here⟩) m :=
      .updateStore fun hm => ⟨hm.store.addArrow h, trivial⟩
    exact .get (hadd.bind fun _ _ _ _ _ => .pure trivial)

theorem evaluateEach_succ (ih : Holding lookup fuel) {es : List Expr} (m : Machine)
    (h : WellFormedEach es) :
    Holds (Eval.evaluateEach (fuel + 1) lookup es) m fun s values => ∀ v ∈ values, v.Known s := by
  cases es with rw [Eval.evaluateEach]
  | nil => exact .pure fun v hv => absurd hv List.not_mem_nil
  | cons e es =>
    refine (ih.evaluate m h.1).bind fun value m₁ _ _ hvalue =>
      (ih.evaluateEach m₁ h.2).bind fun values m₂ h₂ _ hvalues => .pure ?_
    exact List.forall_mem_cons.mpr ⟨hvalue.mono h₂.store.precedes, hvalues⟩

/-! ## Calls -/

theorem attributeValue_succ (ih : Holding lookup fuel) {found : Attribute} (name : Token)
    (m : Machine) (h : found.Whole m.store) :
    Holds (Eval.attributeValue (fuel + 1) lookup found name) m fun s value => value.Known s := by
  cases found with rw [Eval.attributeValue]
  | value value => exact .pure h
  | getter bound =>
    exact ih.callFunction name m h.1 fun v hv => absurd hv List.not_mem_nil

theorem invoke_succ (ih : Holding lookup fuel) {args : List Value} (callee : Value) (paren : Token)
    (m : Machine) (hargs : ∀ v ∈ args, v.Known m.store) :
    Holds (Eval.invoke (fuel + 1) lookup callee paren args) m fun s value => value.Known s := by
  rw [Eval.invoke]
  refine checkCall.bind ?_
  intro c m₁ h₁ hm₁ _
  have hargs₁ : ∀ v ∈ args, v.Known m₁.store := fun v hv => (hargs v hv).mono h₁.store.precedes
  cases c with
  | native id => exact callNative
  | function id =>
    refine inspect ?_
    cases hc : m₁.store.function? id with
    | some c => exact ih.callFunction paren m₁ (hm₁.store.tidy.functions hc) hargs₁
    | none => exact .pure trivial
  | arrow id =>
    refine inspect ?_
    cases hc : m₁.store.arrow? id with
    | some c =>
      have hbody := (hm₁.store.tidy.arrows hc).body
      exact (ih.callBody c.frame c.decl.params paren m₁ hbody hargs₁).bind
        fun _ _ _ _ hsignal => .pure hsignal.callValue
    | none => exact .pure trivial
  | «class» id =>
    refine inspect ?_
    cases m₁.store.class? id with
    | some object =>
      have hmake : Continues (Eval.updateStore fun s => s.instantiate id) m₁ :=
        .updateStore fun hm => ⟨(hm.store.instantiate id).1, trivial⟩
      refine hmake.bind fun made m₂ h₂ _ _ => ?_
      exact (ih.construct made paren m₂ fun v hv => (hargs₁ v hv).mono h₂.store.precedes).bind
        fun _ _ _ _ _ => .pure trivial
    | none => exact .pure trivial

theorem construct_succ (ih : Holding lookup fuel) {args : List Value} (object : InstanceId)
    (paren : Token) (m : Machine) (hargs : ∀ v ∈ args, v.Known m.store) :
    Continues (Eval.construct (fuel + 1) lookup object args paren) m := by
  rw [Eval.construct]
  refine .inspect (.assuming fun hm => ?_)
  cases hfound : m.store.initializer? object with
  | some found =>
    have hdecl := hm.store.tidy.initializer? hfound
    obtain ⟨p, hportion⟩ := Store.portion_of_initializer? hfound
    have hbound : Holds (Eval.updateStore fun s => s.bind found.2 found.1) m
        fun _ bound => bound.decl = found.2.decl :=
      .updateStore fun hm => ⟨(hm.store.bind _ hportion).1, rfl⟩
    refine hbound.bind fun bound m₁ h₁ _ hsame => ?_
    have hcall := ih.callFunction paren m₁ (hsame ▸ hdecl) fun v hv =>
      (hargs v hv).mono h₁.store.precedes
    exact hcall.discard.imp fun _ _ _ _ => trivial
  | none => exact .pure trivial

theorem callFunction_succ (ih : Holding lookup fuel) {c : Closure} {args : List Value}
    (place : Token) (m : Machine) (h : c.decl.WellFormed) (hargs : ∀ v ∈ args, v.Known m.store) :
    Holds (Eval.callFunction (fuel + 1) lookup c args place) m fun s value => value.Known s := by
  rw [Eval.callFunction]
  exact (ih.callBody c.frame c.decl.params place m h.body hargs).bind fun signal _ _ _ hsignal =>
    .ite (fun _ => initializedObject) fun _ => .pure hsignal.callValue

theorem callBody_succ (ih : Holding lookup fuel) {body : List Stmt} {args : List Value}
    (outer : FrameId) (params : List Token) (place : Token) (m : Machine)
    (h : WellFormedBody body false) (hargs : ∀ v ∈ args, v.Known m.store) :
    Holds (Eval.callBody (fuel + 1) lookup outer params body args place) m
      fun s signal => signal.Known s := by
  rw [Eval.callBody]
  have hopen : Holds (Eval.updateStore fun s =>
      s.addFrame (Eval.parameterFrame params body args outer)) m fun s frame => s.Open frame :=
    .updateStore fun hm => ⟨hm.store.addFrame (whole_parameterFrame hargs), _,
      (Store.frame?_addFrame ..).trans (if_pos rfl), rfl⟩
  exact hopen.bind fun frame m₁ _ _ hframe => counted (within hframe (ih.executeEach _ h))

/-! ## Statements -/

theorem execute_succ (ih : Holding lookup fuel) {s : Stmt} {inLoop : Bool} (m : Machine)
    (h : s.WellFormed inLoop) :
    Holds (Eval.execute (fuel + 1) lookup s) m fun s signal => signal.Known s := by
  have hdone {m : Machine} : Holds (pure Signal.completed : Eval Signal) m
      fun s signal => signal.Known s := .pure Signal.known_completed
  cases s with
  | expression value =>
    rw [Eval.execute]
    exact (ih.evaluate (e := value) m h).discard.bind fun _ _ _ _ _ => hdone
  | print value | println value =>
    rw [Eval.execute]
    exact (ih.evaluate (e := value) m h).bind fun _ _ _ _ _ =>
      inspect (write.bind fun _ _ _ _ _ => hdone)
  | var name initializer =>
    cases initializer with rw [Eval.execute]
    | none => exact (declare fun v hv => by cases hv).bind fun _ _ _ _ _ => hdone
    | some initializer =>
      exact (ih.evaluate (e := initializer) m h).bind fun value _ _ _ hvalue =>
        (declare fun v hv => by cases hv; exact hvalue).bind fun _ _ _ _ _ => hdone
  | const name initializer =>
    rw [Eval.execute]
    exact (ih.evaluate (e := initializer) m h).bind fun value _ _ _ hvalue =>
      (declare fun v hv => by cases hv; exact hvalue).bind fun _ _ _ _ _ => hdone
  | block body =>
    rw [Eval.execute]
    exact (openFrame rfl).bind fun frame m₁ _ _ hframe => within hframe (ih.executeEach _ h)
  | ifElse condition thenBranch elseBranch =>
    obtain ⟨hc, ht, he⟩ := h
    cases elseBranch with rw [Eval.execute]
    | none =>
      exact (ih.evaluate m hc).bind fun _ m₁ _ _ _ =>
        .ite (fun _ => ih.execute m₁ ht) fun _ => hdone
    | some elseBranch =>
      exact (ih.evaluate m hc).bind fun _ m₁ _ _ _ =>
        .ite (fun _ => ih.execute m₁ ht) fun _ => ih.execute (s := elseBranch) m₁ he
  | «while» condition body =>
    rw [Eval.execute]
    exact ih.whileLoop m h.1 h.2
  | «for» initializer condition update body =>
    obtain ⟨hi, hc, hu, -, hb⟩ := h
    rw [Eval.execute]
    refine (openFrame rfl).bind fun frame m₁ _ _ hframe => within hframe ?_
    cases initializer with
    | none => exact ih.forLoop _ hc hu hb
    | some initializer =>
      exact (ih.execute (s := initializer) _ hi).discard.bind fun _ m₂ _ _ _ =>
        ih.forLoop m₂ hc hu hb
  | «break» keyword | «continue» keyword =>
    rw [Eval.execute]
    exact .pure fun value hvalue => by cases hvalue
  | assert keyword condition message =>
    rw [Eval.execute]
    refine (ih.evaluate m h.1).bind fun _ m₁ _ _ _ => .ite (fun _ => hdone) fun _ => ?_
    cases message with
    | none => exact fail
    | some message =>
      exact (ih.evaluate (e := message) m₁ h.2).bind fun _ _ _ _ _ => inspect fail
  | function decl =>
    rw [Eval.execute]
    exact (declareFunction h).bind fun _ _ _ _ _ => hdone
  | «return» keyword value =>
    cases value with rw [Eval.execute]
    | none => exact .pure fun value hvalue => by cases hvalue; trivial
    | some value =>
      exact (ih.evaluate (e := value) m h).bind fun value _ _ _ hvalue =>
        .pure fun other hother => by cases hother; exact hvalue
  | «class» decl =>
    have hdeclare (base : Option ClassId) (m : Machine) : Holds (do
        Eval.declareClass decl base
        return Signal.completed) m fun s signal => signal.Known s :=
      (declareClass h).bind fun _ _ _ _ _ => hdone
    obtain ⟨name, base, methods, statics, getters⟩ := decl
    cases base with rw [Eval.execute]
    | none => exact hdeclare none m
    | some base =>
      obtain ⟨id, baseName, rfl⟩ := h.1 base rfl
      refine (ih.evaluate (e := .variable id baseName) m trivial).bind fun value m₁ _ _ _ => ?_
      exact (Conduct.From.map (Q := fun _ _ => True) asBaseClass fun _ _ _ => trivial).bind
        fun base m₂ _ _ _ => hdeclare base m₂

theorem executeEach_succ (ih : Holding lookup fuel) {ss : List Stmt} {inLoop : Bool} (m : Machine)
    (h : WellFormedBody ss inLoop) :
    Holds (Eval.executeEach (fuel + 1) lookup ss) m fun s signal => signal.Known s := by
  cases ss with rw [Eval.executeEach]
  | nil => exact .pure Signal.known_completed
  | cons s ss =>
    refine (ih.execute m h.1).bind ?_
    intro signal m₁ _ _ hsignal
    cases signal with
    | completed => exact ih.executeEach m₁ h.2
    | broke | continued | returned => exact .pure hsignal

theorem whileLoop_succ (ih : Holding lookup fuel) {condition : Expr} {body : Stmt} (m : Machine)
    (hc : condition.WellFormed) (hb : body.WellFormed true) :
    Holds (Eval.whileLoop (fuel + 1) lookup condition body) m fun s signal => signal.Known s := by
  rw [Eval.whileLoop]
  refine (ih.evaluate m hc).bind fun _ m₁ _ _ _ => .ite (fun _ => (ih.execute m₁ hb).bind ?_)
    fun _ => .pure Signal.known_completed
  intro signal m₂ _ _ hsignal
  cases signal with
  | broke => exact .pure Signal.known_completed
  | returned value => exact .pure hsignal
  | completed | continued => exact ih.whileLoop m₂ hc hb

theorem goesOn (ih : Holding lookup fuel) {condition : Option Expr} (m : Machine)
    (hc : WellFormedOptional condition) :
    Continues (Eval.goesOn fuel lookup condition) m := by
  cases condition with
  | none => exact .pure trivial
  | some condition => exact (ih.evaluate (e := condition) m hc).map fun _ _ _ => trivial

theorem step (ih : Holding lookup fuel) {update : Option Expr} (m : Machine)
    (hu : WellFormedOptional update) : Continues (Eval.step fuel lookup update) m := by
  cases update with
  | none => exact .pure trivial
  | some update => exact (ih.evaluate (e := update) m hu).discard.imp fun _ _ _ _ => trivial

theorem forLoop_succ (ih : Holding lookup fuel) {condition update : Option Expr} {body : Stmt}
    (m : Machine) (hc : WellFormedOptional condition) (hu : WellFormedOptional update)
    (hb : body.WellFormed true) :
    Holds (Eval.forLoop (fuel + 1) lookup condition update body) m
      fun s signal => signal.Known s := by
  rw [Eval.forLoop_eq]
  refine (ih.goesOn m hc).bind fun _ m₁ _ _ _ => .ite (fun _ => (ih.execute m₁ hb).bind ?_)
    fun _ => .pure Signal.known_completed
  intro signal m₂ _ _ hsignal
  cases signal with
  | broke => exact .pure Signal.known_completed
  | returned value => exact .pure hsignal
  | completed | continued => exact (ih.step m₂ hu).bind fun _ m₃ _ _ _ => ih.forLoop m₃ hc hu hb

end Holding

theorem holding (lookup : Lookup) (fuel : Nat) : Holding lookup fuel := by
  induction fuel with
  | zero => exact .zero
  | succ fuel ih =>
    exact
      { evaluate := ih.evaluate_succ
        evaluateEach := ih.evaluateEach_succ
        attributeValue := ih.attributeValue_succ
        invoke := ih.invoke_succ
        construct := ih.construct_succ
        callFunction := ih.callFunction_succ
        callBody := ih.callBody_succ
        execute := ih.execute_succ
        executeEach := ih.executeEach_succ
        whileLoop := ih.whileLoop_succ
        forLoop := ih.forLoop_succ }

/-! ## Programs -/

namespace Machine

/-- A machine between programs. -/
structure Idle (m : Machine) : Prop extends m.Whole where
  atGlobals : m.here = globalFrame

/-- Only the store and the current frame matter. -/
theorem Idle.congr {m m' : Machine} (h : m.Idle) (hstore : m'.store = m.store)
    (hhere : m'.here = m.here) : m'.Idle where
  store := hstore ▸ h.store
  here := hstore ▸ hhere ▸ h.here
  atGlobals := hhere.trans h.atGlobals

theorem idle_start (natives : List Native) (host : Host) (sink : Sink) :
    (start natives host sink).Idle := by
  have hempty : Store.Whole {} := by
    refine ⟨⟨?_, ?_, ?_⟩, ?_, ?_, ?_, ?_⟩ <;> intro id found hfound <;>
      simp [Store.function?, Store.arrow?, Store.class?, Store.frame?, Store.portion?] at hfound
  have hglobals : Store.Becomes {} (Store.addFrame {} ⟨.globals, .empty, none⟩).2 :=
    hempty.addFrame (.bare rfl)
  have hbound {s : Store} (h : s.Whole) (hopen : s.Open globalFrame) :
      (natives.foldl bindNative s).Whole ∧ (natives.foldl bindNative s).Open globalFrame := by
    induction natives generalizing s with
    | nil => exact ⟨h, hopen⟩
    | cons native rest ih =>
      have hadded := h.addNative native
      have hopened := hopen.mono hadded.precedes
      have hknown : ∀ v ∈ some (Value.callable (.native (s.addNative native).1)),
          v.Known (s.addNative native).2 := fun v hv => by
        cases hv
        trivial
      have hdeclared := hadded.whole.declare hopened native.name hknown true
      exact ih hdeclared.whole (hopened.mono hdeclared.precedes)
  obtain ⟨hwhole, hopen⟩ := hbound hglobals.whole ⟨_, rfl, rfl⟩
  exact ⟨⟨hwhole, hopen⟩, rfl⟩

/-- Whatever comes of a program, the machine is idle afterwards. -/
theorem Idle.interpret {bound : Nat} {lookup : Lookup} {program : List Stmt} {m : Machine}
    (h : m.Idle) (hformed : WellFormedBody program false) :
    (m.interpret bound lookup program).2.Idle := by
  induction program generalizing m with
  | nil =>
    rw [Machine.interpret]
    split <;> exact h
  | cons s rest ih =>
    have hexecute := (holding lookup bound).execute m hformed.1
    rw [Machine.interpret]
    cases hrun : Eval.execute bound lookup s m with
    | ok signal after =>
      obtain ⟨hbecomes, -⟩ := hexecute.ok h.toWhole hrun
      exact ih ⟨hbecomes.whole h.toWhole, hbecomes.here.trans h.atGlobals⟩ hformed.2
    | error halt after =>
      obtain ⟨hbecomes, -⟩ := hexecute.error h.toWhole hrun
      exact ⟨⟨hbecomes.store.whole,
        (h.atGlobals ▸ h.here : m.store.Open globalFrame).mono hbecomes.store.precedes⟩, rfl⟩

end Machine

end LoxLang
