import LoxLang.Proofs.Machine.Leaving

/-!
# Frames and bodies are left again

Whatever a call of the evaluation does, and however it ends, the machine stands in the same frame
afterwards, with as many function bodies being executed as before (`Eval.Task.balanced`). A step
that makes no call also meets neither of the bounds of the machine (`Eval.Simple`): the one on the
depth of the evaluation, and the one on the number of bodies inside one another.
-/

namespace LoxLang

/-! ## Bounds -/

def RunFault.isTooDeep : RunFault → Bool
  | .tooDeep => true
  | _ => false

def RunError.isTooDeep : RunError → Bool
  | .located cause _ => cause.isTooDeep
  | .device _ | .watched _ _ _ => false

/-- An evaluation stops because it meets one of the bounds of the machine. -/
def Halt.isLimit : Halt → Bool
  | .outOfFuel => true
  | .error cause => cause.isTooDeep

theorem RunFault.not_isTooDeep_of_operator {cause : RunFault} (h : cause.isOfOperator = true) :
    cause.isTooDeep = false := by
  cases cause <;> first | rfl | cases h

theorem RunFault.not_isTooDeep_of_name {cause : RunFault} (h : cause.isOfName = true) :
    cause.isTooDeep = false := by
  cases cause <;> first | rfl | cases h

namespace Eval

variable {α β : Type} {act : Eval α} {k : α → Eval β}

/-! ## Balanced steps -/

/-- Steps that come back to the frame that they began in and to the number of bodies that were being
executed, and stop only for some reasons. -/
abbrev balancing (stops : Halt → Prop) : Conduct Halt Machine where
  good _ := True
  keeps m after := after.here = m.here ∧ after.depth = m.depth
  stops := stops
  refl _ := ⟨rfl, rfl⟩
  trans h h' := ⟨h'.1.trans h.1, h'.2.trans h.2⟩
  stays _ := id

/-- A balanced step, whatever it stops for. -/
abbrev Balanced (act : Eval α) : Prop := (balancing fun _ => True).Always act fun _ => True

namespace Balanced

theorem leaves (h : Balanced act) (m : Machine) :
    (act.leaves m).here = m.here ∧ (act.leaves m).depth = m.depth :=
  ends_iff_leaves.mp <| (h m trivial).imp (fun _ _ => And.left) fun _ _ => And.left

theorem stop {error : RunError} : Balanced (stop error : Eval α) :=
  fun _ _ => ⟨⟨rfl, rfl⟩, trivial⟩

theorem outOfFuel : Balanced (outOfFuel : Eval α) := fun _ _ => ⟨⟨rfl, rfl⟩, trivial⟩

theorem within {frame : FrameId} (h : Balanced act) : Balanced (within frame act) := fun m _ =>
  .within <| (h { m with here := frame } trivial).imp
    (fun _ _ hact => ⟨⟨rfl, hact.1.2⟩, trivial⟩) fun _ _ hact => ⟨⟨rfl, hact.1.2⟩, trivial⟩

theorem counted {place : Token} (h : Balanced act) : Balanced (counted place act) := fun m _ =>
  .counted ⟨⟨rfl, rfl⟩, trivial⟩ fun _ =>
    (h { m with depth := m.depth + 1 } trivial).imp
      (fun _ _ hact => ⟨⟨hact.1.1, congrArg (· - 1) hact.1.2⟩, trivial⟩)
      fun _ _ hact => ⟨⟨hact.1.1, congrArg (· - 1) hact.1.2⟩, trivial⟩

end Balanced

/-! ## Steps without calls -/

/-- A balanced step that does not meet a bound. -/
abbrev Simple (act : Eval α) : Prop :=
  (balancing fun halt => halt.isLimit = false).Always act fun _ => True

namespace Simple

theorem balanced (h : Simple act) : Balanced act := fun m =>
  (h m).weaken id (fun _ _ => id) fun _ _ => trivial

theorem unlimited {m after : Machine} {halt : Halt} (h : Simple act)
    (hrun : act m = .error halt after) : halt.isLimit = false := ((h m).error trivial hrun).2

theorem pure {a : α} : Simple (pure a) := Conduct.Always.pure trivial

theorem get : Simple get := fun _ _ => ⟨⟨rfl, rfl⟩, trivial⟩

theorem inspect {question : Store → α} : Simple (inspect question) :=
  fun _ _ => ⟨⟨rfl, rfl⟩, trivial⟩

theorem updateStore {update : Store → α × Store} : Simple (updateStore update) :=
  fun _ _ => ⟨⟨rfl, rfl⟩, trivial⟩

theorem changeStore {change : Store → Store} : Simple (changeStore change) :=
  fun _ _ => ⟨⟨rfl, rfl⟩, trivial⟩

theorem declare {name : String} {value : Option Value} {isConst : Bool} :
    Simple (declare name value isConst) := fun _ _ => ⟨⟨rfl, rfl⟩, trivial⟩

theorem openFrame {kind : ScopeKind} : Simple (openFrame kind) :=
  fun _ _ => ⟨⟨rfl, rfl⟩, trivial⟩

theorem fail {cause : RunFault} {token : Token} (h : cause.isTooDeep = false) :
    Simple (fail cause token : Eval α) := fun _ _ => ⟨⟨rfl, rfl⟩, h⟩

theorem computed {result : Computed} {operator : Token}
    (h : ∀ cause, result = .error cause → cause.isOfOperator = true) :
    Simple (computed result operator) := fun _ _ =>
  .computed (fun _ _ => ⟨⟨rfl, rfl⟩, trivial⟩) fun cause hcause =>
    ⟨⟨rfl, rfl⟩, RunFault.not_isTooDeep_of_operator (h cause hcause)⟩

theorem write {text : String} : Simple (write text) :=
  fun _ _ => .write ⟨⟨rfl, rfl⟩, trivial⟩ fun _ => ⟨⟨rfl, rfl⟩, rfl⟩

theorem readName {lookup : Lookup} {node : NodeId} {name : Token} :
    Simple (readName lookup node name) := fun _ _ =>
  .readName (fun _ => ⟨⟨rfl, rfl⟩, rfl⟩)
    (fun _ _ hcause => ⟨⟨rfl, rfl⟩, RunFault.not_isTooDeep_of_name hcause⟩)
    fun _ => ⟨⟨rfl, rfl⟩, trivial⟩

theorem writeName {lookup : Lookup} {node : NodeId} {name : Token} {value : Value} :
    Simple (writeName lookup node name value) := fun _ _ =>
  .writeName (fun _ => ⟨⟨rfl, rfl⟩, rfl⟩)
    (fun _ _ hcause => ⟨⟨rfl, rfl⟩, RunFault.not_isTooDeep_of_name hcause⟩)
    fun _ => ⟨⟨rfl, rfl⟩, trivial⟩

theorem declareFunction {decl : FunctionDecl} : Simple (declareFunction decl) :=
  get.andThen fun _ => updateStore.andThen fun _ => declare

theorem declareClass {decl : ClassDecl} {base : Option ClassId} :
    Simple (declareClass decl base) :=
  get.andThen fun _ => updateStore.andThen fun _ => declare

theorem asBaseClass {decl : ClassDecl} {base : Expr} {value : Value} :
    Simple (asBaseClass decl base value) :=
  fun _ _ => .asBaseClass (fun _ _ => ⟨⟨rfl, rfl⟩, trivial⟩) fun _ _ => ⟨⟨rfl, rfl⟩, rfl⟩

theorem checkCall {callee : Value} {paren : Token} {given : Nat} :
    Simple (checkCall callee paren given) := fun _ _ =>
  .checkCall (fun _ _ _ => ⟨⟨rfl, rfl⟩, trivial⟩) (fun _ _ => ⟨⟨rfl, rfl⟩, rfl⟩)
    fun _ => ⟨⟨rfl, rfl⟩, rfl⟩

theorem callNative {id : NativeId} {args : List Value} {paren : Token} :
    Simple (callNative id args paren) := fun _ _ =>
  .callNative (fun _ _ _ => ⟨⟨rfl, rfl⟩, trivial⟩) fun _ _ => ⟨⟨rfl, rfl⟩, rfl⟩

theorem initializedObject {c : Closure} : Simple (initializedObject c) := fun _ _ =>
  .ask (fun _ _ => ⟨⟨rfl, rfl⟩, trivial⟩) fun error herror => by
    obtain ⟨cause, token, rfl, hcause⟩ := AboutName.getAt error herror
    exact ⟨⟨rfl, rfl⟩, RunFault.not_isTooDeep_of_name hcause⟩

end Simple

/-! ## Calls -/

/-- With a bound on the depth of the evaluation, every call is balanced. -/
structure Balances (lookup : Lookup) (fuel : Nat) : Prop where
  evaluate : ∀ e, Balanced (evaluate fuel lookup e)
  evaluateEach : ∀ es, Balanced (evaluateEach fuel lookup es)
  attributeValue : ∀ found name, Balanced (attributeValue fuel lookup found name)
  invoke : ∀ callee paren args, Balanced (invoke fuel lookup callee paren args)
  construct : ∀ object args paren, Balanced (construct fuel lookup object args paren)
  callFunction : ∀ c args place, Balanced (callFunction fuel lookup c args place)
  callBody : ∀ outer params body args place,
    Balanced (callBody fuel lookup outer params body args place)
  execute : ∀ s, Balanced (execute fuel lookup s)
  executeEach : ∀ ss, Balanced (executeEach fuel lookup ss)
  whileLoop : ∀ condition body, Balanced (whileLoop fuel lookup condition body)
  forLoop : ∀ condition update body, Balanced (forLoop fuel lookup condition update body)

namespace Balances

open LoxLang.Eval.Balanced

variable {lookup : Lookup} {fuel : Nat}

theorem zero : Balances lookup 0 where
  evaluate _ := by rw [Eval.evaluate]; exact .outOfFuel
  evaluateEach _ := by rw [Eval.evaluateEach]; exact .outOfFuel
  attributeValue _ _ := by rw [Eval.attributeValue]; exact .outOfFuel
  invoke _ _ _ := by rw [Eval.invoke]; exact .outOfFuel
  construct _ _ _ := by rw [Eval.construct]; exact .outOfFuel
  callFunction _ _ _ := by rw [Eval.callFunction]; exact .outOfFuel
  callBody _ _ _ _ _ := by rw [Eval.callBody]; exact .outOfFuel
  execute _ := by rw [Eval.execute]; exact .outOfFuel
  executeEach _ := by rw [Eval.executeEach]; exact .outOfFuel
  whileLoop _ _ := by rw [Eval.whileLoop]; exact .outOfFuel
  forLoop _ _ _ := by rw [Eval.forLoop]; exact .outOfFuel

variable (ih : Balances lookup fuel)

include ih

theorem attributed (found? : Option Attribute) (name : Token) {otherwise : Eval Value}
    (h : Balanced otherwise) : Balanced (match found? with
      | some found => Eval.attributeValue fuel lookup found name
      | none => otherwise) := by
  cases found? with
  | some found => exact ih.attributeValue found name
  | none => exact h

theorem evaluate_succ (e : Expr) : Balanced (Eval.evaluate (fuel + 1) lookup e) := by
  have hfail {cause : RunFault} {token : Token} : Balanced (fail cause token : Eval Value) :=
    Balanced.stop
  cases e with rw [Eval.evaluate]
  | literal => exact .pure trivial
  | grouping inner => exact ih.evaluate inner
  | unary operator right =>
    refine (ih.evaluate right).andThen fun v => ?_
    cases UnaryOperator.ofKind? operator.kind with
    | some op => exact (Simple.computed fun _ => Value.applyUnary_fault).balanced
    | none => exact hfail
  | binary left operator right =>
    exact (ih.evaluate left).andThen fun _ => (ih.evaluate right).andThen fun _ =>
      .ite (fun _ => .pure trivial)
        fun _ => (Simple.computed fun _ => Value.applyBinary_fault).balanced
  | logical left operator right =>
    exact (ih.evaluate left).andThen fun _ =>
      .ite (fun _ => .pure trivial) fun _ => ih.evaluate right
  | ternary condition question thenBranch elseBranch =>
    exact (ih.evaluate condition).andThen fun _ =>
      .ite (fun _ => ih.evaluate thenBranch) fun _ => ih.evaluate elseBranch
  | «variable» | this => exact Simple.readName.balanced
  | assign id name value =>
    exact (ih.evaluate value).andThen fun _ =>
      Simple.writeName.balanced.andThen fun _ => .pure trivial
  | call callee paren arguments =>
    exact (ih.evaluate callee).andThen fun _ => (ih.evaluateEach arguments).andThen fun _ =>
      ih.invoke _ paren _
  | get object name =>
    refine (ih.evaluate object).andThen fun target => ?_
    split
    · exact Simple.updateStore.balanced.andThen fun found? =>
        ih.attributed found? name (Simple.inspect.balanced.andThen fun _ => hfail)
    · refine Simple.inspect.balanced.andThen fun value? => ?_
      cases value? with
      | some value => exact .pure trivial
      | none => exact Simple.inspect.balanced.andThen fun _ => hfail
    · exact hfail
  | set object name value =>
    refine (ih.evaluate object).andThen fun target => ?_
    split
    · exact (ih.evaluate value).andThen fun _ =>
        Simple.changeStore.balanced.andThen fun _ => .pure trivial
    · exact (ih.evaluate value).andThen fun _ =>
        Simple.changeStore.balanced.andThen fun _ => .pure trivial
    · exact hfail
  | super id keyword method =>
    refine Simple.readName.balanced.andThen fun target => ?_
    split
    · exact Simple.updateStore.balanced.andThen fun found? =>
        ih.attributed found? method (Simple.inspect.balanced.andThen fun _ => hfail)
    · exact hfail
  | arrow decl =>
    exact Simple.get.balanced.andThen fun _ =>
      Simple.updateStore.balanced.andThen fun _ => .pure trivial

theorem evaluateEach_succ (es : List Expr) :
    Balanced (Eval.evaluateEach (fuel + 1) lookup es) := by
  cases es with rw [Eval.evaluateEach]
  | nil => exact .pure trivial
  | cons e es =>
    exact (ih.evaluate e).andThen fun _ => (ih.evaluateEach es).andThen fun _ => .pure trivial

theorem attributeValue_succ (found : Attribute) (name : Token) :
    Balanced (Eval.attributeValue (fuel + 1) lookup found name) := by
  cases found with rw [Eval.attributeValue]
  | value => exact .pure trivial
  | getter bound => exact ih.callFunction bound [] name

theorem invoke_succ (callee : Value) (paren : Token) (args : List Value) :
    Balanced (Eval.invoke (fuel + 1) lookup callee paren args) := by
  rw [Eval.invoke]
  refine Simple.checkCall.balanced.andThen fun c => ?_
  cases c with
  | native => exact Simple.callNative.balanced
  | function id =>
    refine Simple.inspect.balanced.andThen fun found? => ?_
    cases found? with
    | some c => exact ih.callFunction c args paren
    | none => exact .pure trivial
  | arrow id =>
    refine Simple.inspect.balanced.andThen fun found? => ?_
    cases found? with
    | some c => exact (ih.callBody _ _ _ _ _).andThen fun _ => .pure trivial
    | none => exact .pure trivial
  | «class» id =>
    refine Simple.inspect.balanced.andThen fun found? => ?_
    cases found? with
    | some object =>
      exact Simple.updateStore.balanced.andThen fun _ =>
        (ih.construct _ _ _).andThen fun _ => .pure trivial
    | none => exact .pure trivial

theorem construct_succ (object : InstanceId) (args : List Value) (paren : Token) :
    Balanced (Eval.construct (fuel + 1) lookup object args paren) := by
  rw [Eval.construct]
  refine Simple.inspect.balanced.andThen fun found? => ?_
  cases found? with
  | some found => exact Simple.updateStore.balanced.andThen fun _ => (ih.callFunction _ _ _).discard
  | none => exact .pure trivial

theorem callFunction_succ (c : Closure) (args : List Value) (place : Token) :
    Balanced (Eval.callFunction (fuel + 1) lookup c args place) := by
  rw [Eval.callFunction]
  exact (ih.callBody _ _ _ _ _).andThen fun _ => .ite
    (fun _ => Simple.initializedObject.balanced) fun _ => .pure trivial

theorem callBody_succ (outer : FrameId) (params : List Token) (body : List Stmt)
    (args : List Value) (place : Token) :
    Balanced (Eval.callBody (fuel + 1) lookup outer params body args place) := by
  rw [Eval.callBody]
  exact Simple.updateStore.balanced.andThen fun _ => (ih.executeEach body).within.counted

theorem execute_succ (s : Stmt) : Balanced (Eval.execute (fuel + 1) lookup s) := by
  have hdone {act : Eval Unit} (h : Balanced act) :
      Balanced (do act; return Signal.completed) := h.andThen fun _ => .pure trivial
  cases s with
  | expression value =>
    rw [Eval.execute]
    exact hdone (ih.evaluate value).discard
  | print value | println value =>
    rw [Eval.execute]
    exact (ih.evaluate value).andThen fun _ => Simple.inspect.balanced.andThen fun _ =>
      hdone Simple.write.balanced
  | var name initializer =>
    cases initializer with rw [Eval.execute]
    | none => exact hdone Simple.declare.balanced
    | some value => exact (ih.evaluate value).andThen fun _ => hdone Simple.declare.balanced
  | const name value =>
    rw [Eval.execute]
    exact (ih.evaluate value).andThen fun _ => hdone Simple.declare.balanced
  | block body =>
    rw [Eval.execute]
    exact Simple.openFrame.balanced.andThen fun _ => (ih.executeEach body).within
  | ifElse condition thenBranch elseBranch =>
    cases elseBranch with rw [Eval.execute]
    | none =>
      exact (ih.evaluate condition).andThen fun _ =>
        .ite (fun _ => ih.execute thenBranch) fun _ => .pure trivial
    | some elseBranch =>
      exact (ih.evaluate condition).andThen fun _ =>
        .ite (fun _ => ih.execute thenBranch) fun _ => ih.execute elseBranch
  | «while» condition body =>
    rw [Eval.execute]
    exact ih.whileLoop condition body
  | «for» initializer condition update body =>
    rw [Eval.execute]
    refine Simple.openFrame.balanced.andThen fun _ => Balanced.within ?_
    cases initializer with
    | none => exact ih.forLoop condition update body
    | some initializer =>
      exact (ih.execute initializer).discard.andThen fun _ => ih.forLoop condition update body
  | «break» | «continue» =>
    rw [Eval.execute]
    exact .pure trivial
  | assert keyword condition message =>
    rw [Eval.execute]
    refine (ih.evaluate condition).andThen fun _ => .ite (fun _ => .pure trivial) fun _ => ?_
    cases message with
    | none => exact Balanced.stop
    | some message =>
      exact (ih.evaluate message).andThen fun _ => Simple.inspect.balanced.andThen fun _ =>
        Balanced.stop
  | function decl =>
    rw [Eval.execute]
    exact hdone Simple.declareFunction.balanced
  | «return» keyword value =>
    cases value with rw [Eval.execute]
    | none => exact .pure trivial
    | some value => exact (ih.evaluate value).andThen fun _ => .pure trivial
  | «class» decl =>
    rw [Eval.execute]
    cases decl.base with
    | none => exact hdone Simple.declareClass.balanced
    | some base =>
      exact (ih.evaluate base).andThen fun _ => Simple.asBaseClass.balanced.map.andThen fun _ =>
        hdone Simple.declareClass.balanced

theorem executeEach_succ (ss : List Stmt) :
    Balanced (Eval.executeEach (fuel + 1) lookup ss) := by
  cases ss with rw [Eval.executeEach]
  | nil => exact .pure trivial
  | cons s ss =>
    refine (ih.execute s).andThen fun signal => ?_
    cases signal with
    | completed => exact ih.executeEach ss
    | broke | continued | returned => exact .pure trivial

theorem whileLoop_succ (condition : Expr) (body : Stmt) :
    Balanced (Eval.whileLoop (fuel + 1) lookup condition body) := by
  rw [Eval.whileLoop]
  refine (ih.evaluate condition).andThen fun _ => .ite (fun _ =>
    (ih.execute body).andThen fun signal => ?_) fun _ => .pure trivial
  cases signal with
  | broke | returned => exact .pure trivial
  | completed | continued => exact ih.whileLoop condition body

theorem goesOn (condition : Option Expr) : Balanced (Eval.goesOn fuel lookup condition) := by
  cases condition with
  | none => exact .pure trivial
  | some condition => exact (ih.evaluate condition).map

theorem step (update : Option Expr) : Balanced (Eval.step fuel lookup update) := by
  cases update with
  | none => exact .pure trivial
  | some update => exact (ih.evaluate update).discard

theorem forLoop_succ (condition update : Option Expr) (body : Stmt) :
    Balanced (Eval.forLoop (fuel + 1) lookup condition update body) := by
  rw [Eval.forLoop_eq]
  refine (ih.goesOn condition).andThen fun _ => .ite (fun _ =>
    (ih.execute body).andThen fun signal => ?_) fun _ => .pure trivial
  cases signal with
  | broke | returned => exact .pure trivial
  | completed | continued =>
    exact (ih.step update).andThen fun _ => ih.forLoop condition update body

end Balances

theorem balances (lookup : Lookup) (fuel : Nat) : Balances lookup fuel := by
  induction fuel with
  | zero => exact .zero
  | succ fuel ih =>
    exact
      { evaluate := ih.evaluate_succ
        evaluateEach := ih.evaluateEach_succ
        attributeValue := ih.attributeValue_succ
        invoke := ih.invoke_succ
        construct := ih.construct_succ
        callFunction := ih.callFunction_succ
        callBody := ih.callBody_succ
        execute := ih.execute_succ
        executeEach := ih.executeEach_succ
        whileLoop := ih.whileLoop_succ
        forLoop := ih.forLoop_succ }

/-- Behind a call, however it ends, the machine is in the frame that it was in before, and as many
bodies are being executed. -/
theorem Task.balanced (lookup : Lookup) (fuel : Nat) (task : Task) (m : Machine) :
    (task.leaves fuel lookup m).here = m.here ∧ (task.leaves fuel lookup m).depth = m.depth := by
  have hall := balances lookup fuel
  cases task with
  | evaluate e => exact (hall.evaluate e).leaves m
  | evaluateEach es => exact (hall.evaluateEach es).leaves m
  | attributeValue found name => exact (hall.attributeValue found name).leaves m
  | invoke callee paren args => exact (hall.invoke callee paren args).leaves m
  | construct object args paren => exact (hall.construct object args paren).leaves m
  | callFunction c args place => exact (hall.callFunction c args place).leaves m
  | callBody outer params body args place =>
    exact (hall.callBody outer params body args place).leaves m
  | execute s => exact (hall.execute s).leaves m
  | executeEach ss => exact (hall.executeEach ss).leaves m
  | whileLoop condition body => exact (hall.whileLoop condition body).leaves m
  | forLoop condition update body => exact (hall.forLoop condition update body).leaves m

end Eval

end LoxLang
