import LoxLang.Proofs.Machine.Balance
import LoxLang.Proofs.Machine.Ending

/-!
# Runs that are cut short

An evaluation is cut short where nothing is left of the bound on its depth, and where a function is
called inside of as many bodies as may be executed (`Eval.Task.AtLimit`). Whatever a call makes of
the calls that it makes itself, it is cut short just if one of them is (`Eval.passesOn`,
`Eval.Begins.cutShort`). So `Eval.Begins` leaves out no call, and a run is cut short just if it comes
to a call that meets one of the two bounds (`Machine.cutShort_iff`).
-/

namespace LoxLang

namespace Eval

variable {α β : Type} {act : Eval α} {k : α → Eval β} {halt : Halt} {m m₁ : Machine} {P : Prop}

/-- The evaluation stops in this way. -/
def CutShort (halt : Halt) (act : Eval α) (m : Machine) : Prop := ∃ after, act m = .error halt after

/-- If a bound cuts the step short, then this is why. -/
def CutOnlyIf (halt : Halt) (act : Eval α) (m : Machine) (P : Prop) : Prop :=
  halt.isLimit → act.CutShort halt m → P

namespace CutShort

/-- What is cut short is so in its first part or behind it. -/
theorem of_bind (h : (act >>= k).CutShort halt m) :
    act.CutShort halt m ∨ ∃ a m₁, act m = .ok a m₁ ∧ (k a).CutShort halt m₁ := by
  obtain ⟨after, hrun⟩ := h
  rcases error_of_bind hrun with hact | ⟨a, m₁, hact, hrest⟩
  · exact .inl ⟨after, hact⟩
  · exact .inr ⟨a, m₁, hact, after, hrest⟩

theorem first (h : act.CutShort halt m) : (act >>= k).CutShort halt m :=
  let ⟨after, hrun⟩ := h
  ⟨after, bind_of_error hrun⟩

theorem behind {a : α} (hact : act m = .ok a m₁) (h : (k a).CutShort halt m₁) :
    (act >>= k).CutShort halt m :=
  let ⟨after, hrun⟩ := h
  ⟨after, (bind_of_ok hact).trans hrun⟩

theorem map {f : α → β} (h : act.CutShort halt m) : (f <$> act).CutShort halt m := by
  rw [map_eq_pure_bind]
  exact h.first

theorem discard (h : act.CutShort halt m) : (discard act).CutShort halt m := h.map

theorem within {frame : FrameId} (h : act.CutShort halt { m with here := frame }) :
    (within frame act).CutShort halt m := by
  obtain ⟨after, hrun⟩ := h
  refine ⟨{ after with here := m.here }, ?_⟩
  unfold Eval.within
  dsimp only
  rw [hrun]

theorem counted {place : Token} (hdepth : m.depth < maxDepth)
    (h : act.CutShort halt { m with depth := m.depth + 1 }) :
    (counted place act).CutShort halt m := by
  obtain ⟨after, hrun⟩ := h
  refine ⟨{ after with depth := after.depth - 1 }, ?_⟩
  unfold Eval.counted
  rw [if_neg (Nat.not_le.mpr hdepth), hrun]

end CutShort

/-! ## Why a step is cut short -/

theorem Simple.cutOnlyIf (h : Simple act) : CutOnlyIf halt act m P := fun hlimit ⟨_, hcut⟩ =>
  (Bool.false_ne_true ((h.unlimited hcut).symm.trans hlimit)).elim

namespace CutOnlyIf

theorem bind (h : CutOnlyIf halt act m P)
    (hk : ∀ a m₁, act m = .ok a m₁ → CutOnlyIf halt (k a) m₁ P) : CutOnlyIf halt (act >>= k) m P :=
  fun hlimit hcut => by
    rcases hcut.of_bind with hact | ⟨a, m₁, hact, hrest⟩
    · exact h hlimit hact
    · exact hk a m₁ hact hlimit hrest

/-- Behind the step nothing is cut short. -/
theorem last (h : CutOnlyIf halt act m P) (hk : ∀ a, Simple (k a)) : CutOnlyIf halt (act >>= k) m P :=
  h.bind fun a _ _ => (hk a).cutOnlyIf

theorem map {f : α → β} (h : CutOnlyIf halt act m P) : CutOnlyIf halt (f <$> act) m P := by
  rw [map_eq_pure_bind]
  exact h.last fun _ => Simple.pure

theorem discard (h : CutOnlyIf halt act m P) : CutOnlyIf halt (discard act) m P := h.map

theorem ite {c : Prop} [Decidable c] {other : Eval α} (h : c → CutOnlyIf halt act m P)
    (h' : ¬c → CutOnlyIf halt other m P) : CutOnlyIf halt (if c then act else other) m P :=
  iteInduction (motive := fun act => CutOnlyIf halt act m P) h h'

theorem within {frame : FrameId} (h : CutOnlyIf halt act { m with here := frame } P) :
    CutOnlyIf halt (within frame act) m P := by
  rintro hlimit ⟨after, hrun⟩
  unfold Eval.within at hrun
  dsimp only at hrun
  split at hrun
  · cases hrun
  · next hact =>
    cases hrun
    exact h hlimit ⟨_, hact⟩

theorem counted {place : Token}
    (hdeep : maxDepth ≤ m.depth → halt = .error (.located .tooDeep place) → P)
    (h : m.depth < maxDepth → CutOnlyIf halt act { m with depth := m.depth + 1 } P) :
    CutOnlyIf halt (counted place act) m P := by
  rintro hlimit ⟨after, hrun⟩
  unfold Eval.counted at hrun
  split at hrun
  · next hdepth =>
    cases hrun
    exact hdeep hdepth rfl
  · next hdepth =>
    split at hrun
    · cases hrun
    · next hact =>
      cases hrun
      exact h (Nat.lt_of_not_le hdepth) hlimit ⟨_, hact⟩

end CutOnlyIf

/-! ## Calls -/

namespace Task

/-- A call is cut short. -/
def CutShort (halt : Halt) (lookup : Lookup) (fuel : Nat) : Task → Machine → Prop
  | .evaluate e => (Eval.evaluate fuel lookup e).CutShort halt
  | .evaluateEach es => (Eval.evaluateEach fuel lookup es).CutShort halt
  | .attributeValue found name => (Eval.attributeValue fuel lookup found name).CutShort halt
  | .invoke callee paren args => (Eval.invoke fuel lookup callee paren args).CutShort halt
  | .construct object args paren => (Eval.construct fuel lookup object args paren).CutShort halt
  | .callFunction c args place => (Eval.callFunction fuel lookup c args place).CutShort halt
  | .callBody outer params body args place =>
    (Eval.callBody fuel lookup outer params body args place).CutShort halt
  | .execute s => (Eval.execute fuel lookup s).CutShort halt
  | .executeEach ss => (Eval.executeEach fuel lookup ss).CutShort halt
  | .whileLoop condition body => (Eval.whileLoop fuel lookup condition body).CutShort halt
  | .forLoop condition update body => (Eval.forLoop fuel lookup condition update body).CutShort halt

/-- A call meets a bound itself: nothing is left of the bound on the depth of the evaluation, or one
more body would be one too many. -/
inductive AtLimit : Halt → Nat → Task → Machine → Prop
  | outOfFuel {task m} : AtLimit .outOfFuel 0 task m
  | tooDeep {fuel outer params body args place m} (hdepth : maxDepth ≤ m.depth) :
    AtLimit (.error (.located .tooDeep place)) (fuel + 1) (.callBody outer params body args place) m

/-- A call meets a bound itself, or makes a call that is cut short. -/
def PassesOn (halt : Halt) (lookup : Lookup) (fuel : Nat) (task : Task) (m : Machine) : Prop :=
  task.AtLimit halt (fuel + 1) m ∨
    ∃ task' m', Begins lookup fuel task m task' m' ∧ task'.CutShort halt lookup fuel m'

end Task

section Calls

variable {lookup : Lookup} {fuel : Nat}

theorem Begins.passesOn {task task' : Task} {m' : Machine} (h : Begins lookup fuel task m task' m')
    (_ : halt.isLimit) (hcut : task'.CutShort halt lookup fuel m') :
    task.PassesOn halt lookup fuel m := .inr ⟨task', m', h, hcut⟩

/-! ### Expressions -/

theorem get_cut (object : Expr) (name : Token) :
    CutOnlyIf halt (evaluate (fuel + 1) lookup (.get object name)) m
      (Task.PassesOn halt lookup fuel (.evaluate (.get object name)) m) := by
  rw [evaluate]
  refine CutOnlyIf.bind (Begins.operand rfl).passesOn fun target m₁ hobject => ?_
  cases target with
  | «instance» id =>
    refine CutOnlyIf.bind (Simple.cutOnlyIf .updateStore) fun found? m₂ hfound => ?_
    cases found? with
    | some found => exact (Begins.member hobject hfound).passesOn
    | none => exact Simple.cutOnlyIf (Simple.inspect.andThen fun _ => Simple.fail rfl)
  | callable c =>
    cases c with
    | «class» id =>
      refine Simple.cutOnlyIf (Simple.inspect.andThen fun found => ?_)
      cases found with
      | some value => exact Simple.pure
      | none => exact Simple.inspect.andThen fun _ => Simple.fail rfl
    | native | function | arrow => exact (Simple.fail rfl).cutOnlyIf
  | nil | bool | int | float | str => exact (Simple.fail rfl).cutOnlyIf

theorem set_cut (object : Expr) (name : Token) (value : Expr) :
    CutOnlyIf halt (evaluate (fuel + 1) lookup (.set object name value)) m
      (Task.PassesOn halt lookup fuel (.evaluate (.set object name value)) m) := by
  rw [evaluate]
  refine CutOnlyIf.bind (Begins.operand rfl).passesOn fun target m₁ hobject => ?_
  cases target with
  | «instance» id =>
    exact .last (Begins.assigned hobject (.inl ⟨id, rfl⟩)).passesOn fun _ =>
      Simple.changeStore.andThen fun _ => Simple.pure
  | callable c =>
    cases c with
    | «class» id =>
      exact .last (Begins.assigned hobject (.inr ⟨id, rfl⟩)).passesOn fun _ =>
        Simple.changeStore.andThen fun _ => Simple.pure
    | native | function | arrow => exact (Simple.fail rfl).cutOnlyIf
  | nil | bool | int | float | str => exact (Simple.fail rfl).cutOnlyIf

theorem super_cut (id : NodeId) (keyword method : Token) :
    CutOnlyIf halt (evaluate (fuel + 1) lookup (.super id keyword method)) m
      (Task.PassesOn halt lookup fuel (.evaluate (.super id keyword method)) m) := by
  rw [evaluate]
  refine CutOnlyIf.bind Simple.readName.cutOnlyIf fun target m₁ hbase => ?_
  cases target with
  | «instance» base =>
    refine CutOnlyIf.bind (Simple.cutOnlyIf .updateStore) fun found? m₂ hfound => ?_
    cases found? with
    | some found => exact (Begins.inherited hbase hfound).passesOn
    | none => exact Simple.cutOnlyIf (Simple.inspect.andThen fun _ => Simple.fail rfl)
  | nil | bool | int | float | str | callable => exact (Simple.fail rfl).cutOnlyIf

theorem evaluate_cut (e : Expr) :
    CutOnlyIf halt (evaluate (fuel + 1) lookup e) m (Task.PassesOn halt lookup fuel (.evaluate e) m) := by
  cases e
  case get object name => exact get_cut object name
  case set object name value => exact set_cut object name value
  case super id keyword method => exact super_cut id keyword method
  all_goals rw [evaluate]
  case literal => exact Simple.pure.cutOnlyIf
  case grouping => exact (Begins.operand rfl).passesOn
  case unary operator right =>
    refine CutOnlyIf.last (Begins.operand rfl).passesOn fun v => ?_
    cases UnaryOperator.ofKind? operator.kind with
    | some op => exact .computed fun _ => Value.applyUnary_fault
    | none => exact .fail rfl
  case binary =>
    exact CutOnlyIf.bind (Begins.operand rfl).passesOn fun v m₁ hleft =>
      .last (Begins.right hleft).passesOn fun _ =>
        .ite (fun _ => Simple.pure) fun _ => Simple.computed fun _ => Value.applyBinary_fault
  case logical =>
    refine CutOnlyIf.bind (Begins.operand rfl).passesOn fun v m₁ hleft =>
      .ite (fun _ => Simple.pure.cutOnlyIf) fun hopen => ?_
    exact (Begins.undecided hleft (Bool.eq_false_iff.mpr hopen)).passesOn
  case ternary =>
    refine CutOnlyIf.bind (Begins.operand rfl).passesOn fun v m₁ hcondition =>
      .ite (fun htrue => ?_) fun hfalse => ?_
    · exact (Begins.chosen hcondition htrue).passesOn
    · exact (Begins.otherwise hcondition (Bool.eq_false_iff.mpr hfalse)).passesOn
  case «variable» | this => exact Simple.readName.cutOnlyIf
  case assign =>
    exact .last (Begins.operand rfl).passesOn fun _ => Simple.writeName.andThen fun _ => Simple.pure
  case call =>
    exact CutOnlyIf.bind (Begins.operand rfl).passesOn fun v m₁ hcallee =>
      .bind (Begins.arguments hcallee).passesOn fun args m₂ hargs =>
        (Begins.call hcallee hargs).passesOn
  case arrow =>
    exact Simple.cutOnlyIf
      (Simple.get.andThen fun _ => Simple.updateStore.andThen fun _ => Simple.pure)

theorem evaluateEach_cut (es : List Expr) : CutOnlyIf halt (evaluateEach (fuel + 1) lookup es) m
    (Task.PassesOn halt lookup fuel (.evaluateEach es) m) := by
  cases es with rw [evaluateEach]
  | nil => exact Simple.pure.cutOnlyIf
  | cons e es =>
    exact CutOnlyIf.bind Begins.head.passesOn fun v m₁ hhead =>
      .last (Begins.tail hhead).passesOn fun _ => Simple.pure

/-! ### Calls of values -/

theorem attributeValue_cut (found : Attribute) (name : Token) :
    CutOnlyIf halt (attributeValue (fuel + 1) lookup found name) m
      (Task.PassesOn halt lookup fuel (.attributeValue found name) m) := by
  cases found with rw [attributeValue]
  | value => exact Simple.pure.cutOnlyIf
  | getter => exact Begins.getter.passesOn

theorem invoke_cut (callee : Value) (paren : Token) (args : List Value) :
    CutOnlyIf halt (invoke (fuel + 1) lookup callee paren args) m
      (Task.PassesOn halt lookup fuel (.invoke callee paren args) m) := by
  rw [invoke]
  refine CutOnlyIf.bind Simple.checkCall.cutOnlyIf fun c m₁ hcheck => ?_
  cases c with
  | native => exact Simple.callNative.cutOnlyIf
  | function id =>
    refine CutOnlyIf.bind Simple.inspect.cutOnlyIf fun found m₂ hask => ?_
    obtain ⟨hfound, rfl⟩ := ok_of_inspect hask
    cases found with
    | some c => exact (Begins.function hcheck hfound).passesOn
    | none => exact Simple.pure.cutOnlyIf
  | arrow id =>
    refine CutOnlyIf.bind Simple.inspect.cutOnlyIf fun found m₂ hask => ?_
    obtain ⟨hfound, rfl⟩ := ok_of_inspect hask
    cases found with
    | some c => exact .last (Begins.arrow hcheck hfound).passesOn fun _ => Simple.pure
    | none => exact Simple.pure.cutOnlyIf
  | «class» id =>
    refine CutOnlyIf.bind Simple.inspect.cutOnlyIf fun found m₂ hask => ?_
    obtain ⟨hfound, rfl⟩ := ok_of_inspect hask
    cases found with
    | some object =>
      refine CutOnlyIf.bind Simple.updateStore.cutOnlyIf fun made m₂ hmake => ?_
      obtain ⟨rfl, rfl⟩ := ok_of_updateStore hmake
      exact .last (Begins.construction hcheck hfound).passesOn fun _ => Simple.pure
    | none => exact Simple.pure.cutOnlyIf

theorem construct_cut (object : InstanceId) (args : List Value) (paren : Token) :
    CutOnlyIf halt (construct (fuel + 1) lookup object args paren) m
      (Task.PassesOn halt lookup fuel (.construct object args paren) m) := by
  rw [construct]
  refine CutOnlyIf.bind Simple.inspect.cutOnlyIf fun found m₁ hask => ?_
  obtain ⟨hfound, rfl⟩ := ok_of_inspect hask
  cases found with
  | none => exact Simple.pure.cutOnlyIf
  | some found =>
    obtain ⟨portion, c⟩ := found
    refine CutOnlyIf.bind Simple.updateStore.cutOnlyIf fun bound m₂ hbind => ?_
    obtain ⟨rfl, rfl⟩ := ok_of_updateStore hbind
    exact .discard (Begins.initializer hfound).passesOn

theorem callFunction_cut (c : Closure) (args : List Value) (place : Token) :
    CutOnlyIf halt (callFunction (fuel + 1) lookup c args place) m
      (Task.PassesOn halt lookup fuel (.callFunction c args place) m) := by
  rw [callFunction]
  exact .last Begins.body.passesOn fun _ =>
    .ite (fun _ => Simple.initializedObject) fun _ => Simple.pure

theorem callBody_cut (outer : FrameId) (params : List Token) (body : List Stmt)
    (args : List Value) (place : Token) :
    CutOnlyIf halt (callBody (fuel + 1) lookup outer params body args place) m
      (Task.PassesOn halt lookup fuel (.callBody outer params body args place) m) := by
  rw [callBody]
  refine CutOnlyIf.bind Simple.updateStore.cutOnlyIf fun frame m₁ hadd => ?_
  obtain ⟨rfl, rfl⟩ := ok_of_updateStore hadd
  refine .counted (fun hdepth hhalt => ?_) fun hdepth => .within ?_
  · subst hhalt
    exact .inl (.tooDeep hdepth)
  have hbegins : Begins lookup fuel (.callBody outer params body args place) m
    (.executeEach body) (m.calling outer params body args) := .statements hdepth
  exact hbegins.passesOn

/-! ### Statements -/

theorem for_cut (initializer : Option Stmt) (condition update : Option Expr) (body : Stmt) :
    CutOnlyIf halt (execute (fuel + 1) lookup (.for initializer condition update body)) m
      (Task.PassesOn halt lookup fuel (.execute (.for initializer condition update body)) m) := by
  rw [execute]
  refine CutOnlyIf.bind Simple.openFrame.cutOnlyIf fun frame m₁ hopen => .within ?_
  cases hopen
  cases initializer with
  | none =>
    have hbegins : Begins lookup fuel (.execute (.for none condition update body)) m
      (.forLoop condition update body)
      (m.entering ⟨.clauses none condition update body, .empty, some m.here⟩) := .for
    exact hbegins.passesOn
  | some initializer =>
    have hclause : Begins lookup fuel (.execute (.for (some initializer) condition update body)) m
      (.execute initializer)
      (m.entering ⟨.clauses (some initializer) condition update body, .empty, some m.here⟩) :=
        .clause
    refine CutOnlyIf.bind (.discard hclause.passesOn) fun _ m₂ hdone => ?_
    obtain ⟨signal, hrun⟩ := exists_of_discard hdone
    exact (Begins.forBehind hrun).passesOn

theorem class_cut (decl : ClassDecl) :
    CutOnlyIf halt (execute (fuel + 1) lookup (.class decl)) m
      (Task.PassesOn halt lookup fuel (.execute (.class decl)) m) := by
  have hdeclare (base : Option ClassId) : Simple (do
      declareClass decl base
      return Signal.completed) := Simple.declareClass.andThen fun _ => Simple.pure
  obtain ⟨name, base, methods, statics, getters⟩ := decl
  cases base with rw [execute]
  | none => exact (hdeclare none).cutOnlyIf
  | some base =>
    refine .last (Begins.expression rfl).passesOn fun value => ?_
    exact Simple.asBaseClass.map.andThen hdeclare

theorem execute_cut (s : Stmt) :
    CutOnlyIf halt (execute (fuel + 1) lookup s) m (Task.PassesOn halt lookup fuel (.execute s) m) := by
  cases s with
  | «for» initializer condition update body => exact for_cut initializer condition update body
  | «class» decl => exact class_cut decl
  | expression value =>
    rw [execute]
    exact .last (.discard (Begins.expression rfl).passesOn) fun _ => Simple.pure
  | print value | println value =>
    rw [execute]
    exact .last (Begins.expression rfl).passesOn fun _ =>
      Simple.inspect.andThen fun _ => Simple.write.andThen fun _ => Simple.pure
  | var name initializer =>
    cases initializer with rw [execute]
    | none => exact Simple.cutOnlyIf (Simple.declare.andThen fun _ => Simple.pure)
    | some value =>
      exact .last (Begins.expression rfl).passesOn fun _ =>
      Simple.declare.andThen fun _ => Simple.pure
  | const name value =>
    rw [execute]
    exact .last (Begins.expression rfl).passesOn fun _ =>
      Simple.declare.andThen fun _ => Simple.pure
  | block body =>
    rw [execute]
    refine CutOnlyIf.bind Simple.openFrame.cutOnlyIf fun frame m₁ hopen => .within ?_
    cases hopen
    have hbegins : Begins lookup fuel (.execute (.block body)) m (.executeEach body)
      (m.entering ⟨.block body, .empty, some m.here⟩) := .block
    exact hbegins.passesOn
  | ifElse condition thenBranch elseBranch =>
    cases elseBranch with rw [execute]
    | none =>
      exact CutOnlyIf.bind (Begins.expression rfl).passesOn fun v m₁ hcondition =>
        .ite (fun htrue => (Begins.thenBranch hcondition htrue).passesOn) fun _ =>
          Simple.pure.cutOnlyIf
    | some elseBranch =>
      exact CutOnlyIf.bind (Begins.expression rfl).passesOn fun v m₁ hcondition =>
        .ite (fun htrue => (Begins.thenBranch hcondition htrue).passesOn) fun hfalse =>
          (Begins.elseBranch hcondition (Bool.eq_false_iff.mpr hfalse)).passesOn
  | «while» condition body =>
    rw [execute]
    exact Begins.while.passesOn
  | «break» keyword | «continue» keyword =>
    rw [execute]
    exact Simple.pure.cutOnlyIf
  | assert keyword condition message =>
    rw [execute]
    refine CutOnlyIf.bind (Begins.expression rfl).passesOn fun v m₁ hcondition =>
      .ite (fun _ => Simple.pure.cutOnlyIf) fun hfalse => ?_
    cases message with
    | none => exact (Simple.fail rfl).cutOnlyIf
    | some message =>
      refine .last ?_ fun _ => Simple.inspect.andThen fun _ => Simple.fail rfl
      exact (Begins.message hcondition (Bool.eq_false_iff.mpr hfalse)).passesOn
  | function decl =>
    rw [execute]
    exact Simple.cutOnlyIf (Simple.declareFunction.andThen fun _ => Simple.pure)
  | «return» keyword value =>
    cases value with rw [execute]
    | none => exact Simple.pure.cutOnlyIf
    | some value => exact .last (Begins.expression rfl).passesOn fun _ => Simple.pure

theorem executeEach_cut (ss : List Stmt) : CutOnlyIf halt (executeEach (fuel + 1) lookup ss) m
    (Task.PassesOn halt lookup fuel (.executeEach ss) m) := by
  cases ss with rw [executeEach]
  | nil => exact Simple.pure.cutOnlyIf
  | cons s ss =>
    refine CutOnlyIf.bind Begins.first.passesOn fun signal m₁ hfirst => ?_
    cases signal with
    | completed => exact (Begins.rest hfirst).passesOn
    | broke | continued | returned => exact Simple.pure.cutOnlyIf

theorem whileLoop_cut (condition : Expr) (body : Stmt) :
    CutOnlyIf halt (whileLoop (fuel + 1) lookup condition body) m
      (Task.PassesOn halt lookup fuel (.whileLoop condition body) m) := by
  rw [whileLoop]
  refine CutOnlyIf.bind Begins.condition.passesOn fun v m₁ hcondition =>
    .ite (fun htrue => ?_) fun _ => Simple.pure.cutOnlyIf
  refine CutOnlyIf.bind (Begins.round hcondition htrue).passesOn fun signal m₂ hbody => ?_
  cases signal with
  | broke | returned => exact Simple.pure.cutOnlyIf
  | completed | continued => exact (Begins.rounds hcondition htrue hbody rfl).passesOn

theorem goesOn_cut (condition update : Option Expr) (body : Stmt) :
    CutOnlyIf halt (goesOn fuel lookup condition) m
      (Task.PassesOn halt lookup fuel (.forLoop condition update body) m) := by
  cases condition with
  | none => exact Simple.pure.cutOnlyIf
  | some condition => exact .map Begins.forCondition.passesOn

theorem step_cut {condition update : Option Expr} {body : Stmt} {signal : Signal} {m₁ m₂ : Machine}
    (hcondition : goesOn fuel lookup condition m = .ok true m₁)
    (hbody : execute fuel lookup body m₁ = .ok signal m₂) (hround : signal.goesRound = true) :
    CutOnlyIf halt (step fuel lookup update) m₂
      (Task.PassesOn halt lookup fuel (.forLoop condition update body) m) := by
  cases update with
  | none => exact Simple.pure.cutOnlyIf
  | some update => exact .discard (Begins.update hcondition hbody hround).passesOn

theorem forLoop_cut (condition update : Option Expr) (body : Stmt) :
    CutOnlyIf halt (forLoop (fuel + 1) lookup condition update body) m
      (Task.PassesOn halt lookup fuel (.forLoop condition update body) m) := by
  rw [forLoop_eq]
  refine CutOnlyIf.bind (goesOn_cut condition update body) fun goes m₁ hcondition =>
    .ite (fun hgoes => ?_) fun _ => Simple.pure.cutOnlyIf
  subst hgoes
  refine CutOnlyIf.bind (Begins.forRound hcondition).passesOn fun signal m₂ hbody => ?_
  cases signal with
  | broke | returned => exact Simple.pure.cutOnlyIf
  | completed | continued =>
    refine CutOnlyIf.bind (step_cut hcondition hbody rfl) fun _ m₃ hupdate => ?_
    exact (Begins.forRounds hcondition hbody rfl hupdate).passesOn

/-- A call that is cut short meets a bound itself or makes a call that is cut short. -/
theorem passesOn {task : Task} (hlimit : halt.isLimit)
    (h : task.CutShort halt lookup (fuel + 1) m) : task.PassesOn halt lookup fuel m := by
  cases task with
  | evaluate e => exact evaluate_cut e hlimit h
  | evaluateEach es => exact evaluateEach_cut es hlimit h
  | attributeValue found name => exact attributeValue_cut found name hlimit h
  | invoke callee paren args => exact invoke_cut callee paren args hlimit h
  | construct object args paren => exact construct_cut object args paren hlimit h
  | callFunction c args place => exact callFunction_cut c args place hlimit h
  | callBody outer params body args place =>
    exact callBody_cut outer params body args place hlimit h
  | execute s => exact execute_cut s hlimit h
  | executeEach ss => exact executeEach_cut ss hlimit h
  | whileLoop condition body => exact whileLoop_cut condition body hlimit h
  | forLoop condition update body => exact forLoop_cut condition update body hlimit h

/-! ## What cuts a call short -/

/-- With nothing left of the bound, a call stops at once. -/
theorem Task.cutShort_zero (task : Task) :
    task.CutShort halt lookup 0 m ↔ halt = .outOfFuel := by
  have hstop {α : Type} {act : Eval α} (hact : act = Eval.outOfFuel) :
      act.CutShort halt m ↔ halt = .outOfFuel := by
    subst hact
    refine ⟨fun ⟨_, hrun⟩ => ?_, fun heq => ⟨m, ?_⟩⟩
    · cases hrun
      rfl
    · rw [heq]
      rfl
  cases task with
  | evaluate e => exact hstop (by rw [Eval.evaluate])
  | evaluateEach es => exact hstop (by rw [Eval.evaluateEach])
  | attributeValue found name => exact hstop (by rw [Eval.attributeValue])
  | invoke callee paren args => exact hstop (by rw [Eval.invoke])
  | construct object args paren => exact hstop (by rw [Eval.construct])
  | callFunction c args place => exact hstop (by rw [Eval.callFunction])
  | callBody outer params body args place => exact hstop (by rw [Eval.callBody])
  | execute s => exact hstop (by rw [Eval.execute])
  | executeEach ss => exact hstop (by rw [Eval.executeEach])
  | whileLoop condition body => exact hstop (by rw [Eval.whileLoop])
  | forLoop condition update body => exact hstop (by rw [Eval.forLoop])

theorem Task.AtLimit.cutShort {task : Task} (h : task.AtLimit halt fuel m) :
    task.CutShort halt lookup fuel m := by
  cases h with
  | outOfFuel => exact task.cutShort_zero.mpr rfl
  | @tooDeep fuel outer params body args place _ hdepth =>
    refine ⟨{ m with store := (m.store.addFrame (parameterFrame params body args outer)).2 }, ?_⟩
    show Eval.callBody (fuel + 1) lookup outer params body args place m = _
    rw [Eval.callBody, bind_of_ok (show updateStore _ m = .ok _ _ from rfl)]
    exact if_pos hdepth

theorem cutShort_operand {e first : Expr} (hfirst : e.first? = some first)
    (h : (evaluate fuel lookup first).CutShort halt m) :
    (evaluate (fuel + 1) lookup e).CutShort halt m := by
  cases e with
  | grouping inner =>
    cases hfirst
    rw [evaluate]
    exact h
  | unary | binary | logical | ternary | assign | call | get | set =>
    cases hfirst
    rw [evaluate]
    exact h.first
  | literal | «variable» | this | super | arrow => cases hfirst

theorem cutShort_expression {s : Stmt} {first : Expr} (hfirst : s.first? = some first)
    (h : (evaluate fuel lookup first).CutShort halt m) :
    (execute (fuel + 1) lookup s).CutShort halt m := by
  cases s with
  | expression =>
    cases hfirst
    rw [execute]
    exact h.discard.first
  | print | println | const | assert =>
    cases hfirst
    rw [execute]
    exact h.first
  | ifElse condition thenBranch elseBranch =>
    cases hfirst
    cases elseBranch with
    | none | some =>
      rw [execute]
      exact h.first
  | var _ value | «return» _ value =>
    cases value with
    | none => cases hfirst
    | some value =>
      cases hfirst
      rw [execute]
      exact h.first
  | «class» decl =>
    obtain ⟨name, base, methods, statics, getters⟩ := decl
    cases hfirst
    rw [execute]
    exact h.first
  | block | «while» | «for» | «break» | «continue» | function => cases hfirst

theorem inspect_of_eq {question : Store → α} {a : α} (h : question m.store = a) :
    inspect question m = .ok a m := congrArg (EStateM.Result.ok · m) h

theorem discard_of_ok {a : α} (h : act m = .ok a m₁) : discard act m = .ok () m₁ := by
  rw [Functor.discard, Functor.mapConst]
  exact bind_of_ok h

/-- A `for` that goes on and whose body is cut short, or what comes behind it. -/
theorem cutShort_forLoop {condition update : Option Expr} {body : Stmt}
    (hcondition : goesOn fuel lookup condition m = .ok true m₁)
    (h : (execute fuel lookup body).CutShort halt m₁ ∨ ∃ signal m₂,
      execute fuel lookup body m₁ = .ok signal m₂ ∧ signal.goesRound = true ∧
        ((step fuel lookup update).CutShort halt m₂ ∨ ∃ m₃,
          step fuel lookup update m₂ = .ok () m₃ ∧
            (forLoop fuel lookup condition update body).CutShort halt m₃)) :
    (forLoop (fuel + 1) lookup condition update body).CutShort halt m := by
  rw [forLoop_eq]
  refine .behind hcondition ?_
  rw [if_pos rfl]
  rcases h with hbody | ⟨signal, m₂, hbody, hround, hrest⟩
  · exact hbody.first
  refine .behind hbody ?_
  rw [behindRound_of_goesRound hround]
  rcases hrest with hupdate | ⟨m₃, hupdate, hloop⟩
  · exact hupdate.first
  · exact .behind hupdate hloop

namespace Begins

variable {task task' : Task} {m' : Machine}

theorem evaluate_cutShort {e : Expr} (h : Begins lookup fuel (.evaluate e) m task' m')
    (hcut : task'.CutShort halt lookup fuel m') :
    (evaluate (fuel + 1) lookup e).CutShort halt m := by
  cases h with
  | operand hfirst => exact cutShort_operand hfirst hcut
  | right hrun | arguments hrun =>
    rw [evaluate]
    exact .behind hrun hcut.first
  | undecided hrun htest | chosen hrun htest | otherwise hrun htest =>
    rw [evaluate]
    exact .behind hrun (by rw [htest]; exact hcut)
  | call hrun hrun' | member hrun hrun' | inherited hrun hrun' =>
    rw [evaluate]
    exact .behind hrun (.behind hrun' hcut)
  | assigned hrun htarget =>
    rw [evaluate]
    rcases htarget with ⟨id, rfl⟩ | ⟨id, rfl⟩
    · exact .behind hrun hcut.first
    · exact .behind hrun hcut.first

theorem evaluateEach_cutShort {es : List Expr}
    (h : Begins lookup fuel (.evaluateEach es) m task' m')
    (hcut : task'.CutShort halt lookup fuel m') :
    (evaluateEach (fuel + 1) lookup es).CutShort halt m := by
  cases h with
  | head =>
    rw [evaluateEach]
    exact hcut.first
  | tail hhead =>
    rw [evaluateEach]
    exact .behind hhead hcut.first

theorem invoke_cutShort {callee : Value} {paren : Token} {args : List Value}
    (h : Begins lookup fuel (.invoke callee paren args) m task' m')
    (hcut : task'.CutShort halt lookup fuel m') :
    (invoke (fuel + 1) lookup callee paren args).CutShort halt m := by
  rw [invoke]
  cases h with
  | function hcheck hfound => exact .behind hcheck (.behind (inspect_of_eq hfound) hcut)
  | arrow hcheck hfound => exact .behind hcheck (.behind (inspect_of_eq hfound) hcut.first)
  | construction hcheck hfound =>
    exact .behind hcheck (.behind (inspect_of_eq hfound) (.behind rfl hcut.first))

theorem execute_cutShort {s : Stmt} (h : Begins lookup fuel (.execute s) m task' m')
    (hcut : task'.CutShort halt lookup fuel m') :
    (execute (fuel + 1) lookup s).CutShort halt m := by
  cases h with
  | expression hfirst => exact cutShort_expression hfirst hcut
  | block | «for» =>
    rw [execute]
    exact .behind rfl (.within hcut)
  | @thenBranch _ _ elseBranch _ _ _ hcondition htrue =>
    cases elseBranch with
    | none | some =>
      rw [execute]
      exact .behind hcondition (by rw [htrue]; exact hcut)
  | elseBranch hcondition hfalse =>
    rw [execute]
    exact .behind hcondition (by rw [hfalse]; exact hcut)
  | «while» =>
    rw [execute]
    exact hcut
  | clause =>
    rw [execute]
    exact .behind rfl (.within hcut.discard.first)
  | forBehind hclause =>
    rw [execute]
    exact .behind rfl (.within (.behind (discard_of_ok hclause) hcut))
  | message hcondition hfalse =>
    rw [execute]
    exact .behind hcondition (by rw [hfalse]; exact hcut.first)

theorem executeEach_cutShort {ss : List Stmt} (h : Begins lookup fuel (.executeEach ss) m task' m')
    (hcut : task'.CutShort halt lookup fuel m') :
    (executeEach (fuel + 1) lookup ss).CutShort halt m := by
  cases h with
  | first =>
    rw [executeEach]
    exact hcut.first
  | rest hfirst =>
    rw [executeEach]
    exact .behind hfirst hcut

theorem whileLoop_cutShort {condition : Expr} {body : Stmt}
    (h : Begins lookup fuel (.whileLoop condition body) m task' m')
    (hcut : task'.CutShort halt lookup fuel m') :
    (whileLoop (fuel + 1) lookup condition body).CutShort halt m := by
  rw [whileLoop]
  cases h with
  | condition => exact hcut.first
  | round hcondition htrue => exact .behind hcondition (by rw [htrue]; exact hcut.first)
  | @rounds _ _ _ _ _ signal _ hcondition htrue hbody hround =>
    refine .behind hcondition ?_
    rw [htrue]
    refine .behind hbody ?_
    cases signal with
    | broke | returned => cases hround
    | completed | continued => exact hcut

theorem forLoop_cutShort {condition update : Option Expr} {body : Stmt}
    (h : Begins lookup fuel (.forLoop condition update body) m task' m')
    (hcut : task'.CutShort halt lookup fuel m') :
    (forLoop (fuel + 1) lookup condition update body).CutShort halt m := by
  cases h with
  | forCondition =>
    rw [forLoop]
    exact hcut.map.first
  | forRound hcondition => exact cutShort_forLoop hcondition (.inl hcut)
  | update hcondition hbody hround =>
    exact cutShort_forLoop hcondition (.inr ⟨_, _, hbody, hround, .inl hcut.discard⟩)
  | forRounds hcondition hbody hround hupdate =>
    exact cutShort_forLoop hcondition (.inr ⟨_, _, hbody, hround, .inr ⟨_, hupdate, hcut⟩⟩)

/-- A call is cut short if one is that it makes itself. -/
theorem cutShort (h : Begins lookup fuel task m task' m')
    (hcut : task'.CutShort halt lookup fuel m') : task.CutShort halt lookup (fuel + 1) m := by
  cases task with
  | evaluate e => exact h.evaluate_cutShort hcut
  | evaluateEach es => exact h.evaluateEach_cutShort hcut
  | invoke callee paren args => exact h.invoke_cutShort hcut
  | execute s => exact h.execute_cutShort hcut
  | executeEach ss => exact h.executeEach_cutShort hcut
  | whileLoop condition body => exact h.whileLoop_cutShort hcut
  | forLoop condition update body => exact h.forLoop_cutShort hcut
  | attributeValue found name =>
    cases h with
    | getter =>
      rw [Task.CutShort, attributeValue]
      exact hcut
  | construct object args paren =>
    cases h with
    | initializer hfound =>
      rw [Task.CutShort, construct]
      exact .behind (inspect_of_eq hfound) (.behind rfl hcut.discard)
  | callFunction c args place =>
    cases h with
    | body =>
      rw [Task.CutShort, callFunction]
      exact hcut.first
  | callBody outer params body args place =>
    cases h with
    | statements hdepth =>
      rw [Task.CutShort, callBody]
      exact .behind rfl (.counted hdepth (.within hcut))

end Begins

end Calls

end Eval

/-! ## Runs -/

namespace Machine

variable {bound : Nat} {lookup : Lookup} {program : List Stmt} {halt : Halt}

/-- A run that comes to a call that a bound cuts short comes to one that meets it. -/
theorem Comes.exists_atLimit {start : Machine} {fuel : Nat} {task : Eval.Task} {m : Machine}
    (h : start.Comes bound lookup program fuel task m) (hlimit : halt.isLimit)
    (hcut : task.CutShort halt lookup fuel m) : ∃ fuel' task' m',
      start.Comes bound lookup program fuel' task' m' ∧ task'.AtLimit halt fuel' m' := by
  induction fuel generalizing task m with
  | zero =>
    cases task.cutShort_zero.mp hcut
    exact ⟨0, task, m, h, .outOfFuel⟩
  | succ fuel ih =>
    rcases Eval.passesOn hlimit hcut with hmeets | ⟨task', m', hbegins, hcut'⟩
    · exact ⟨fuel + 1, task, m, h, hmeets⟩
    · exact ih (h.call hbegins) hcut'

/-- If a call of a run is cut short, then so is a statement. -/
theorem Comes.exists_executes {start : Machine} {fuel : Nat} {task : Eval.Task} {m : Machine}
    (h : start.Comes bound lookup program fuel task m) (hcut : task.CutShort halt lookup fuel m) :
    ∃ s m, m.Executes bound lookup s start program ∧
      (Eval.execute bound lookup s).CutShort halt m := by
  induction h with
  | statement hexecutes => exact ⟨_, _, hexecutes, hcut⟩
  | call _ hbegins ih => exact ih (hbegins.cutShort hcut)

theorem interpret_of_cutShort {start : Machine} {s : Stmt} {m : Machine}
    (h : m.Executes bound lookup s start program)
    (hcut : (Eval.execute bound lookup s).CutShort halt m) :
    (start.interpret bound lookup program).1 = .error halt := by
  induction h with
  | here =>
    obtain ⟨after, hrun⟩ := hcut
    rw [interpret, hrun]
  | later hfirst _ ih =>
    rw [interpret, hfirst]
    exact ih

/-- A run is cut short at one of its statements. -/
theorem exists_executes {start : Machine} (hlimit : halt.isLimit)
    (h : (start.interpret bound lookup program).1 = .error halt) :
    ∃ s m, m.Executes bound lookup s start program ∧
      (Eval.execute bound lookup s).CutShort halt m := by
  induction program generalizing start with
  | nil =>
    rw [interpret] at h
    split at h <;> cases h
    cases hlimit
  | cons s rest ih =>
    rw [interpret] at h
    split at h
    · next hfirst =>
      obtain ⟨s', m, hexecutes, hcut⟩ := ih h
      exact ⟨s', m, .later hfirst hexecutes, hcut⟩
    · next hstop =>
      cases h
      exact ⟨s, start, .here, _, hstop⟩

/-- A bound cuts a run short just if the run comes to a call that meets it. -/
theorem cutShort_iff {start : Machine} (hlimit : halt.isLimit) :
    (start.interpret bound lookup program).1 = .error halt ↔ ∃ fuel task m,
      start.Comes bound lookup program fuel task m ∧ task.AtLimit halt fuel m := by
  constructor
  · intro h
    obtain ⟨s, m, hexecutes, hcut⟩ := exists_executes hlimit h
    exact Comes.exists_atLimit (.statement hexecutes) hlimit hcut
  · rintro ⟨fuel, task, m, hcomes, hmeets⟩
    obtain ⟨s, m', hexecutes, hcut⟩ := hcomes.exists_executes hmeets.cutShort
    exact interpret_of_cutShort hexecutes hcut

end Machine

end LoxLang
