import LoxLang.Proofs.Machine.Ending
import LoxLang.Proofs.Machine.Moments

/-!
# Results of calls

What comes of a call that is ready. No jump leaves a body or a loop, an initializer gives back the
object that it works on (`initializer_result`), wherever it is called from (`init_result`), and a
class a new instance of itself (`class_result`).
-/

namespace LoxLang

section Results

variable {lookup : Lookup} {fuel : Nat} {m after : Machine}

/-! ## Bodies and loops -/

theorem gives_callBody (outer : FrameId) (params : List Token) (body : List Stmt)
    (args : List Value) (place : Token) :
    Eval.Gives (Eval.callBody fuel lookup outer params body args place) (BodyEnds body) := by
  cases fuel with rw [Eval.callBody]
  | zero => exact Eval.Gives.outOfFuel
  | succ fuel =>
    exact Eval.Gives.behind fun frame =>
      (((ending lookup fuel).executeEach body).within frame).counted place

theorem body_result {outer : FrameId} {params : List Token} {body : List Stmt} {args : List Value}
    {place : Token} {signal : Signal} (hbody : WellFormedBody body false)
    (hrun : Eval.callBody fuel lookup outer params body args place m = .ok signal after) :
    signal.Leaves := ((gives_callBody outer params body args place).ok hrun).leaves hbody

/-- A loop statement. -/
def Stmt.isLoop : Stmt → Bool
  | .while _ _ | .for _ _ _ _ => true
  | _ => false

theorem loop_result {s : Stmt} {signal : Signal} (hloop : s.isLoop = true)
    (hrun : Eval.execute fuel lookup s m = .ok signal after) : signal.Leaves := by
  have hends := ((ending lookup fuel).execute s).ok hrun
  cases s with
  | «while» | «for» => exact Signal.EndsLoop.leaves hends
  | expression | print | println | var | const | block | ifElse | «break» | «continue» | assert
  | function | «return» | «class» => cases hloop

/-! ## Initializers -/

theorem initializedObject_result {c : Closure} {object : InstanceId} {value : Value}
    (hobject : m.store.Receives c.frame object)
    (hrun : Eval.initializedObject c m = .ok value after) : value = .instance object := by
  obtain ⟨frame, hframe, -, hthis⟩ := hobject
  have hslot : m.store.slot? c.frame "this" = some ⟨some (.instance object), true⟩ := by
    rw [Store.slot?, hframe]
    exact hthis
  have hread : m.store.getAt c.frame 0
      (.synthetic (.keyword .this) "this" c.decl.name) = .ok (.instance object) := by
    unfold Store.getAt Store.searchAt
    simp only [Store.ancestor?, Token.synthetic, hslot]
    rfl
  unfold Eval.initializedObject Eval.ask at hrun
  dsimp only at hrun
  rw [hread] at hrun
  cases hrun
  rfl

/-- Whatever its body ends with, an initializer gives back the object in the frame around it. -/
theorem initializer_result {c : Closure} {args : List Value} {place : Token} {object : InstanceId}
    {value : Value} (hm : m.Whole) (hdecl : c.decl.WellFormed)
    (hargs : ∀ v ∈ args, v.Known m.store) (hinit : c.isInitializer = true)
    (hobject : m.store.Receives c.frame object)
    (hrun : Eval.callFunction fuel lookup c args place m = .ok value after) :
    value = .instance object := by
  cases fuel with rw [Eval.callFunction] at hrun
  | zero => cases hrun
  | succ fuel =>
    obtain ⟨signal, m₁, hbody, hrun⟩ := exists_of_bind hrun
    obtain ⟨hbecomes, -⟩ := ((holding lookup fuel).callBody c.frame c.decl.params place m
      hdecl.body hargs).ok hm hbody
    rw [if_pos hinit] at hrun
    exact initializedObject_result (hobject.mono hbecomes.store.precedes) hrun

theorem invoke_result {id : FunctionId} {c : Closure} {args : List Value} {paren : Token}
    {object : InstanceId} {value : Value} (hm : m.Whole) (hargs : ∀ v ∈ args, v.Known m.store)
    (hc : m.store.function? id = some c) (hinit : c.isInitializer = true)
    (hobject : m.store.Receives c.frame object)
    (hrun : Eval.invoke fuel lookup (Store.functionValue id) paren args m = .ok value after) :
    value = .instance object := by
  cases fuel with rw [Eval.invoke] at hrun
  | zero => cases hrun
  | succ fuel =>
    obtain ⟨callee, m₁, hcheck, hrun⟩ := exists_of_bind hrun
    obtain ⟨hbecomes, hcallee⟩ := Holds.checkCall.ok hm hcheck
    cases hcallee
    obtain ⟨found, m₂, hask, hrun⟩ := exists_of_bind hrun
    obtain ⟨hfound, rfl⟩ := Eval.ok_of_inspect hask
    cases hfound.symm.trans (hbecomes.store.precedes.function hc)
    exact initializer_result (hbecomes.whole hm) (hm.store.tidy.functions hc)
      (fun v hv => (hargs v hv).mono hbecomes.store.precedes) hinit
      (hobject.mono hbecomes.store.precedes) hrun

/-- A callee that looks for the method `init` of an object: `x.init` or `super.init`. -/
inductive SeeksInit (lookup : Lookup) (fuel : Nat) (m : Machine) :
    Expr → InstanceId → Machine → Prop
  | get {object name id m₁} (hname : name.lexeme = "init")
    (hobject : Eval.evaluate fuel lookup object m = .ok (.instance id) m₁) :
    SeeksInit lookup fuel m (.get object name) id m₁
  | super {node keyword method id m₁} (hname : method.lexeme = "init")
    (hbase : Eval.readName lookup node keyword m = .ok (.instance id) m₁) :
    SeeksInit lookup fuel m (.super node keyword method) id m₁

/-- An attribute `init` that is a method is the initializer of the portion that has it. -/
theorem attribute_result {id portion : InstanceId} {name : Token} {c : Closure}
    {k : Option Attribute → Eval Value} {value : Value} (hm : m.Whole)
    (hname : name.lexeme = "init")
    (hmember : m.store.member? id "init" = some (portion, .method c))
    (hk : ∀ found, k (some found) = Eval.attributeValue fuel lookup found name)
    (hrun : (Eval.instanceAttribute? id name.lexeme >>= k) m = .ok value after) :
    ∃ function bound, value = Store.functionValue function ∧
      after.store.function? function = some bound ∧ bound.isInitializer = true ∧
        after.store.Receives bound.frame portion := by
  obtain ⟨function, bound, hfound, hbound⟩ := hm.store.attribute?_init hmember
  obtain ⟨found, m₁, hattribute, hrun⟩ := exists_of_bind hrun
  rw [hname] at hattribute
  obtain ⟨hfirst, rfl⟩ := Eval.ok_of_updateStore hattribute
  cases hfirst.symm.trans hfound
  rw [hk] at hrun
  cases fuel with rw [Eval.attributeValue] at hrun
  | zero => cases hrun
  | succ fuel =>
    cases hrun
    exact ⟨function, bound, rfl, hbound⟩

/-- The callee is the initializer of the portion that has it. -/
theorem SeeksInit.result {callee : Expr} {id portion : InstanceId} {c : Closure} {m₁ m₂ : Machine}
    {value : Value} (h : SeeksInit lookup fuel m callee id m₁) (hcallee : callee.WellFormed)
    (hm : m.Whole) (hmember : m₁.store.member? id "init" = some (portion, .method c))
    (hrun : Eval.evaluate (fuel + 1) lookup callee m = .ok value m₂) :
    ∃ function bound, value = Store.functionValue function ∧
      m₂.store.function? function = some bound ∧ bound.isInitializer = true ∧
        m₂.store.Receives bound.frame portion := by
  cases h with
  | @get object name _ _ hname hobject =>
    rw [Eval.evaluate] at hrun
    obtain ⟨target, m₃, htarget, hrun⟩ := exists_of_bind hrun
    cases hobject.symm.trans htarget
    have hbecomes := ((holding lookup fuel).evaluate (e := object) m hcallee).ok hm hobject
    exact attribute_result (hbecomes.1.whole hm) hname hmember (fun _ => rfl) hrun
  | super hname hbase =>
    rw [Eval.evaluate] at hrun
    obtain ⟨target, m₃, htarget, hrun⟩ := exists_of_bind hrun
    cases hbase.symm.trans htarget
    exact attribute_result ((Holds.readName.ok hm hbase).1.whole hm) hname hmember (fun _ => rfl)
      hrun

/-- A call of the method `init` gives back the portion that `this` stands for in it. -/
theorem init_result {callee : Expr} {paren : Token} {arguments : List Expr}
    {id portion : InstanceId} {c : Closure} {m₁ : Machine} {value : Value}
    (hcall : (Expr.call callee paren arguments).WellFormed) (hm : m.Whole)
    (hseeks : SeeksInit lookup fuel m callee id m₁)
    (hmember : m₁.store.member? id "init" = some (portion, .method c))
    (hrun : Eval.evaluate (fuel + 2) lookup (.call callee paren arguments) m = .ok value after) :
    value = .instance portion := by
  rw [Eval.evaluate] at hrun
  obtain ⟨found, m₂, hcallee, hrun⟩ := exists_of_bind hrun
  obtain ⟨args, m₃, hargs, hrun⟩ := exists_of_bind hrun
  obtain ⟨function, bound, rfl, hbound, hinit, hreceives⟩ :=
    hseeks.result hcall.1 hm hmember hcallee
  have hm₂ := (((holding lookup _).evaluate m hcall.1).ok hm hcallee).1.whole hm
  obtain ⟨hbecomes, hvalues⟩ := ((holding lookup _).evaluateEach m₂ hcall.2.2).ok hm₂ hargs
  exact invoke_result (hbecomes.whole hm₂) hvalues (hbecomes.store.precedes.function hbound) hinit
    (hreceives.mono hbecomes.store.precedes) hrun

/-! ## Constructions -/

/-- An instance of a class that the store before did not have. -/
def Value.IsNew (value : Value) (id : ClassId) (before after : Store) : Prop :=
  ∃ object portion, value = .instance object ∧ before.portion? object = none ∧
    after.portion? object = some portion ∧ portion.classId = id

theorem class_result {id : ClassId} {args : List Value} {paren : Token} {value : Value}
    (hm : m.Whole) (hclass : (m.store.class? id).isSome) (hargs : ∀ v ∈ args, v.Known m.store)
    (hrun : Eval.invoke fuel lookup (.callable (.class id)) paren args m = .ok value after) :
    value.IsNew id m.store after.store := by
  cases fuel with rw [Eval.invoke] at hrun
  | zero => cases hrun
  | succ fuel =>
    obtain ⟨callee, m₁, hcheck, hrun⟩ := exists_of_bind hrun
    obtain ⟨h₁, hcallee⟩ := Holds.checkCall.ok hm hcheck
    cases hcallee
    obtain ⟨found, m₂, hask, hrun⟩ := exists_of_bind hrun
    obtain ⟨hfound, rfl⟩ := Eval.ok_of_inspect hask
    obtain ⟨called, hcalled⟩ := Option.isSome_iff_exists.mp (h₁.store.precedes.known hclass)
    cases hfound.symm.trans hcalled
    obtain ⟨object, m₂, hmake, hrun⟩ := exists_of_bind hrun
    obtain ⟨rfl, rfl⟩ := Eval.ok_of_updateStore hmake
    obtain ⟨⟨⟩, m₃, hconstruct, hrun⟩ := exists_of_bind hrun
    cases hrun
    have hwhole := h₁.whole hm
    obtain ⟨hmade, hnew, portion, hportion, hid⟩ := hwhole.store.instantiate id
    have h₂ := Machine.Whole.becomes hmade
    obtain ⟨h₃, -⟩ := ((holding lookup fuel).construct _ paren _ fun v hv =>
      (hargs v hv).mono (h₁.trans h₂).store.precedes).ok (h₂.whole hwhole) hconstruct
    obtain ⟨final, hfinal, hclassId, -⟩ := h₃.store.precedes.portion hportion
    refine ⟨_, final, rfl, ?_, hfinal, hclassId.trans hid⟩
    cases hold : m.store.portion? (m₁.store.instantiate id).1 with
    | none => rfl
    | some old =>
      obtain ⟨later, hlater, -⟩ := h₁.store.precedes.portion hold
      cases hnew.symm.trans hlater

/-- A call of a class gives back an instance that was not there behind the arguments. -/
theorem construction_result {callee : Expr} {paren : Token} {arguments : List Expr} {id : ClassId}
    {args : List Value} {m₁ m₂ : Machine} {value : Value}
    (hcall : (Expr.call callee paren arguments).WellFormed) (hm : m.Whole)
    (hcallee : Eval.evaluate fuel lookup callee m = .ok (.callable (.class id)) m₁)
    (hargs : Eval.evaluateEach fuel lookup arguments m₁ = .ok args m₂)
    (hrun : Eval.evaluate (fuel + 1) lookup (.call callee paren arguments) m = .ok value after) :
    value.IsNew id m₂.store after.store := by
  obtain ⟨h₁, hknown⟩ := ((holding lookup fuel).evaluate m hcall.1).ok hm hcallee
  have hm₁ := h₁.whole hm
  obtain ⟨h₂, hvalues⟩ := ((holding lookup fuel).evaluateEach m₁ hcall.2.2).ok hm₁ hargs
  rw [Eval.evaluate] at hrun
  obtain ⟨found, m₃, hfound, hrun⟩ := exists_of_bind hrun
  cases hcallee.symm.trans hfound
  obtain ⟨given, m₄, hgiven, hrun⟩ := exists_of_bind hrun
  cases hargs.symm.trans hgiven
  exact class_result (h₂.whole hm₁) (h₂.store.precedes.known hknown) hvalues hrun

end Results

end LoxLang
