import LoxLang.Proofs.Machine.MatchedRuns
import LoxLang.Proofs.Machine.Plain
import LoxLang.Proofs.Sequence

/-!
# Calls of closed functions

A closed function can be called on two machines that have nothing in common but the function
(`Maker.invoke`).
-/

namespace LoxLang

/-- A function or an arrow function and where it is. -/
inductive Maker
  | function (id : FunctionId) (closure : Closure)
  | arrow (id : ArrowId) (closure : ArrowClosure)

namespace Maker

def callable : Maker → Callable
  | function id _ => .function id
  | arrow id _ => .arrow id

def place : Maker → Place
  | function id _ => .function id
  | arrow id _ => .arrow id

def thing : Maker → Thing
  | function _ closure => .function closure
  | arrow _ closure => .arrow closure

def params : Maker → List Token
  | function _ closure => closure.decl.params
  | arrow _ closure => closure.decl.params

def body : Maker → List Stmt
  | function _ closure => closure.decl.body
  | arrow _ closure => closure.decl.body

def isInitializer : Maker → Bool
  | function _ closure => closure.isInitializer
  | arrow _ _ => false

/-- How a function is shown. -/
def display : Maker → String
  | function _ closure => "<function " ++ closure.decl.name.lexeme ++ ">"
  | arrow _ _ => "<arrow function>"

end Maker

namespace Store

variable {s : Store}

theorem function?_of_thing? {id : FunctionId} {c : Closure}
    (h : s.thing? (.function id) = some (.function c)) : s.function? id = some c := by
  obtain ⟨_, hc, heq⟩ := Option.map_eq_some_iff.mp h
  cases heq
  exact hc

theorem arrow?_of_thing? {id : ArrowId} {c : ArrowClosure}
    (h : s.thing? (.arrow id) = some (.arrow c)) : s.arrow? id = some c := by
  obtain ⟨_, hc, heq⟩ := Option.map_eq_some_iff.mp h
  cases heq
  exact hc

end Store

namespace Maker

variable {maker : Maker} {s : Store} {m : Machine}

theorem arity_eq (h : s.thing? maker.place = some maker.thing) :
    s.arity maker.callable = maker.params.length := by
  cases maker with
  | function id c => exact congrArg (Option.elim · 0 _) (Store.function?_of_thing? h)
  | arrow id c => exact congrArg (Option.elim · 0 _) (Store.arrow?_of_thing? h)

theorem display_eq (h : s.thing? maker.place = some maker.thing) :
    s.displayCallable maker.callable = maker.display := by
  cases maker with
  | function id c =>
    have hc := Store.function?_of_thing? h
    show "<function " ++ (s.function? id).elim "" _ ++ ">" = _
    rw [hc]
    rfl
  | arrow id c => rfl

theorem checkCall_eq (h : m.store.thing? maker.place = some maker.thing) (paren : Token)
    (given : Nat) : Eval.checkCall (.callable maker.callable) paren given m =
      if given = maker.params.length then .ok maker.callable m
      else .error (.error (.located
        (.argumentCount maker.display maker.params.length given) paren)) m := by
  rw [← arity_eq h, ← display_eq h]
  unfold Eval.checkCall
  dsimp only
  rw [Eval.inspect_bind rfl]
  split <;> rfl

end Maker

/-- A closed function works alike wherever it is called with the same scalars. -/
theorem Maker.invoke {maker : Maker} {region : Region} {lookup lookup' : Lookup} {p : Matching}
    {here here' : FrameId} {m m' : Machine} (hlookup : Enclosed region lookup lookup')
    {ribs : List Rib} (hfits : FunctionFits region maker.params maker.body ribs)
    (hinside : region.inside ribs = 0) (hinitializer : maker.isInitializer = false)
    (hm : Machine.Matches region p here here' m m')
    (ht : m.store.thing? maker.place = some maker.thing)
    (ht' : m'.store.thing? maker.place = some maker.thing) {args : List Value}
    (hargs : ∀ v ∈ args, v.Scalar) (fuel : Nat) (paren : Token) :
    ResultsMatch region p m.store m'.store here here' Value.Matches
      (Eval.invoke fuel lookup (.callable maker.callable) paren args m)
      (Eval.invoke fuel lookup' (.callable maker.callable) paren args m') := by
  have hsame : List.Forall₂ (Value.Matches p) args args :=
    List.forall₂_same.mpr fun v hv => .of_scalar (hargs v hv)
  have haround (frame : FrameId) : p.Around (region.inside ribs) frame frame := fun h =>
    absurd hinside h
  cases fuel with
  | zero =>
    rw [Eval.invoke, Eval.invoke]
    exact .error (.refl _ _ _) hm
  | succ fuel =>
    have hruns := runsMatched hlookup fuel
    have hcheck := checkCall_eq ht paren args.length
    have hcheck' := checkCall_eq ht' paren args.length
    rw [Eval.invoke, Eval.invoke]
    split at hcheck
    · rw [if_pos ‹_›] at hcheck'
      rw [bind_of_ok hcheck, bind_of_ok hcheck']
      cases maker with
      | function id c =>
        have hclosure : c.Matches region p 0 c :=
          ⟨rfl, rfl, ⟨ribs, hfits, haround c.frame⟩, fun _ h => by cases hinitializer.symm.trans h⟩
        have hc := Store.function?_of_thing? ht
        have hc' := Store.function?_of_thing? ht'
        dsimp only [callable]
        rw [Eval.inspect_bind hc, Eval.inspect_bind hc']
        exact hruns.callFunction paren hclosure hsame p m m' .refl hm
      | arrow id c =>
        have hc := Store.arrow?_of_thing? ht
        have hc' := Store.arrow?_of_thing? ht'
        have hbody : Matched region p here here'
            (Eval.callBody fuel lookup c.frame c.decl.params c.decl.body args paren >>=
              fun signal => pure signal.callValue)
            (Eval.callBody fuel lookup' c.frame c.decl.params c.decl.body args paren >>=
              fun signal => pure signal.callValue) Value.Matches :=
          (hruns.callBody paren hfits (haround c.frame) hsame).bind fun _ _ _ _ hsignal =>
            .pure fun _ hext => hsignal.callValue.mono hext
        dsimp only [callable]
        rw [Eval.inspect_bind hc, Eval.inspect_bind hc']
        exact hbody p m m' .refl hm
    · rw [if_neg ‹_›] at hcheck'
      rw [bind_of_error hcheck, bind_of_error hcheck']
      exact .error (.refl _ _ _) hm

/-- Values that work alike where they are called with the same scalars. -/
def InvokedAlike (region : Region) (lookup lookup' : Lookup) (p : Matching) (m m' : Machine)
    (v v' : Value) : Prop :=
  ∀ fuel paren args, (∀ arg ∈ args, arg.Scalar) →
    ResultsMatch region p m.store m'.store m.here m'.here Value.Matches
      (Eval.invoke fuel lookup v paren args m) (Eval.invoke fuel lookup' v' paren args m')

section Calls

variable {region : Region} {lookup lookup' : Lookup} {p : Matching} {m m' : Machine}

theorem Value.Matches.invokedAlike {v v' : Value} (hlookup : Enclosed region lookup lookup')
    (hv : v.Matches p v') (hm : Machine.Matches region p m.here m'.here m m') :
    InvokedAlike region lookup lookup' p m m' v v' := fun fuel paren _ hargs =>
  (runsMatched hlookup fuel).invoke paren hv
    (List.forall₂_same.mpr fun arg harg => .of_scalar (hargs arg harg)) p m m' .refl hm

/-- The name of the callee is global on both sides. -/
theorem evaluate_readName {lookup : Lookup} (hcalm : ∀ id name m, lookup.stopsAt id name m = false)
    {id : NodeId} (hid : lookup.distances[id]? = some 0) (name : Token) (fuel : Nat) (m : Machine) :
    Eval.evaluate (fuel + 1) lookup (.variable id name) m =
      match m.store.getAt m.here 0 name with
      | .ok v => .ok v m
      | .error e => .error (.error e) m := by
  rw [Eval.evaluate, Eval.readName]
  have hwatch : Eval.watch lookup id name m = .ok () m := by
    show (if lookup.stopsAt id name m then _ else _ : Eval Unit) m = _
    rw [hcalm]
    rfl
  rw [bind_of_ok hwatch, hid, Eval.ask]
  dsimp only
  cases m.store.getAt m.here 0 name <;> rfl

theorem evaluate_call_matches (hlookup : Enclosed region lookup lookup') {id id' : NodeId}
    (hid : lookup.distances[id]? = some 0) (hid' : lookup'.distances[id']? = some 0)
    (hm : Machine.Matches region p m.here m'.here m m') {callee : Token}
    (hcallee : AnswersMatch (InvokedAlike region lookup lookup' p m m')
      (m.store.getAt m.here 0 callee) (m'.store.getAt m'.here 0 callee))
    {args : List Expr} (hplain : args.all Expr.isPlain = true) (paren : Token) (fuel : Nat) :
    ResultsMatch region p m.store m'.store m.here m'.here Value.Matches
      (Eval.evaluate fuel lookup (.call (.variable id callee) paren args) m)
      (Eval.evaluate fuel lookup' (.call (.variable id' callee) paren args) m') := by
  have hstop (halt : Halt) : ResultsMatch region p m.store m'.store m.here m'.here Value.Matches
      (.error halt m) (.error halt m') := .error (.refl _ _ _) hm
  cases fuel with
  | zero =>
    rw [Eval.evaluate, Eval.evaluate]
    exact hstop .outOfFuel
  | succ fuel =>
    rw [Eval.evaluate, Eval.evaluate]
    cases fuel with
    | zero =>
      have hread (lookup : Lookup) (id : NodeId) (m : Machine) :
          Eval.evaluate 0 lookup (.variable id callee) m = .error .outOfFuel m := by
        rw [Eval.evaluate]
        rfl
      rw [bind_of_error (hread lookup id m), bind_of_error (hread lookup' id' m')]
      exact hstop .outOfFuel
    | succ fuel =>
      have hread := evaluate_readName hlookup.calm hid callee fuel m
      have hread' := evaluate_readName hlookup.calm' hid' callee fuel m'
      generalize m.store.getAt m.here 0 callee = answer, m'.store.getAt m'.here 0 callee = answer'
        at hcallee hread hread'
      cases hcallee with
      | error e =>
        rw [bind_of_error hread, bind_of_error hread']
        exact hstop (.error e)
      | ok hinvoked =>
        rw [bind_of_ok hread, bind_of_ok hread']
        cases Eval.fixed_each_of_isPlain (fuel + 1) hplain with
        | ok values hvalues ends =>
          rw [bind_of_ok (ends lookup m), bind_of_ok (ends lookup' m')]
          exact hinvoked (fuel + 1) paren values hvalues
        | error halt ends =>
          rw [bind_of_error (ends lookup m), bind_of_error (ends lookup' m')]
          exact hstop halt

end Calls

end LoxLang
