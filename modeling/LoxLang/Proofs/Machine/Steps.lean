import LoxLang.Proofs.Conduct
import LoxLang.Proofs.Machine.Scalars

/-!
# The ends of single steps

One law for each of the steps that calls are made of: what to show of a machine, so that something
holds at the end of the step. Faults of names are told from other faults (`RunFault.isOfName`),
since nothing else comes of a look at a frame.
-/

namespace LoxLang

/-! ## Faults of names -/

/-- A name that is not there, has no value or may not be written to. -/
def RunFault.isOfName : RunFault → Bool
  | undefined _ | unbound _ | uninitialized _ | constant _ => true
  | _ => false

/-- An answer about a name: there is one, or a fault of the name. -/
def AboutName {α : Type} (answer : Except RunError α) : Prop :=
  ∀ error, answer = .error error →
    ∃ cause token, error = .located cause token ∧ cause.isOfName = true

namespace AboutName

variable {α β : Type} {answer : Except RunError α} {k : α → Except RunError β} {s : Store}
  {id : FrameId} {distance : Nat} {name : Token} {slot : Slot}

theorem ok {a : α} : AboutName (.ok a : Except RunError α) := fun _ herror => nomatch herror

theorem located {cause : RunFault} (h : cause.isOfName = true) :
    AboutName (.error (.located cause name) : Except RunError α) := by
  intro error herror
  cases herror
  exact ⟨cause, name, rfl, h⟩

theorem bind (h : AboutName answer) (hk : ∀ a, AboutName (k a)) : AboutName (answer >>= k) := by
  cases answer with
  | ok a => exact hk a
  | error cause =>
    intro error herror
    cases herror
    exact h cause rfl

theorem read : AboutName (slot.read name) := by
  unfold Slot.read
  split
  · exact .ok
  · exact .located rfl

theorem checkWrite : AboutName (slot.checkWrite name) :=
  iteInduction (motive := AboutName) (fun _ => .located rfl) fun _ => .ok

theorem search : AboutName (s.search id name) := by
  unfold Store.search
  split
  · split
    · exact .ok
    · exact .located rfl
  · exact .located rfl

theorem searchAt : AboutName (s.searchAt id distance name) := by
  unfold Store.searchAt
  split
  · split
    · exact .ok
    · exact .located rfl
  · exact .located rfl

theorem get : AboutName (s.get id name) := search.bind fun _ => read

theorem getAt : AboutName (s.getAt id distance name) := searchAt.bind fun _ => read

theorem writable : AboutName (s.writable id name) :=
  search.bind fun _ => checkWrite.bind fun _ => ok

theorem writableAt : AboutName (s.writableAt id distance name) :=
  searchAt.bind fun _ => checkWrite.bind fun _ => ok

end AboutName

/-! ## Steps -/

/-- A question to the store leaves the machine as it is. -/
theorem Eval.inspect_bind {α β : Type} {question : Store → α} {k : α → Eval β} {m : Machine} {a : α}
    (h : question m.store = a) : (inspect question >>= k) m = k a m := by
  subst h
  rfl

namespace Ends

variable {α : Type} {post : α → Machine → Prop} {stop : Halt → Machine → Prop} {m : Machine}

theorem ask {question : Machine → Except RunError α} (hok : ∀ a, question m = .ok a → post a m)
    (herror : ∀ error, question m = .error error → stop (.error error) m) :
    Ends post stop (Eval.ask question m) := by
  unfold Eval.ask
  cases hquestion : question m with
  | ok a => exact hok a hquestion
  | error error => exact herror error hquestion

/-- Behind an answer the machine is as it was. -/
theorem ask_bind {β : Type} {next : β → Machine → Prop} {question : Machine → Except RunError α}
    {k : α → Eval β} (hok : ∀ a, question m = .ok a → Ends next stop (k a m))
    (herror : ∀ error, question m = .error error → stop (.error error) m) :
    Ends next stop ((Eval.ask question >>= k) m) := by
  have hasked : Ends (fun a after => after = m ∧ question m = .ok a) stop (Eval.ask question m) :=
    ask (fun a ha => ⟨rfl, ha⟩) herror
  refine hasked.bind ?_
  rintro a _ - ⟨rfl, ha⟩
  exact hok a ha

/-- Something that is done in a frame ends outside of it. -/
theorem within {frame : FrameId} {act : Eval α}
    (h : Ends (fun a after => post a { after with here := m.here })
      (fun halt after => stop halt { after with here := m.here }) (act { m with here := frame })) :
    Ends post stop (Eval.within frame act m) := by
  unfold Eval.within
  dsimp only
  cases hrun : act { m with here := frame } with
  | ok a after => exact h.ok hrun
  | error halt after => exact h.error hrun

/-- A body that is counted while there is room for one more. -/
theorem counted {place : Token} {act : Eval α} (hfull : stop (.error (.located .tooDeep place)) m)
    (h : m.depth < maxDepth → Ends (fun a after => post a { after with depth := after.depth - 1 })
      (fun halt after => stop halt { after with depth := after.depth - 1 })
      (act { m with depth := m.depth + 1 })) :
    Ends post stop (Eval.counted place act m) := by
  unfold Eval.counted
  by_cases hdepth : maxDepth ≤ m.depth
  · rw [if_pos hdepth]
    exact hfull
  · rw [if_neg hdepth]
    replace h := h (Nat.lt_of_not_le hdepth)
    cases hrun : act { m with depth := m.depth + 1 } with
    | ok a after => exact h.ok hrun
    | error halt after => exact h.error hrun

theorem write {post : Unit → Machine → Prop} {text : String}
    (hok : post () { m with sink := (m.sink.write text).2 })
    (hstop : ∀ fault, stop (.error (.device fault)) { m with sink := (m.sink.write text).2 }) :
    Ends post stop (Eval.write text m) := by
  have hsink : Ends (fun _ after => after = { m with sink := (m.sink.write text).2 }) stop
      ((modifyGet fun m => ((m.sink.write text).1, { m with sink := (m.sink.write text).2 }) :
        Eval Bool) m) := rfl
  refine hsink.bind ?_
  rintro complete _ - rfl
  refine .ite (fun _ => ?_) fun _ => hstop _
  show Ends post stop ((if (m.sink.write text).2.failFlush then Eval.stop (.device .flushFailed)
    else pure () : Eval Unit) { m with sink := (m.sink.write text).2 })
  exact .ite (fun _ => hstop _) fun _ => hok

section Values

variable {post : Value → Machine → Prop}

theorem computed {result : Computed} {operator : Token}
    (hok : ∀ value, result = .ok value → post value m)
    (hfault : ∀ cause, result = .error cause → stop (.error (.located cause operator)) m) :
    Ends post stop (Eval.computed result operator m) := by
  cases result with
  | ok value => exact hok value rfl
  | error cause => exact hfault cause rfl

theorem callNative {id : NativeId} {args : List Value} {paren : Token}
    (hok : ∀ value host, value.Scalar → post value { m with host })
    (hstop : ∀ text host, stop (.error (.located (.builtin text) paren)) { m with host }) :
    Ends post stop (Eval.callNative id args paren m) := by
  cases hnative : m.store.native? id with
  | none =>
    rw [Eval.callNative, Eval.inspect_bind hnative]
    exact hok .nil m.host trivial
  | some native =>
    have hscalar : ∀ value, (native.builtin.call m.store.display m.host args).1 = .ok value →
        value.Scalar := fun _ => Builtin.scalar_call
    rw [Eval.callNative, Eval.inspect_bind hnative]
    dsimp only
    rw [bind_of_ok (show (MonadState.get : Eval Machine) m = .ok m m from rfl)]
    generalize native.builtin.call m.store.display m.host args = answer at hscalar
    obtain ⟨result, host⟩ := answer
    cases result with
    | ok value => exact hok value host (hscalar value rfl)
    | error text => exact hstop text host

end Values

theorem checkCall {post : Callable → Machine → Prop} {callee : Value} {paren : Token} {given : Nat}
    (hok : ∀ c, callee = .callable c → given = m.store.arity c → post c m)
    (hcount : ∀ display expected,
      stop (.error (.located (.argumentCount display expected given) paren)) m)
    (hstop : ∀ display, stop (.error (.located (.notCallable display) paren)) m) :
    Ends post stop (Eval.checkCall callee paren given m) := by
  cases callee with
  | callable c =>
    rw [Eval.checkCall, Eval.inspect_bind rfl]
    exact .ite (hok c rfl) fun _ => hcount _ _
  | nil | bool | int | float | str | «instance» => exact hstop _

theorem asBaseClass {post : ClassId → Machine → Prop} {decl : ClassDecl} {base : Expr}
    {value : Value} (hok : ∀ id, m.store.asClass? value = some id → post id m)
    (hstop : ∀ name place, stop (.error (.located (.baseNotClass name) place)) m) :
    Ends post stop (Eval.asBaseClass decl base value m) := by
  unfold Eval.asBaseClass
  cases hfound : m.store.asClass? value with
  | some id =>
    rw [Eval.inspect_bind hfound]
    exact hok id hfound
  | none =>
    rw [Eval.inspect_bind hfound]
    exact hstop _ _

section Names

variable {lookup : Lookup} {node : NodeId} {name : Token}

theorem watch {post : Unit → Machine → Prop} (hok : post () m)
    (hstop : lookup.stopsAt node name m = true → stop (.error (.watched node name m.here)) m) :
    Ends post stop (Eval.watch lookup node name m) := by
  show Ends post stop ((if lookup.stopsAt node name m then Eval.stop (.watched node name m.here)
    else pure () : Eval Unit) m)
  exact .ite hstop fun _ => hok

/-- Behind a watch that does not stop the run the machine is as it was. -/
theorem watch_bind {k : Unit → Eval α}
    (hstop : lookup.stopsAt node name m = true → stop (.error (.watched node name m.here)) m)
    (hk : Ends post stop (k () m)) : Ends post stop ((Eval.watch lookup node name >>= k) m) := by
  have hwatched : Ends (fun _ after => after = m) stop (Eval.watch lookup node name m) :=
    watch rfl hstop
  refine hwatched.bind ?_
  rintro _ _ - rfl
  exact hk

variable (hwatch : lookup.stopsAt node name m = true → stop (.error (.watched node name m.here)) m)
  (hfault : ∀ cause token, cause.isOfName = true → stop (.error (.located cause token)) m)

include hwatch hfault

theorem readName {post : Value → Machine → Prop} (hok : ∀ value, post value m) :
    Ends post stop (Eval.readName lookup node name m) := by
  refine watch_bind hwatch (.ask (fun value _ => hok value) fun error herror => ?_)
  obtain ⟨cause, token, rfl, hcause⟩ : ∃ cause token, error = .located cause token ∧
      cause.isOfName = true := by
    split at herror
    · exact AboutName.getAt _ herror
    · exact AboutName.get _ herror
  exact hfault cause token hcause

theorem writeName {post : Unit → Machine → Prop} {value : Value}
    (hok : ∀ frame, post () { m with store := m.store.store frame name.lexeme value }) :
    Ends post stop (Eval.writeName lookup node name value m) := by
  refine watch_bind hwatch (ask_bind (fun frame _ => hok frame) fun error herror => ?_)
  obtain ⟨cause, token, rfl, hcause⟩ : ∃ cause token, error = .located cause token ∧
      cause.isOfName = true := by
    split at herror
    · exact AboutName.writableAt _ herror
    · exact AboutName.writable _ herror
  exact hfault cause token hcause

end Names

end Ends

end LoxLang
