import LoxLang.Proofs.Machine.Rounds

/-!
# Watched runs

A watch does not change what it watches: up to the node at which it stops a run, the run goes as it
does without the watch, and if the node does not find its name then the run without the watch stops
there with that fault (`Follows`). There is one lemma for each function of the evaluation, and
`watching` puts them together.
-/

namespace LoxLang

/-- How a step with a watch ends, against how it ends without: in the same way, or stopped by the
watch where the node may not find its name. -/
inductive Tallies {α : Type} (distances : Distances) :
    EStateM.Result Halt Machine α → EStateM.Result Halt Machine α → Prop
  | same (result) : Tallies distances result result
  | stopped {id name here after result}
    (fault : ∀ hops error, distances[id]? = some hops →
      after.store.searchAt here hops name = .error error →
      ∃ after', result = .error (.error error) after') :
    Tallies distances (.error (.error (.watched id name here)) after) result

/-- A step with a watch against the same step without. -/
def Follows {α : Type} (distances : Distances) (watched act : Eval α) : Prop :=
  ∀ m, Tallies distances (watched m) (act m)

namespace Follows

variable {α β : Type} {distances : Distances} {watched act : Eval α} {k k' : α → Eval β}

theorem refl (act : Eval α) : Follows distances act act := fun m => .same (act m)

theorem bind (h : Follows distances watched act) (hk : ∀ a, Follows distances (k a) (k' a)) :
    Follows distances (watched >>= k) (act >>= k') := by
  intro m
  have htallies := h m
  show Tallies distances (EStateM.bind watched k m) (EStateM.bind act k' m)
  unfold EStateM.bind
  generalize watched m = result at htallies ⊢
  cases htallies with
  | same =>
    cases act m with
    | ok a m₁ => exact hk a m₁
    | error halt m₁ => exact .same _
  | stopped fault =>
    refine .stopped ?_
    intro hops error hdistance hsearch
    obtain ⟨after', hact⟩ := fault hops error hdistance hsearch
    exact ⟨after', by rw [hact]⟩

/-- Behind a step without nodes. -/
theorem after (act : Eval α) (hk : ∀ a, Follows distances (k a) (k' a)) :
    Follows distances (act >>= k) (act >>= k') := (refl act).bind hk

/-- Before a step without nodes. -/
theorem before (h : Follows distances watched act) (k : α → Eval β) :
    Follows distances (watched >>= k) (act >>= k) := h.bind fun a => .refl (k a)

theorem map {f : α → β} (h : Follows distances watched act) :
    Follows distances (f <$> watched) (f <$> act) := by
  rw [map_eq_pure_bind, map_eq_pure_bind]
  exact h.before _

theorem discard (h : Follows distances watched act) :
    Follows distances (discard watched) (discard act) := by
  unfold Functor.discard
  exact h.before _

theorem ite {c : Prop} [Decidable c] {watched' act' : Eval α} (h : Follows distances watched act)
    (h' : Follows distances watched' act') :
    Follows distances (if c then watched else watched') (if c then act else act') := by
  split
  · exact h
  · exact h'

/-- To leave a frame or a call does not touch the store. -/
theorem leave (back : Machine → Machine) (hstore : ∀ m, (back m).store = m.store)
    {result result' : EStateM.Result Halt Machine α} : Tallies distances result result' →
    Tallies distances
      (match result with
        | .ok a after => .ok a (back after)
        | .error halt after => .error halt (back after))
      (match result' with
        | .ok a after => .ok a (back after)
        | .error halt after => .error halt (back after)) := by
  intro h
  cases h with
  | same => exact .same _
  | stopped fault =>
    refine .stopped ?_
    intro hops error hdistance hsearch
    rw [hstore] at hsearch
    obtain ⟨after', hact⟩ := fault hops error hdistance hsearch
    exact ⟨back after', by rw [hact]⟩

theorem within (h : Follows distances watched act) (frame : FrameId) :
    Follows distances (Eval.within frame watched) (Eval.within frame act) := fun m =>
  leave (fun after => { after with here := m.here }) (fun _ => rfl) (h { m with here := frame })

theorem counted (h : Follows distances watched act) (place : Token) :
    Follows distances (Eval.counted place watched) (Eval.counted place act) := fun m => by
  unfold Eval.counted
  split
  · exact .same _
  · exact leave (fun after => { after with depth := after.depth - 1 }) (fun _ => rfl)
      (h { m with depth := m.depth + 1 })

/-- A question about the name of a node, behind the watch. -/
theorem ask {stopsAt : NodeId → Token → Machine → Bool} {question : Machine → Except RunError α}
    {id : NodeId} {name : Token}
    (hquestion : ∀ m hops error, distances[id]? = some hops →
      m.store.searchAt m.here hops name = .error error → question m = .error error) :
    Follows distances (do Eval.watch { distances, stopsAt } id name; Eval.ask question)
      (do Eval.watch { distances } id name; Eval.ask question) := fun m => by
  show Tallies distances (((if stopsAt id name m then Eval.stop (.watched id name m.here)
    else return ()) >>= fun _ => Eval.ask question) m) (Eval.ask question m)
  cases stopsAt id name m with
  | false => exact .same _
  | true =>
    refine .stopped fun hops error hdistance hsearch => ⟨m, ?_⟩
    rw [Eval.ask, hquestion m hops error hdistance hsearch]

end Follows

/-! ## Names -/

section Names

variable {distances : Distances} {stopsAt : NodeId → Token → Machine → Bool}

theorem Store.fault_of_searchAt {s : Store} {here : FrameId} {hops : Nat} {name : Token}
    {error : RunError} (h : s.searchAt here hops name = .error error) :
    s.getAt here hops name = .error error ∧ s.writableAt here hops name = .error error := by
  rw [getAt, writableAt, h]
  exact ⟨rfl, rfl⟩

theorem follows_readName (id : NodeId) (name : Token) :
    Follows distances (Eval.readName { distances, stopsAt } id name)
      (Eval.readName { distances } id name) :=
  .ask fun m hops error hdistance hsearch => by
    dsimp only
    rw [hdistance]
    exact (Store.fault_of_searchAt hsearch).1

theorem follows_writeName (id : NodeId) (name : Token) (value : Value) :
    Follows distances (Eval.writeName { distances, stopsAt } id name value)
      (Eval.writeName { distances } id name value) := by
  rw [Eval.writeName, Eval.writeName, ← bind_assoc, ← bind_assoc]
  refine Follows.before (.ask fun m hops error hdistance hsearch => ?_) _
  dsimp only
  rw [hdistance]
  exact (Store.fault_of_searchAt hsearch).2

end Names

/-! ## Evaluation -/

/-- How the evaluation goes under a watch with a bound on its depth. -/
structure Watching (distances : Distances) (stopsAt : NodeId → Token → Machine → Bool) (fuel : Nat) :
    Prop where
  evaluate : ∀ e, Follows distances (Eval.evaluate fuel { distances, stopsAt } e)
    (Eval.evaluate fuel { distances } e)
  evaluateEach : ∀ es, Follows distances (Eval.evaluateEach fuel { distances, stopsAt } es)
    (Eval.evaluateEach fuel { distances } es)
  attributeValue : ∀ found name,
    Follows distances (Eval.attributeValue fuel { distances, stopsAt } found name)
      (Eval.attributeValue fuel { distances } found name)
  invoke : ∀ callee paren args,
    Follows distances (Eval.invoke fuel { distances, stopsAt } callee paren args)
      (Eval.invoke fuel { distances } callee paren args)
  construct : ∀ object args paren,
    Follows distances (Eval.construct fuel { distances, stopsAt } object args paren)
      (Eval.construct fuel { distances } object args paren)
  callFunction : ∀ c args place,
    Follows distances (Eval.callFunction fuel { distances, stopsAt } c args place)
      (Eval.callFunction fuel { distances } c args place)
  callBody : ∀ outer params body args place,
    Follows distances (Eval.callBody fuel { distances, stopsAt } outer params body args place)
      (Eval.callBody fuel { distances } outer params body args place)
  execute : ∀ s, Follows distances (Eval.execute fuel { distances, stopsAt } s)
    (Eval.execute fuel { distances } s)
  executeEach : ∀ ss, Follows distances (Eval.executeEach fuel { distances, stopsAt } ss)
    (Eval.executeEach fuel { distances } ss)
  whileLoop : ∀ condition body,
    Follows distances (Eval.whileLoop fuel { distances, stopsAt } condition body)
      (Eval.whileLoop fuel { distances } condition body)
  forLoop : ∀ condition update body,
    Follows distances (Eval.forLoop fuel { distances, stopsAt } condition update body)
      (Eval.forLoop fuel { distances } condition update body)

namespace Watching

variable {distances : Distances} {stopsAt : NodeId → Token → Machine → Bool} {fuel : Nat}

theorem zero : Watching distances stopsAt 0 where
  evaluate e := by rw [Eval.evaluate, Eval.evaluate]; exact .refl _
  evaluateEach es := by rw [Eval.evaluateEach, Eval.evaluateEach]; exact .refl _
  attributeValue found name := by rw [Eval.attributeValue, Eval.attributeValue]; exact .refl _
  invoke callee paren args := by rw [Eval.invoke, Eval.invoke]; exact .refl _
  construct object args paren := by rw [Eval.construct, Eval.construct]; exact .refl _
  callFunction c args place := by rw [Eval.callFunction, Eval.callFunction]; exact .refl _
  callBody outer params body args place := by rw [Eval.callBody, Eval.callBody]; exact .refl _
  execute s := by rw [Eval.execute, Eval.execute]; exact .refl _
  executeEach ss := by rw [Eval.executeEach, Eval.executeEach]; exact .refl _
  whileLoop condition body := by rw [Eval.whileLoop, Eval.whileLoop]; exact .refl _
  forLoop condition update body := by rw [Eval.forLoop, Eval.forLoop]; exact .refl _

theorem evaluate_succ (ih : Watching distances stopsAt fuel) (e : Expr) :
    Follows distances (Eval.evaluate (fuel + 1) { distances, stopsAt } e)
      (Eval.evaluate (fuel + 1) { distances } e) := by
  cases e with rw [Eval.evaluate, Eval.evaluate]
  | literal | arrow => exact .refl _
  | grouping inner => exact ih.evaluate inner
  | unary operator right => exact (ih.evaluate right).before _
  | binary left operator right =>
    exact (ih.evaluate left).bind fun _ => (ih.evaluate right).before _
  | logical left operator right =>
    exact (ih.evaluate left).bind fun _ => .ite (.refl _) (ih.evaluate right)
  | ternary condition question thenBranch elseBranch =>
    exact (ih.evaluate condition).bind fun _ =>
      .ite (ih.evaluate thenBranch) (ih.evaluate elseBranch)
  | «variable» id name => exact follows_readName id name
  | assign id name value =>
    exact (ih.evaluate value).bind fun value => (follows_writeName id name value).before _
  | call callee paren arguments =>
    exact (ih.evaluate callee).bind fun callee =>
      (ih.evaluateEach arguments).bind fun args => ih.invoke callee paren args
  | get object name =>
    refine (ih.evaluate object).bind ?_
    intro value
    split
    · refine .after _ ?_
      intro found
      cases found with
      | some found => exact ih.attributeValue found name
      | none => exact .refl _
    · exact .refl _
    · exact .refl _
  | set object name value =>
    refine (ih.evaluate object).bind ?_
    intro object
    split
    · exact (ih.evaluate value).before _
    · exact (ih.evaluate value).before _
    · exact .refl _
  | this id keyword => exact follows_readName id keyword
  | super id keyword method =>
    refine (follows_readName id keyword).bind ?_
    intro base
    split
    · refine .after _ ?_
      intro found
      cases found with
      | some found => exact ih.attributeValue found method
      | none => exact .refl _
    · exact .refl _

theorem evaluateEach_succ (ih : Watching distances stopsAt fuel) (es : List Expr) :
    Follows distances (Eval.evaluateEach (fuel + 1) { distances, stopsAt } es)
      (Eval.evaluateEach (fuel + 1) { distances } es) := by
  cases es with rw [Eval.evaluateEach, Eval.evaluateEach]
  | nil => exact .refl _
  | cons e es => exact (ih.evaluate e).bind fun _ => (ih.evaluateEach es).before _

theorem attributeValue_succ (ih : Watching distances stopsAt fuel) (found : Attribute) (name : Token) :
    Follows distances (Eval.attributeValue (fuel + 1) { distances, stopsAt } found name)
      (Eval.attributeValue (fuel + 1) { distances } found name) := by
  cases found with rw [Eval.attributeValue, Eval.attributeValue]
  | value value => exact .refl _
  | getter bound => exact ih.callFunction bound [] name

theorem invoke_succ (ih : Watching distances stopsAt fuel) (callee : Value) (paren : Token)
    (args : List Value) :
    Follows distances (Eval.invoke (fuel + 1) { distances, stopsAt } callee paren args)
      (Eval.invoke (fuel + 1) { distances } callee paren args) := by
  rw [Eval.invoke, Eval.invoke]
  refine .after _ ?_
  intro c
  cases c with
  | native id => exact .refl _
  | function id =>
    refine .after _ ?_
    intro found
    cases found with
    | some c => exact ih.callFunction c args paren
    | none => exact .refl _
  | arrow id =>
    refine .after _ ?_
    intro found
    cases found with
    | some c => exact (ih.callBody c.frame c.decl.params c.decl.body args paren).before _
    | none => exact .refl _
  | «class» id =>
    refine .after _ ?_
    intro found
    cases found with
    | some object => exact .after _ fun made => (ih.construct made args paren).before _
    | none => exact .refl _

theorem construct_succ (ih : Watching distances stopsAt fuel) (object : InstanceId)
    (args : List Value) (paren : Token) :
    Follows distances (Eval.construct (fuel + 1) { distances, stopsAt } object args paren)
      (Eval.construct (fuel + 1) { distances } object args paren) := by
  rw [Eval.construct, Eval.construct]
  refine .after _ ?_
  intro found
  cases found with
  | some found => exact .after _ fun bound => (ih.callFunction bound args paren).discard
  | none => exact .refl _

theorem callFunction_succ (ih : Watching distances stopsAt fuel) (c : Closure) (args : List Value)
    (place : Token) :
    Follows distances (Eval.callFunction (fuel + 1) { distances, stopsAt } c args place)
      (Eval.callFunction (fuel + 1) { distances } c args place) := by
  rw [Eval.callFunction, Eval.callFunction]
  exact (ih.callBody c.frame c.decl.params c.decl.body args place).before _

theorem callBody_succ (ih : Watching distances stopsAt fuel) (outer : FrameId) (params : List Token)
    (body : List Stmt) (args : List Value) (place : Token) :
    Follows distances (Eval.callBody (fuel + 1) { distances, stopsAt } outer params body args place)
      (Eval.callBody (fuel + 1) { distances } outer params body args place) := by
  rw [Eval.callBody, Eval.callBody]
  exact .after _ fun frame => ((ih.executeEach body).within frame).counted place

theorem execute_succ (ih : Watching distances stopsAt fuel) (s : Stmt) :
    Follows distances (Eval.execute (fuel + 1) { distances, stopsAt } s)
      (Eval.execute (fuel + 1) { distances } s) := by
  cases s with
  | expression value | print value | println value =>
    rw [Eval.execute, Eval.execute]
    first
      | exact (ih.evaluate value).before _
      | exact (ih.evaluate value).discard.before _
  | var name initializer =>
    cases initializer with rw [Eval.execute, Eval.execute]
    | none => exact .refl _
    | some initializer => exact (ih.evaluate initializer).before _
  | const name initializer =>
    rw [Eval.execute, Eval.execute]
    exact (ih.evaluate initializer).before _
  | block body =>
    rw [Eval.execute, Eval.execute]
    exact .after _ fun frame => (ih.executeEach body).within frame
  | ifElse condition thenBranch elseBranch =>
    cases elseBranch with rw [Eval.execute, Eval.execute]
    | none => exact (ih.evaluate condition).bind fun _ => .ite (ih.execute thenBranch) (.refl _)
    | some elseBranch =>
      exact (ih.evaluate condition).bind fun _ =>
        .ite (ih.execute thenBranch) (ih.execute elseBranch)
  | «while» condition body =>
    rw [Eval.execute, Eval.execute]
    exact ih.whileLoop condition body
  | «for» initializer condition update body =>
    rw [Eval.execute, Eval.execute]
    refine .after _ fun frame => .within ?_ frame
    cases initializer with
    | none => exact ih.forLoop condition update body
    | some initializer =>
      exact (ih.execute initializer).discard.bind fun _ => ih.forLoop condition update body
  | «break» keyword | «continue» keyword | function decl =>
    rw [Eval.execute, Eval.execute]
    exact .refl _
  | assert keyword condition message =>
    rw [Eval.execute, Eval.execute]
    refine (ih.evaluate condition).bind fun _ => .ite (.refl _) ?_
    cases message with
    | none => exact .refl _
    | some message => exact (ih.evaluate message).before _
  | «return» keyword value =>
    cases value with rw [Eval.execute, Eval.execute]
    | none => exact .refl _
    | some value => exact (ih.evaluate value).before _
  | «class» decl =>
    rw [Eval.execute, Eval.execute]
    cases decl.base with
    | none => exact .refl _
    | some base => exact (ih.evaluate base).before _

theorem executeEach_succ (ih : Watching distances stopsAt fuel) (ss : List Stmt) :
    Follows distances (Eval.executeEach (fuel + 1) { distances, stopsAt } ss)
      (Eval.executeEach (fuel + 1) { distances } ss) := by
  cases ss with rw [Eval.executeEach, Eval.executeEach]
  | nil => exact .refl _
  | cons s ss =>
    refine (ih.execute s).bind ?_
    intro signal
    cases signal with
    | completed => exact ih.executeEach ss
    | broke | continued | returned => exact .refl _

theorem whileLoop_succ (ih : Watching distances stopsAt fuel) (condition : Expr) (body : Stmt) :
    Follows distances (Eval.whileLoop (fuel + 1) { distances, stopsAt } condition body)
      (Eval.whileLoop (fuel + 1) { distances } condition body) := by
  rw [Eval.whileLoop, Eval.whileLoop]
  refine (ih.evaluate condition).bind fun _ => .ite ((ih.execute body).bind fun signal => ?_) (.refl _)
  cases signal with
  | broke | returned => exact .refl _
  | completed | continued => exact ih.whileLoop condition body

theorem goesOn (ih : Watching distances stopsAt fuel) (condition : Option Expr) :
    Follows distances (Eval.goesOn fuel { distances, stopsAt } condition)
      (Eval.goesOn fuel { distances } condition) := by
  cases condition with
  | none => exact .refl _
  | some condition => exact (ih.evaluate condition).map

theorem step (ih : Watching distances stopsAt fuel) (update : Option Expr) :
    Follows distances (Eval.step fuel { distances, stopsAt } update)
      (Eval.step fuel { distances } update) := by
  cases update with
  | none => exact .refl _
  | some update => exact (ih.evaluate update).discard

theorem forLoop_succ (ih : Watching distances stopsAt fuel) (condition update : Option Expr)
    (body : Stmt) :
    Follows distances (Eval.forLoop (fuel + 1) { distances, stopsAt } condition update body)
      (Eval.forLoop (fuel + 1) { distances } condition update body) := by
  rw [Eval.forLoop_eq, Eval.forLoop_eq]
  refine (ih.goesOn condition).bind fun _ => .ite ((ih.execute body).bind fun signal => ?_) (.refl _)
  cases signal with
  | broke | returned => exact .refl _
  | completed | continued => exact (ih.step update).bind fun _ => ih.forLoop condition update body

end Watching

/-- A watch does not change what it watches, however deep the evaluation goes. -/
theorem watching (distances : Distances) (stopsAt : NodeId → Token → Machine → Bool) (fuel : Nat) :
    Watching distances stopsAt fuel := by
  induction fuel with
  | zero => exact .zero
  | succ fuel ih =>
    exact
      { evaluate := ih.evaluate_succ
        evaluateEach := ih.evaluateEach_succ
        attributeValue := ih.attributeValue_succ
        invoke := ih.invoke_succ
        construct := ih.construct_succ
        callFunction := ih.callFunction_succ
        callBody := ih.callBody_succ
        execute := ih.execute_succ
        executeEach := ih.executeEach_succ
        whileLoop := ih.whileLoop_succ
        forLoop := ih.forLoop_succ }

/-- A run goes the same way up to the first look, and stops there if the name is not found. -/
theorem Machine.interpret_watched (bound : Nat) (distances : Distances)
    (stopsAt : NodeId → Token → Machine → Bool) (m : Machine) (program : List Stmt) :
    m.interpret bound { distances, stopsAt } program = m.interpret bound { distances } program ∨
      ∃ look, m.look? bound { distances, stopsAt } program = some look ∧
        ∀ hops error, distances[look.id]? = some hops →
          look.store.searchAt look.here hops look.name = .error error →
          (m.interpret bound { distances } program).1 = .error (.error error) := by
  induction program generalizing m with
  | nil => exact .inl (by rw [interpret, interpret])
  | cons s rest ih =>
    have htallies := (watching distances stopsAt bound).execute s m
    rw [look?, interpret, interpret]
    generalize Eval.execute bound { distances, stopsAt } s m = result at htallies ⊢
    cases htallies with
    | same =>
      cases Eval.execute bound { distances } s m with
      | ok signal after => exact ih after
      | error halt after => exact .inl rfl
    | @stopped id name here after _ fault =>
      refine .inr ⟨⟨id, name, here, after.store⟩, rfl, fun hops error hdistance hsearch => ?_⟩
      obtain ⟨after', hrun⟩ := fault hops error hdistance hsearch
      rw [hrun]

end LoxLang
