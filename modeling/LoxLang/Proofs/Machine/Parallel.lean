import LoxLang.Proofs.Binding.Alike
import LoxLang.Proofs.Machine.Alike
import LoxLang.Proofs.Machine.Rounds

/-!
# Runs side by side

Code that is alike runs alike on stores that are alike (`Parallel`): it gives the same values,
writes the same texts and stops at the same points with faults that are alike. There is one lemma
for each function of the evaluation, and `runsParallel` puts them together.
-/

namespace LoxLang

variable {l : Likeness}

/-! ## Machines and results -/

structure Machine.Alike (l : Likeness) (m m' : Machine) : Prop where
  store : m.store.Alike l m'.store
  here : m.here = m'.here
  depth : m.depth = m'.depth
  host : m.host = m'.host
  sink : m.sink = m'.sink

theorem Machine.Alike.imp {l' : Likeness} (hl : l.Refines l') {m m' : Machine}
    (h : Machine.Alike l m m') : Machine.Alike l' m m' :=
  { h with store := h.store.imp hl }

/-- Before the first program there is no code. -/
theorem Machine.Alike.start (natives : List Native) (host : Host) (sink : Sink) :
    Machine.Alike l (.start natives host sink) (.start natives host sink) := by
  have hbound {s : Store} (h : s.Alike l s) :
      (natives.foldl Machine.bindNative s).Alike l (natives.foldl Machine.bindNative s) := by
    induction natives generalizing s with
    | nil => exact h
    | cons native rest ih =>
      have hadded : (s.addNative native).2.Alike l (s.addNative native).2 :=
        { h with natives := rfl }
      exact ih (hadded.declare _ _ _ _)
  have hempty : Store.Alike l {} {} :=
    ⟨⟨rfl, fun _ => .none⟩, rfl, ⟨rfl, fun _ => .none⟩, ⟨rfl, fun _ => .none⟩,
      ⟨rfl, fun _ => .none⟩, rfl⟩
  exact ⟨hbound (hempty.addFrame ⟨rfl, rfl⟩).2, rfl, rfl, rfl, rfl⟩

/-- Faults of one cause at tokens that correspond. -/
inductive RunError.Alike (l : Likeness) : RunError → RunError → Prop
  | located {token token'} (cause) (h : l.token token token') :
    RunError.Alike l (.located cause token) (.located cause token')
  | device (cause) : RunError.Alike l (.device cause) (.device cause)

inductive Halt.Alike (l : Likeness) : Halt → Halt → Prop
  | error {error error'} (h : RunError.Alike l error error') :
    Halt.Alike l (.error error) (.error error')
  | outOfFuel : Halt.Alike l .outOfFuel .outOfFuel

/-- Nodes that correspond find their names at one distance, and no watch stops them. -/
structure Lookup.Alike (l : Likeness) (lookup lookup' : Lookup) : Prop where
  distances : l.SameDistances lookup.distances lookup'.distances
  calm : ∀ id name m, lookup.stopsAt id name m = false
  calm' : ∀ id name m, lookup'.stopsAt id name m = false

/-- Answers that are alike. -/
inductive SameAnswer {α : Type} (l : Likeness) : Except RunError α → Except RunError α → Prop
  | ok (a) : SameAnswer l (.ok a) (.ok a)
  | error {error error'} (h : RunError.Alike l error error') :
    SameAnswer l (.error error) (.error error')

/-- Results that are alike. -/
inductive SameResult {α : Type} (l : Likeness) (Q : α → α → Prop) :
    EStateM.Result Halt Machine α → EStateM.Result Halt Machine α → Prop
  | ok {a a' after after'} (machine : Machine.Alike l after after') (value : Q a a') :
    SameResult l Q (.ok a after) (.ok a' after')
  | error {halt halt' after after'} (machine : Machine.Alike l after after')
    (alike : Halt.Alike l halt halt') : SameResult l Q (.error halt after) (.error halt' after')

/-- Steps that take machines that are alike to results that are alike. -/
def Parallel {α : Type} (l : Likeness) (act act' : Eval α) (Q : α → α → Prop) : Prop :=
  ∀ m m', Machine.Alike l m m' → SameResult l Q (act m) (act' m')

namespace Parallel

variable {α β : Type} {act act' : Eval α} {k k' : α → Eval β} {P : α → α → Prop}
  {Q : β → β → Prop} {lookup lookup' : Lookup}

theorem pure {a a' : α} (h : P a a') : Parallel l (pure a) (pure a') P := fun _ _ hm => .ok hm h

theorem bind (h : Parallel l act act' P) (hk : ∀ a a', P a a' → Parallel l (k a) (k' a') Q) :
    Parallel l (act >>= k) (act' >>= k') Q := by
  intro m m' hm
  have hact := h m m' hm
  show SameResult l Q (EStateM.bind act k m) (EStateM.bind act' k' m')
  unfold EStateM.bind
  generalize act m = result, act' m' = result' at hact
  cases hact with
  | ok machine value => exact hk _ _ value _ _ machine
  | error machine alike => exact .error machine alike

/-- A step that gives the same on both sides, and then another. -/
theorem andThen (h : Parallel l act act' Eq) (hk : ∀ a, Parallel l (k a) (k' a) Q) :
    Parallel l (act >>= k) (act' >>= k') Q :=
  h.bind fun a _ heq => heq ▸ hk a

theorem map {f : α → β} (h : Parallel l act act' Eq) : Parallel l (f <$> act) (f <$> act') Eq := by
  rw [map_eq_pure_bind, map_eq_pure_bind]
  exact h.andThen fun _ => .pure rfl

theorem discard (h : Parallel l act act' P) : Parallel l (discard act) (discard act') Eq := by
  rw [Functor.discard, Functor.discard, Functor.mapConst]
  exact h.bind fun _ _ _ => .pure rfl

theorem ite {c c' : Prop} [Decidable c] [Decidable c'] {other other' : Eval α} (hc : c ↔ c')
    (h : Parallel l act act' P) (h' : Parallel l other other' P) :
    Parallel l (if c then act else other) (if c' then act' else other') P := by
  by_cases hcase : c
  · rw [if_pos hcase, if_pos (hc.mp hcase)]
    exact h
  · rw [if_neg hcase, if_neg (hc.not.mp hcase)]
    exact h'

/-! ### Single steps -/

theorem outOfFuel : Parallel l (Eval.outOfFuel : Eval α) Eval.outOfFuel P :=
  fun _ _ hm => .error hm .outOfFuel

theorem fail {cause : RunFault} {token token' : Token} (h : l.token token token') :
    Parallel l (Eval.fail cause token : Eval α) (Eval.fail cause token') P :=
  fun _ _ hm => .error hm (.error (.located cause h))

theorem get : Parallel l (get : Eval Machine) (MonadState.get : Eval Machine) (Machine.Alike l) :=
  fun _ _ hm => .ok hm hm

theorem inspect {question question' : Store → α}
    (h : ∀ s s' : Store, s.Alike l s' → P (question s) (question' s')) :
    Parallel l (Eval.inspect question) (Eval.inspect question') P :=
  fun m m' hm => .ok hm (h m.store m'.store hm.store)

theorem ask {question question' : Machine → Except RunError α}
    (h : ∀ m m', Machine.Alike l m m' → SameAnswer l (question m) (question' m')) :
    Parallel l (Eval.ask question) (Eval.ask question') Eq := by
  intro m m' hm
  have hanswer := h m m' hm
  unfold Eval.ask
  generalize question m = answer, question' m' = answer' at hanswer
  cases hanswer with
  | ok a => exact .ok hm rfl
  | error h => exact .error hm (.error h)

theorem changeStore {change change' : Store → Store}
    (h : ∀ s s' : Store, s.Alike l s' → (change s).Alike l (change' s')) :
    Parallel l (Eval.changeStore change) (Eval.changeStore change') Eq :=
  fun m m' hm => .ok { hm with store := h m.store m'.store hm.store } rfl

theorem updateStore {update update' : Store → α × Store}
    (h : ∀ s s' : Store, s.Alike l s' →
      P (update s).1 (update' s').1 ∧ (update s).2.Alike l (update' s').2) :
    Parallel l (Eval.updateStore update) (Eval.updateStore update') P := fun m m' hm =>
  have hstore := h m.store m'.store hm.store
  .ok { hm with store := hstore.2 } hstore.1

theorem computed {result : Computed} {operator operator' : Token}
    (h : l.token operator operator') :
    Parallel l (Eval.computed result operator) (Eval.computed result operator') Eq := by
  cases result with
  | ok value => exact .pure rfl
  | error cause => exact .fail h

theorem openFrame (kind kind' : ScopeKind) :
    Parallel l (Eval.openFrame kind) (Eval.openFrame kind') Eq := fun m m' hm =>
  have hframe : Frame.Alike ⟨kind, .empty, some m.here⟩ ⟨kind', .empty, some m'.here⟩ :=
    ⟨rfl, congrArg some hm.here⟩
  have hadded := hm.store.addFrame hframe
  .ok { hm with store := hadded.2 } hadded.1

theorem declare {name name' : Token} (hname : l.token name name') (value : Option Value)
    (isConst : Bool) : Parallel l (Eval.declare name.lexeme value isConst)
      (Eval.declare name'.lexeme value isConst) Eq := by
  rw [← l.lexeme hname]
  intro m m' hm
  refine .ok { hm with store := ?_ } rfl
  show (m.store.declare m.here name.lexeme value isConst).Alike l
    (m'.store.declare m'.here name.lexeme value isConst)
  rw [← hm.here]
  exact hm.store.declare _ _ _ _

theorem write (text : String) : Parallel l (Eval.write text) (Eval.write text) Eq := by
  have hsink : Parallel l
      (modifyGet fun m : Machine =>
        ((m.sink.write text).1, { m with sink := (m.sink.write text).2 }))
      (modifyGet fun m : Machine =>
        ((m.sink.write text).1, { m with sink := (m.sink.write text).2 })) Eq := fun m m' hm => by
    refine .ok { hm with sink := ?_ } ?_
    · exact congrArg (fun sink : Sink => (sink.write text).2) hm.sink
    · exact congrArg (fun sink : Sink => (sink.write text).1) hm.sink
  have hstop (cause : DeviceFault) : Parallel l (Eval.stop (.device cause) : Eval Unit)
      (Eval.stop (.device cause)) Eq := fun _ _ hm => .error hm (.error (.device cause))
  exact hsink.andThen fun complete => .ite Iff.rfl
    (get.bind fun m m' hm => .ite (hm.sink ▸ Iff.rfl) (hstop _) (.pure rfl)) (hstop _)

/-- Leaving a frame or a call, both go back. -/
theorem leave {result result' : EStateM.Result Halt Machine α} (back back' : Machine → Machine)
    (hback : ∀ m m', Machine.Alike l m m' → Machine.Alike l (back m) (back' m')) :
    SameResult l P result result' → SameResult l P
      (match result with
        | .ok a after => .ok a (back after)
        | .error halt after => .error halt (back after))
      (match result' with
        | .ok a after => .ok a (back' after)
        | .error halt after => .error halt (back' after)) := by
  intro h
  cases h with
  | ok machine value => exact .ok (hback _ _ machine) value
  | error machine alike => exact .error (hback _ _ machine) alike

theorem within (h : Parallel l act act' P) (frame : FrameId) :
    Parallel l (Eval.within frame act) (Eval.within frame act') P := fun m m' hm =>
  leave (fun after => { after with here := m.here }) (fun after => { after with here := m'.here })
    (fun _ _ hafter => { hafter with here := hm.here })
    (h { m with here := frame } { m' with here := frame } { hm with here := rfl })

theorem counted (h : Parallel l act act' P) {place place' : Token} (hplace : l.token place place') :
    Parallel l (Eval.counted place act) (Eval.counted place' act') P := by
  intro m m' hm
  unfold Eval.counted
  rw [← hm.depth]
  split
  · exact .error hm (.error (.located _ hplace))
  · exact leave (fun after => { after with depth := after.depth - 1 })
      (fun after => { after with depth := after.depth - 1 })
      (fun _ _ hafter => { hafter with depth := congrArg (· - 1) hafter.depth })
      (h { m with depth := m.depth + 1 } { m' with depth := m.depth + 1 } { hm with depth := rfl })

end Parallel

/-! ## Names -/

namespace SameAnswer

variable {α β : Type} {answer answer' : Except RunError α} {k k' : α → Except RunError β}
  {name name' : Token}

theorem bind (h : SameAnswer l answer answer') (hk : ∀ a, SameAnswer l (k a) (k' a)) :
    SameAnswer l (answer >>= k) (answer' >>= k') := by
  cases h with
  | ok a => exact hk a
  | error h => exact .error h

theorem fault (cause : String → RunFault) (h : l.token name name') :
    SameAnswer l (.error (.located (cause name.lexeme) name) : Except RunError α)
      (.error (.located (cause name'.lexeme) name')) := by
  rw [← l.lexeme h]
  exact .error (.located _ h)

theorem searchAt (s : Store) (id : FrameId) (distance : Nat) (h : l.token name name') :
    SameAnswer l (s.searchAt id distance name) (s.searchAt id distance name') := by
  unfold Store.searchAt
  rw [← l.lexeme h]
  split
  · split
    · exact .ok _
    · exact fault .unbound h
  · exact fault .unbound h

theorem search (s : Store) (id : FrameId) (h : l.token name name') :
    SameAnswer l (s.search id name) (s.search id name') := by
  unfold Store.search
  rw [← l.lexeme h]
  split
  · split
    · exact .ok _
    · exact fault .undefined h
  · exact fault .undefined h

theorem read (slot : Slot) (h : l.token name name') :
    SameAnswer l (slot.read name) (slot.read name') := by
  unfold Slot.read
  split
  · exact .ok _
  · exact fault .uninitialized h

theorem checkWrite (slot : Slot) (h : l.token name name') :
    SameAnswer l (slot.checkWrite name) (slot.checkWrite name') := by
  unfold Slot.checkWrite
  split
  · exact fault .constant h
  · exact .ok _

end SameAnswer

namespace Parallel

variable {lookup lookup' : Lookup} {name name' : Token}

theorem watch (h : lookup.Alike l lookup') (id id' : NodeId) (name name' : Token) :
    Parallel l (Eval.watch lookup id name) (Eval.watch lookup' id' name') Eq :=
  get.bind fun m m' _ => by
    rw [h.calm, h.calm']
    exact .pure rfl

theorem readName (h : lookup.Alike l lookup') {id id' : NodeId} (hid : l.node id id')
    (hname : l.token name name') :
    Parallel l (Eval.readName lookup id name) (Eval.readName lookup' id' name') Eq :=
  (watch h id id' name name').andThen fun _ => .ask fun m m' hm => by
    rw [← h.distances id id' hid]
    cases lookup.distances[id]? with
    | some distance =>
      dsimp only [Store.getAt]
      rw [← hm.here, ← hm.store.searchAt_eq]
      exact (SameAnswer.searchAt _ _ _ hname).bind fun found => .read _ hname
    | none =>
      dsimp only [Store.get]
      rw [← hm.store.search_eq]
      exact (SameAnswer.search _ _ hname).bind fun found => .read _ hname

theorem writeName (h : lookup.Alike l lookup') {id id' : NodeId} (hid : l.node id id')
    (hname : l.token name name') (value : Value) :
    Parallel l (Eval.writeName lookup id name value)
      (Eval.writeName lookup' id' name' value) Eq := by
  refine (watch h id id' name name').andThen fun _ => Parallel.andThen (.ask fun m m' hm => ?_)
    fun frame => ?_
  · rw [← h.distances id id' hid]
    cases lookup.distances[id]? with
    | some distance =>
      dsimp only [Store.writableAt]
      rw [← hm.here, ← hm.store.searchAt_eq]
      exact (SameAnswer.searchAt _ _ _ hname).bind fun found =>
        (SameAnswer.checkWrite _ hname).bind fun _ => .ok _
    | none =>
      dsimp only [Store.writable]
      rw [← hm.store.search_eq]
      exact (SameAnswer.search _ _ hname).bind fun found =>
        (SameAnswer.checkWrite _ hname).bind fun _ => .ok _
  · rw [← l.lexeme hname]
    exact .changeStore fun s s' hs => hs.store frame name.lexeme value

/-! ## Functions and classes -/

theorem parameterFrame {params params' : List Token} (h : List.Forall₂ l.token params params')
    (body body' : List Stmt) (args : List Value) (outer : FrameId) :
    Frame.Alike (Eval.parameterFrame params body args outer)
      (Eval.parameterFrame params' body' args outer) := by
  refine ⟨?_, rfl⟩
  dsimp only [Eval.parameterFrame]
  generalize (NameMap.empty : NameMap Slot) = names
  induction h generalizing args names with
  | nil => rfl
  | cons hparam _ ih =>
    cases args with
    | nil => rfl
    | cons arg args =>
      rw [List.zip_cons_cons, List.zip_cons_cons, List.foldl_cons, List.foldl_cons, l.lexeme hparam]
      exact ih args _

theorem declareFunction {decl decl' : FunctionDecl} (h : FunctionDecl.Alike l decl decl') :
    Parallel l (Eval.declareFunction decl) (Eval.declareFunction decl') Eq := by
  refine get.bind fun m m' hm => (updateStore (P := Eq) fun s s' hs => ?_).andThen fun id =>
    declare h.name _ true
  rw [← hm.here]
  exact hs.addFunction ⟨h, rfl, rfl⟩

theorem closures {decls decls' : List FunctionDecl} (h : AlikeFunctions l decls decls')
    (frame : FrameId) (hasInitializer : Bool) :
    (Eval.closures frame decls hasInitializer).Alike (Closure.Alike l)
      (Eval.closures frame decls' hasInitializer) := by
  refine .ofList ?_
  induction decls generalizing decls' with
  | nil =>
    cases h
    exact .nil
  | cons decl rest ih =>
    obtain _ | ⟨hdecl, hrest⟩ := h
    have hname := l.lexeme hdecl.name
    exact .cons ⟨hname, hdecl, rfl, congrArg (fun name => hasInitializer && name == "init") hname⟩
      (ih hrest)

theorem addStatics {decls decls' : List FunctionDecl} (h : AlikeFunctions l decls decls')
    (frame : FrameId) {s s' : Store} (hs : s.Alike l s') :
    (Eval.addStatics frame decls s).1 = (Eval.addStatics frame decls' s').1 ∧
      (Eval.addStatics frame decls s).2.Alike l (Eval.addStatics frame decls' s').2 := by
  unfold Eval.addStatics
  generalize (NameMap.empty : NameMap FunctionId) = statics
  induction decls generalizing decls' s s' statics with
  | nil =>
    cases h
    exact ⟨rfl, hs⟩
  | cons decl rest ih =>
    obtain _ | @⟨_, decl', _, _, hdecl, hrest⟩ := h
    have hclosure : Closure.Alike l ⟨decl, frame, false⟩ ⟨decl', frame, false⟩ := ⟨hdecl, rfl, rfl⟩
    obtain ⟨hid, hadded⟩ := hs.addFunction hclosure
    rw [List.foldl_cons, List.foldl_cons]
    dsimp only
    rw [hid, l.lexeme hdecl.name]
    exact ih hrest hadded _

theorem declareClass {decl decl' : ClassDecl} (h : ClassDecl.Alike l decl decl')
    (base : Option ClassId) :
    Parallel l (Eval.declareClass decl base) (Eval.declareClass decl' base) Eq := by
  obtain ⟨hname, hbase, hmethods, hstatics, hgetters⟩ := h
  refine get.bind fun m m' hm => (updateStore (P := Eq) fun s s' hs => ?_).andThen fun id =>
    declare hname _ true
  rw [← hm.here]
  obtain ⟨hsame, hadded⟩ := addStatics hstatics m.here hs
  exact hadded.addClass
    ⟨l.lexeme hname, rfl, closures hmethods _ _, closures hgetters _ _, hsame, rfl⟩

theorem asBaseClass {decl decl' : ClassDecl} {base base' : Expr}
    (hdecl : l.token decl.name decl'.name)
    (hbase : Expr.Alike l base base') (value : Value) :
    Parallel l (Eval.asBaseClass decl base value) (Eval.asBaseClass decl' base' value) Eq := by
  refine (inspect (P := Eq) fun s s' hs => hs.asClass?_eq value).andThen fun found => ?_
  cases found with
  | some id => exact .pure rfl
  | none =>
    have hplace {place place' : Token} (h : l.token place place') :
        Parallel l (Eval.fail (.baseNotClass place.lexeme) place : Eval ClassId)
          (Eval.fail (.baseNotClass place'.lexeme) place') Eq := by
      rw [← l.lexeme h]
      exact .fail h
    cases hbase with
    | «variable» _ hname => exact hplace hname
    | _ => exact hplace hdecl

theorem instanceAttribute? (id : InstanceId) {name name' : Token} (hname : l.token name name') :
    Parallel l (Eval.instanceAttribute? id name.lexeme) (Eval.instanceAttribute? id name'.lexeme)
      (Option.Rel (Attribute.Alike l)) := by
  rw [← l.lexeme hname]
  exact updateStore fun s s' hs => hs.attribute? id name.lexeme

/-- The text of a value is the same. -/
theorem displayed (value : Value) (suffix : String) :
    Parallel l (Eval.inspect fun s => s.display value ++ suffix)
      (Eval.inspect fun s => s.display value ++ suffix) Eq :=
  inspect fun s s' hs => by rw [hs.display_eq]

theorem checkCall (callee : Value) {paren paren' : Token} (hparen : l.token paren paren')
    (given : Nat) :
    Parallel l (Eval.checkCall callee paren given) (Eval.checkCall callee paren' given) Eq := by
  unfold Eval.checkCall
  split
  · next c =>
    refine (inspect (P := Eq) fun s s' hs => hs.arity_eq c).andThen fun expected =>
      .ite Iff.rfl (.pure rfl) ?_
    exact (inspect (P := Eq) fun s s' hs => hs.displayCallable_eq c).andThen fun display =>
      .fail hparen
  · exact (inspect (P := Eq) fun s s' hs => hs.display_eq _).andThen fun display => .fail hparen

theorem callNative (id : NativeId) (args : List Value) {paren paren' : Token}
    (hparen : l.token paren paren') :
    Parallel l (Eval.callNative id args paren) (Eval.callNative id args paren') Eq := by
  refine (inspect (P := Eq) fun s s' hs => hs.native?_eq id).andThen fun found => ?_
  cases found with
  | none => exact .pure rfl
  | some native =>
    refine get.bind fun m m' hm => ?_
    have hdisplay : m.store.display = m'.store.display := funext hm.store.display_eq
    dsimp only
    rw [← hdisplay, ← hm.host]
    have hset (host : Host) : Parallel l (set { m with host } : Eval Unit)
        (set { m' with host } : Eval Unit) Eq := fun _ _ _ => .ok { hm with host := rfl } rfl
    refine (hset _).andThen fun _ => ?_
    split
    · exact .pure rfl
    · exact .fail hparen

theorem initializedObject {c c' : Closure} (hc : c.Alike l c') :
    Parallel l (Eval.initializedObject c) (Eval.initializedObject c') Eq :=
  .ask fun m m' hm => by
    have hname := l.synthetic (.keyword .this) "this" rfl hc.decl.name
    dsimp only [Store.getAt]
    rw [← hc.frame, ← hm.store.searchAt_eq]
    exact (SameAnswer.searchAt _ _ _ hname).bind fun found => .read _ hname

end Parallel

theorem applyBinary_eq {operator operator' : Token} (h : l.token operator operator')
    (left right : Value) :
    Value.applyBinary operator left right = Value.applyBinary operator' left right := by
  unfold Value.applyBinary
  rw [l.kind h, l.lexeme h]

/-! ## Evaluation -/

/-- How code that is alike is evaluated side by side with one bound on its depth. -/
structure RunsParallel (l : Likeness) (lookup lookup' : Lookup) (fuel : Nat) : Prop where
  evaluate : ∀ {e e'}, Expr.Alike l e e' →
    Parallel l (Eval.evaluate fuel lookup e) (Eval.evaluate fuel lookup' e') Eq
  evaluateEach : ∀ {es es'}, AlikeEach l es es' →
    Parallel l (Eval.evaluateEach fuel lookup es) (Eval.evaluateEach fuel lookup' es') Eq
  attributeValue : ∀ {found found' name name'}, found.Alike l found' → l.token name name' →
    Parallel l (Eval.attributeValue fuel lookup found name)
      (Eval.attributeValue fuel lookup' found' name') Eq
  invoke : ∀ callee {paren paren'} args, l.token paren paren' →
    Parallel l (Eval.invoke fuel lookup callee paren args)
      (Eval.invoke fuel lookup' callee paren' args) Eq
  construct : ∀ object args {paren paren'}, l.token paren paren' →
    Parallel l (Eval.construct fuel lookup object args paren)
      (Eval.construct fuel lookup' object args paren') Eq
  callFunction : ∀ {c c'} args {place place'}, Closure.Alike l c c' → l.token place place' →
    Parallel l (Eval.callFunction fuel lookup c args place)
      (Eval.callFunction fuel lookup' c' args place') Eq
  callBody : ∀ outer {params params' body body'} args {place place'},
    List.Forall₂ l.token params params' → AlikeBody l body body' → l.token place place' →
      Parallel l (Eval.callBody fuel lookup outer params body args place)
        (Eval.callBody fuel lookup' outer params' body' args place') Eq
  execute : ∀ {s s'}, Stmt.Alike l s s' →
    Parallel l (Eval.execute fuel lookup s) (Eval.execute fuel lookup' s') Eq
  executeEach : ∀ {ss ss'}, AlikeBody l ss ss' →
    Parallel l (Eval.executeEach fuel lookup ss) (Eval.executeEach fuel lookup' ss') Eq
  whileLoop : ∀ {condition condition' body body'}, Expr.Alike l condition condition' →
    Stmt.Alike l body body' → Parallel l (Eval.whileLoop fuel lookup condition body)
      (Eval.whileLoop fuel lookup' condition' body') Eq
  forLoop : ∀ {condition condition' update update' body body'},
    AlikeOptional l condition condition' → AlikeOptional l update update' →
      Stmt.Alike l body body' → Parallel l (Eval.forLoop fuel lookup condition update body)
        (Eval.forLoop fuel lookup' condition' update' body') Eq

namespace RunsParallel

open Parallel

variable {lookup lookup' : Lookup} {fuel : Nat}

theorem zero : RunsParallel l lookup lookup' 0 where
  evaluate _ := by rw [Eval.evaluate, Eval.evaluate]; exact .outOfFuel
  evaluateEach _ := by rw [Eval.evaluateEach, Eval.evaluateEach]; exact .outOfFuel
  attributeValue _ _ := by rw [Eval.attributeValue, Eval.attributeValue]; exact .outOfFuel
  invoke _ _ _ _ _ := by rw [Eval.invoke, Eval.invoke]; exact .outOfFuel
  construct _ _ _ _ _ := by rw [Eval.construct, Eval.construct]; exact .outOfFuel
  callFunction _ _ _ _ _ := by rw [Eval.callFunction, Eval.callFunction]; exact .outOfFuel
  callBody _ _ _ _ _ _ _ _ _ _ _ := by rw [Eval.callBody, Eval.callBody]; exact .outOfFuel
  execute _ := by rw [Eval.execute, Eval.execute]; exact .outOfFuel
  executeEach _ := by rw [Eval.executeEach, Eval.executeEach]; exact .outOfFuel
  whileLoop _ _ := by rw [Eval.whileLoop, Eval.whileLoop]; exact .outOfFuel
  forLoop _ _ _ := by rw [Eval.forLoop, Eval.forLoop]; exact .outOfFuel

theorem evaluate_get (ih : RunsParallel l lookup lookup' fuel) {object object' : Expr}
    {name name' : Token} (ho : Expr.Alike l object object') (hname : l.token name name') :
    Parallel l (Eval.evaluate (fuel + 1) lookup (.get object name))
      (Eval.evaluate (fuel + 1) lookup' (.get object' name')) Eq := by
  rw [Eval.evaluate, Eval.evaluate]
  refine (ih.evaluate ho).andThen fun value => ?_
  cases value with
  | «instance» id =>
    refine (instanceAttribute? id hname).bind fun found found' hfound => ?_
    cases hfound with
    | some ha => exact ih.attributeValue ha hname
    | none =>
      refine (inspect (P := Eq) fun s s' hs => hs.instanceClassName_eq id).andThen
        fun className => ?_
      rw [← l.lexeme hname]
      exact .fail hname
  | callable c =>
    cases c with
    | «class» id =>
      rw [← l.lexeme hname]
      refine (inspect (P := Eq) fun s s' hs => hs.classAttribute?_eq id _).andThen fun found => ?_
      cases found with
      | some value => exact .pure rfl
      | none =>
        exact (inspect (P := Eq) fun s s' hs => hs.className_eq id).andThen fun className =>
          .fail hname
    | _ => exact .fail hname
  | _ => exact .fail hname

theorem evaluate_set (ih : RunsParallel l lookup lookup' fuel) {object object' value value' : Expr}
    {name name' : Token} (ho : Expr.Alike l object object') (hname : l.token name name')
    (hv : Expr.Alike l value value') :
    Parallel l (Eval.evaluate (fuel + 1) lookup (.set object name value))
      (Eval.evaluate (fuel + 1) lookup' (.set object' name' value')) Eq := by
  rw [Eval.evaluate, Eval.evaluate]
  refine (ih.evaluate ho).andThen fun object => ?_
  rw [← l.lexeme hname]
  cases object with
  | «instance» id =>
    exact (ih.evaluate hv).andThen fun value =>
      (changeStore fun s s' hs => hs.setInstanceField id _ value).andThen fun _ => .pure rfl
  | callable c =>
    cases c with
    | «class» id =>
      exact (ih.evaluate hv).andThen fun value =>
        (changeStore fun s s' hs => hs.setClassField id _ value).andThen fun _ => .pure rfl
    | _ => exact .fail hname
  | _ => exact .fail hname

theorem evaluate_super (ih : RunsParallel l lookup lookup' fuel)
    (hlookup : lookup.Alike l lookup') {id id' : NodeId} {keyword keyword' method method' : Token}
    (hid : l.node id id') (hk : l.token keyword keyword') (hm : l.token method method') :
    Parallel l (Eval.evaluate (fuel + 1) lookup (.super id keyword method))
      (Eval.evaluate (fuel + 1) lookup' (.super id' keyword' method')) Eq := by
  rw [Eval.evaluate, Eval.evaluate]
  refine (readName hlookup hid hk).andThen fun base => ?_
  cases base with
  | «instance» base =>
    refine (instanceAttribute? base hm).bind fun found found' hfound => ?_
    cases hfound with
    | some ha => exact ih.attributeValue ha hm
    | none =>
      refine (inspect (P := Eq) fun s s' hs => hs.instanceClassName_eq base).andThen
        fun className => ?_
      rw [← l.lexeme hm]
      exact .fail hm
  | _ => exact .fail hk

theorem evaluate_succ (ih : RunsParallel l lookup lookup' fuel) (hlookup : lookup.Alike l lookup')
    {e e' : Expr} (h : Expr.Alike l e e') :
    Parallel l (Eval.evaluate (fuel + 1) lookup e) (Eval.evaluate (fuel + 1) lookup' e') Eq := by
  cases h with
  | literal value =>
    rw [Eval.evaluate, Eval.evaluate]
    exact .pure rfl
  | grouping hi =>
    rw [Eval.evaluate, Eval.evaluate]
    exact ih.evaluate hi
  | unary ho hr =>
    rw [Eval.evaluate, Eval.evaluate]
    refine (ih.evaluate hr).andThen fun value => ?_
    rw [← l.kind ho, ← l.lexeme ho]
    cases UnaryOperator.ofKind? _ with
    | none => exact .fail ho
    | some op => exact .computed ho
  | binary hleft ho hr =>
    rw [Eval.evaluate, Eval.evaluate]
    refine (ih.evaluate hleft).andThen fun leftValue => (ih.evaluate hr).andThen fun rightValue =>
      .ite (l.kind ho ▸ Iff.rfl) (.pure rfl) ?_
    rw [applyBinary_eq ho]
    exact .computed ho
  | logical hleft ho hr =>
    rw [Eval.evaluate, Eval.evaluate]
    refine (ih.evaluate hleft).andThen fun leftValue => .ite ?_ (.pure rfl) (ih.evaluate hr)
    rw [Eval.decides, Eval.decides, l.kind ho]
  | ternary hc _ ht he =>
    rw [Eval.evaluate, Eval.evaluate]
    exact (ih.evaluate hc).andThen fun condition =>
      .ite Iff.rfl (ih.evaluate ht) (ih.evaluate he)
  | «variable» hid hname =>
    rw [Eval.evaluate, Eval.evaluate]
    exact readName hlookup hid hname
  | assign hid hname hv =>
    rw [Eval.evaluate, Eval.evaluate]
    exact (ih.evaluate hv).andThen fun value =>
      (writeName hlookup hid hname value).andThen fun _ => .pure rfl
  | call hc hp ha =>
    rw [Eval.evaluate, Eval.evaluate]
    exact (ih.evaluate hc).andThen fun callee => (ih.evaluateEach ha).andThen fun args =>
      ih.invoke callee args hp
  | get ho hname => exact ih.evaluate_get ho hname
  | set ho hname hv => exact ih.evaluate_set ho hname hv
  | this hid hk =>
    rw [Eval.evaluate, Eval.evaluate]
    exact readName hlookup hid hk
  | super hid hk hm => exact ih.evaluate_super hlookup hid hk hm
  | arrow hd =>
    rw [Eval.evaluate, Eval.evaluate]
    refine Parallel.get.bind fun m m' hm => (updateStore (P := Eq) fun s s' hs => ?_).andThen
      fun id => .pure rfl
    rw [← hm.here]
    exact hs.addArrow ⟨hd, rfl⟩

theorem evaluateEach_succ (ih : RunsParallel l lookup lookup' fuel) {es es' : List Expr}
    (h : AlikeEach l es es') :
    Parallel l (Eval.evaluateEach (fuel + 1) lookup es)
      (Eval.evaluateEach (fuel + 1) lookup' es') Eq := by
  cases h with rw [Eval.evaluateEach, Eval.evaluateEach]
  | nil => exact .pure rfl
  | cons he hes =>
    exact (ih.evaluate he).andThen fun value => (ih.evaluateEach hes).andThen fun values =>
      .pure rfl

theorem attributeValue_succ (ih : RunsParallel l lookup lookup' fuel) {found found' : Attribute}
    {name name' : Token} (h : found.Alike l found') (hname : l.token name name') :
    Parallel l (Eval.attributeValue (fuel + 1) lookup found name)
      (Eval.attributeValue (fuel + 1) lookup' found' name') Eq := by
  cases h with rw [Eval.attributeValue, Eval.attributeValue]
  | value value => exact .pure rfl
  | getter hc => exact ih.callFunction [] hc hname

theorem invoke_succ (ih : RunsParallel l lookup lookup' fuel) (callee : Value)
    {paren paren' : Token}
    (args : List Value) (hparen : l.token paren paren') :
    Parallel l (Eval.invoke (fuel + 1) lookup callee paren args)
      (Eval.invoke (fuel + 1) lookup' callee paren' args) Eq := by
  rw [Eval.invoke, Eval.invoke]
  refine (checkCall callee hparen args.length).andThen fun c => ?_
  cases c with
  | native id => exact callNative id args hparen
  | function id =>
    refine (inspect fun s s' hs => hs.function? id).bind fun found found' hfound => ?_
    cases hfound with
    | none => exact .pure rfl
    | some hc => exact ih.callFunction args hc hparen
  | arrow id =>
    refine (inspect fun s s' hs => hs.arrow? id).bind fun found found' hfound => ?_
    cases hfound with
    | none => exact .pure rfl
    | @some c c' hc =>
      obtain ⟨decl, frame⟩ := c
      obtain ⟨decl', frame'⟩ := c'
      obtain ⟨hdecl, rfl⟩ := hc
      exact (ih.callBody frame args hdecl.params hdecl.body hparen).andThen fun signal => .pure rfl
  | «class» id =>
    refine (inspect fun s s' hs => hs.class? id).bind fun found found' hfound => ?_
    cases hfound with
    | none => exact .pure rfl
    | some _ =>
      exact (updateStore (P := Eq) fun s s' hs => hs.instantiate id).andThen fun object =>
        (ih.construct object args hparen).andThen fun _ => .pure rfl

theorem construct_succ (ih : RunsParallel l lookup lookup' fuel) (object : InstanceId)
    (args : List Value) {paren paren' : Token} (hparen : l.token paren paren') :
    Parallel l (Eval.construct (fuel + 1) lookup object args paren)
      (Eval.construct (fuel + 1) lookup' object args paren') Eq := by
  rw [Eval.construct, Eval.construct]
  refine (inspect fun s s' hs => hs.initializer? object).bind fun found found' hfound => ?_
  cases hfound with
  | none => exact .pure rfl
  | @some found found' hfound =>
    obtain ⟨portion, c⟩ := found
    obtain ⟨portion', c'⟩ := found'
    obtain ⟨rfl, hc⟩ := hfound
    exact (updateStore fun s s' hs => hs.bind hc portion).bind fun bound bound' hbound =>
      (ih.callFunction args hbound hparen).discard

theorem callFunction_succ (ih : RunsParallel l lookup lookup' fuel) {c c' : Closure}
    (args : List Value)
    {place place' : Token} (hc : c.Alike l c') (hplace : l.token place place') :
    Parallel l (Eval.callFunction (fuel + 1) lookup c args place)
      (Eval.callFunction (fuel + 1) lookup' c' args place') Eq := by
  rw [Eval.callFunction, Eval.callFunction, ← hc.frame]
  exact (ih.callBody c.frame args hc.decl.params hc.decl.body hplace).andThen fun signal =>
    .ite (hc.isInitializer ▸ Iff.rfl) (.initializedObject hc) (.pure rfl)

theorem callBody_succ (ih : RunsParallel l lookup lookup' fuel) (outer : FrameId)
    {params params' : List Token} {body body' : List Stmt} (args : List Value)
    {place place' : Token} (hparams : List.Forall₂ l.token params params')
    (hbody : AlikeBody l body body') (hplace : l.token place place') :
    Parallel l (Eval.callBody (fuel + 1) lookup outer params body args place)
      (Eval.callBody (fuel + 1) lookup' outer params' body' args place') Eq := by
  rw [Eval.callBody, Eval.callBody]
  refine (updateStore (P := Eq) fun s s' hs => hs.addFrame ?_).andThen fun frame =>
    ((ih.executeEach hbody).within frame).counted hplace
  exact parameterFrame hparams body body' args outer

theorem execute_succ (ih : RunsParallel l lookup lookup' fuel) {s s' : Stmt}
    (h : Stmt.Alike l s s') :
    Parallel l (Eval.execute (fuel + 1) lookup s) (Eval.execute (fuel + 1) lookup' s') Eq := by
  cases h with
  | expression hv =>
    rw [Eval.execute, Eval.execute]
    exact (ih.evaluate hv).discard.andThen fun _ => .pure rfl
  | print hv =>
    rw [Eval.execute, Eval.execute]
    exact (ih.evaluate hv).andThen fun value => (inspect (P := Eq) fun s s' hs =>
      hs.display_eq value).andThen fun text => (write text).andThen fun _ => .pure rfl
  | println hv =>
    rw [Eval.execute, Eval.execute]
    exact (ih.evaluate hv).andThen fun value => (displayed value "\n").andThen fun text =>
      (write text).andThen fun _ => .pure rfl
  | var hname hi =>
    cases hi with rw [Eval.execute, Eval.execute]
    | none => exact (declare hname none false).andThen fun _ => .pure rfl
    | some hi =>
      exact (ih.evaluate hi).andThen fun value =>
        (declare hname (some value) false).andThen fun _ =>
        .pure rfl
  | const hname hi =>
    rw [Eval.execute, Eval.execute]
    exact (ih.evaluate hi).andThen fun value => (declare hname (some value) true).andThen fun _ =>
      .pure rfl
  | block hb =>
    rw [Eval.execute, Eval.execute]
    exact (openFrame _ _).andThen fun frame => (ih.executeEach hb).within frame
  | ifElse hc ht he =>
    cases he with rw [Eval.execute, Eval.execute]
    | none =>
      exact (ih.evaluate hc).andThen fun _ => .ite Iff.rfl (ih.execute ht) (.pure rfl)
    | some he =>
      exact (ih.evaluate hc).andThen fun _ => .ite Iff.rfl (ih.execute ht) (ih.execute he)
  | «while» hc hb =>
    rw [Eval.execute, Eval.execute]
    exact ih.whileLoop hc hb
  | «for» hi hc hu hb =>
    rw [Eval.execute, Eval.execute]
    refine (openFrame _ _).andThen fun frame => .within ?_ frame
    cases hi with
    | none => exact ih.forLoop hc hu hb
    | some hi => exact (ih.execute hi).discard.andThen fun _ => ih.forLoop hc hu hb
  | «break» hk | «continue» hk =>
    rw [Eval.execute, Eval.execute]
    exact .pure rfl
  | assert hk hc hm =>
    rw [Eval.execute, Eval.execute]
    refine (ih.evaluate hc).andThen fun _ => .ite Iff.rfl (.pure rfl) ?_
    cases hm with
    | none => exact .fail hk
    | some hm =>
      exact (ih.evaluate hm).andThen fun value => (inspect (P := Eq) fun s s' hs =>
        hs.display_eq value).andThen fun text => .fail hk
  | function hd =>
    rw [Eval.execute, Eval.execute]
    exact (declareFunction hd).andThen fun _ => .pure rfl
  | «return» hk hv =>
    cases hv with rw [Eval.execute, Eval.execute]
    | none => exact .pure rfl
    | some hv => exact (ih.evaluate hv).andThen fun value => .pure rfl
  | «class» hd =>
    rw [Eval.execute, Eval.execute]
    have hdeclare := declareClass hd
    cases hd with
    | mk hname hb hm hs hg =>
      cases hb with
      | none => exact (hdeclare none).andThen fun _ => .pure rfl
      | some hb =>
        exact (ih.evaluate hb).andThen fun value => (asBaseClass hname hb value).map.andThen
          fun base => (hdeclare base).andThen fun _ => .pure rfl

theorem executeEach_succ (ih : RunsParallel l lookup lookup' fuel) {ss ss' : List Stmt}
    (h : AlikeBody l ss ss') :
    Parallel l (Eval.executeEach (fuel + 1) lookup ss)
      (Eval.executeEach (fuel + 1) lookup' ss') Eq := by
  cases h with rw [Eval.executeEach, Eval.executeEach]
  | nil => exact .pure rfl
  | cons hs hss =>
    refine (ih.execute hs).andThen fun signal => ?_
    cases signal with
    | completed => exact ih.executeEach hss
    | broke | continued | returned => exact .pure rfl

theorem whileLoop_succ (ih : RunsParallel l lookup lookup' fuel) {condition condition' : Expr}
    {body body' : Stmt} (hc : Expr.Alike l condition condition') (hb : Stmt.Alike l body body') :
    Parallel l (Eval.whileLoop (fuel + 1) lookup condition body)
      (Eval.whileLoop (fuel + 1) lookup' condition' body') Eq := by
  rw [Eval.whileLoop, Eval.whileLoop]
  refine (ih.evaluate hc).andThen fun _ => .ite Iff.rfl ((ih.execute hb).andThen fun signal => ?_)
    (.pure rfl)
  cases signal with
  | broke | returned => exact .pure rfl
  | completed | continued => exact ih.whileLoop hc hb

theorem goesOn (ih : RunsParallel l lookup lookup' fuel) {condition condition' : Option Expr}
    (hc : AlikeOptional l condition condition') :
    Parallel l (Eval.goesOn fuel lookup condition) (Eval.goesOn fuel lookup' condition') Eq := by
  cases hc with
  | none => exact .pure rfl
  | some hc => exact (ih.evaluate hc).map

theorem step (ih : RunsParallel l lookup lookup' fuel) {update update' : Option Expr}
    (hu : AlikeOptional l update update') :
    Parallel l (Eval.step fuel lookup update) (Eval.step fuel lookup' update') Eq := by
  cases hu with
  | none => exact .pure rfl
  | some hu => exact (ih.evaluate hu).discard

theorem forLoop_succ (ih : RunsParallel l lookup lookup' fuel)
    {condition condition' update update' : Option Expr} {body body' : Stmt}
    (hc : AlikeOptional l condition condition') (hu : AlikeOptional l update update')
    (hb : Stmt.Alike l body body') :
    Parallel l (Eval.forLoop (fuel + 1) lookup condition update body)
      (Eval.forLoop (fuel + 1) lookup' condition' update' body') Eq := by
  rw [Eval.forLoop_eq, Eval.forLoop_eq]
  refine (ih.goesOn hc).andThen fun goes =>
    .ite Iff.rfl ((ih.execute hb).andThen fun signal => ?_) (.pure rfl)
  cases signal with
  | broke | returned => exact .pure rfl
  | completed | continued => exact (ih.step hu).andThen fun _ => ih.forLoop hc hu hb

end RunsParallel

theorem runsParallel {lookup lookup' : Lookup} (hlookup : lookup.Alike l lookup') (fuel : Nat) :
    RunsParallel l lookup lookup' fuel := by
  induction fuel with
  | zero => exact .zero
  | succ fuel ih =>
    exact
      { evaluate := ih.evaluate_succ hlookup
        evaluateEach := ih.evaluateEach_succ
        attributeValue := ih.attributeValue_succ
        invoke := ih.invoke_succ
        construct := ih.construct_succ
        callFunction := ih.callFunction_succ
        callBody := ih.callBody_succ
        execute := ih.execute_succ
        executeEach := ih.executeEach_succ
        whileLoop := ih.whileLoop_succ
        forLoop := ih.forLoop_succ }

/-! ## Programs -/

/-- How a run of a program ends. -/
inductive SameEnd (l : Likeness) : Except Halt Unit → Except Halt Unit → Prop
  | ok : SameEnd l (.ok ()) (.ok ())
  | error {halt halt'} (h : Halt.Alike l halt halt') : SameEnd l (.error halt) (.error halt')

/-- Programs that are alike run alike. -/
theorem Machine.Alike.interpret {lookup lookup' : Lookup} (hlookup : lookup.Alike l lookup')
    (bound : Nat) {program program' : List Stmt} (h : AlikeBody l program program') {m m' : Machine}
    (hm : Machine.Alike l m m') :
    SameEnd l (m.interpret bound lookup program).1 (m'.interpret bound lookup' program').1 ∧
      Machine.Alike l (m.interpret bound lookup program).2
        (m'.interpret bound lookup' program').2 := by
  induction program generalizing program' m m' with
  | nil =>
    cases h
    rw [Machine.interpret, Machine.interpret, ← hm.sink]
    split
    · exact ⟨.error (.error (.device _)), hm⟩
    · exact ⟨.ok, hm⟩
  | cons s rest ih =>
    obtain _ | ⟨hs, hrest⟩ := h
    have hexecute := (runsParallel hlookup bound).execute hs m m' hm
    rw [Machine.interpret, Machine.interpret]
    generalize Eval.execute bound lookup s m = result, Eval.execute bound lookup' _ m' = result'
      at hexecute
    cases hexecute with
    | ok machine _ => exact ih hrest machine
    | error machine alike => exact ⟨.error alike, { machine with here := rfl }⟩

end LoxLang
