import LoxLang.Proofs.Machine.Evaluates
import LoxLang.Proofs.Machine.MatchedStores
import LoxLang.Proofs.Machine.Scalars

/-!
# Steps on stores that match

Steps match (`Matched`) if they take machines whose stores match to machines whose stores match,
give values that match, write the same texts and stop with the same faults. What they add to the two
stores is paired, and the rest of both is left alone. Steps that match can be put together, and the
single steps of the machine match.
-/

namespace LoxLang

/-! ## Operators -/

section Operators

variable {p : Matching} {v v' w w' : Value}

theorem Callable.Matches.eq_iff {c c' d d' : Callable} (hc : c.Matches p c') (hd : d.Matches p d') :
    c = d ↔ c' = d' := by
  constructor
  · rintro rfl
    cases hc with
    | function h => cases hd with | function h' => cases p.left h h'; rfl
    | arrow h => cases hd with | arrow h' => cases p.left h h'; rfl
    | «class» h => cases hd with | «class» h' => cases p.left h h'; rfl
  · rintro rfl
    cases hc with
    | function h => cases hd with | function h' => cases p.right h h'; rfl
    | arrow h => cases hd with | arrow h' => cases p.right h h'; rfl
    | «class» h => cases hd with | «class» h' => cases p.right h h'; rfl

namespace Value.Matches

/-- Nothing is said about where scalars are. -/
theorem of_scalar (h : v.Scalar) : v.Matches p v := by
  cases v with
  | callable | «instance» => exact h.elim
  | nil | bool | int | float | str => constructor

theorem isTruthy_eq (hv : v.Matches p v') : v.isTruthy = v'.isTruthy := by
  cases hv <;> rfl

theorem typeName_eq (hv : v.Matches p v') : v.typeName = v'.typeName := by
  cases hv <;> rfl

theorem equals_eq (hv : v.Matches p v') (hw : w.Matches p w') : v.equals w = v'.equals w' := by
  cases hv with
  | callable hc =>
    cases hw with
    | callable hd => exact decide_eq_decide.mpr (hc.eq_iff hd)
    | _ => rfl
  | «instance» h =>
    cases hw with
    | «instance» h' =>
      refine decide_eq_decide.mpr ⟨?_, ?_⟩
      · rintro rfl
        cases p.left h h'
        rfl
      · rintro rfl
        cases p.right h h'
        rfl
    | _ => rfl
  | _ => cases hw <;> rfl

theorem applyUnary_eq (hv : v.Matches p v') (operator : UnaryOperator) :
    v.applyUnary operator = v'.applyUnary operator := by
  cases operator <;> cases hv <;> rfl

theorem order_eq (hv : v.Matches p v') (hw : w.Matches p w') (lexeme : String) :
    Value.order lexeme v w = Value.order lexeme v' w' := by
  cases hv <;> cases hw <;> rfl

theorem sameType_eq (hv : v.Matches p v') (hw : w.Matches p w') :
    v.sameType w = v'.sameType w' := by
  cases hv <;> cases hw <;> rfl

theorem applyBinary_eq (hv : v.Matches p v') (hw : w.Matches p w') (operator : Token) :
    Value.applyBinary operator v w = Value.applyBinary operator v' w' := by
  unfold Value.applyBinary
  rw [hv.equals_eq hw, hv.sameType_eq hw, hv.typeName_eq, hw.typeName_eq]
  cases BinaryOperator.ofKind? operator.kind with
  | none => rfl
  | some found =>
    cases found with
    | arithmetic op =>
      refine congrArg (fun answer => if v'.sameType w' then answer else _) ?_
      cases op <;> cases hv <;> cases hw <;> rfl
    | comparison op =>
      dsimp only
      rw [hv.order_eq hw]
    | equal | notEqual => rfl

end Value.Matches

end Operators

inductive Signal.Matches (p : Matching) : Signal → Signal → Prop
  | completed : Signal.Matches p .completed .completed
  | broke : Signal.Matches p .broke .broke
  | continued : Signal.Matches p .continued .continued
  | returned {v v'} (h : Value.Matches p v v') : Signal.Matches p (.returned v) (.returned v')

theorem Signal.Matches.callValue {p : Matching} {signal signal' : Signal}
    (h : signal.Matches p signal') : signal.callValue.Matches p signal'.callValue := by
  cases h with
  | returned h => exact h
  | completed | broke | continued => exact .nil

/-! ## Machines and results -/

/-- Machines whose stores match, in frames of which nothing is said. Their built-in functions may
work on different hosts. -/
structure Machine.Matches (region : Region) (p : Matching) (here here' : FrameId) (m m' : Machine) :
    Prop where
  store : m.store.Matches region p m'.store
  here : m.here = here
  here' : m'.here = here'
  depth : m.depth = m'.depth
  sink : m.sink = m'.sink

/-- The same ends of a step from two stores. -/
inductive ResultsMatch {α β : Type} (region : Region) (p : Matching)
    (s s' : Store) (here here' : FrameId) (Q : Matching → α → β → Prop) :
    EStateM.Result Halt Machine α → EStateM.Result Halt Machine β → Prop
  | ok {q a b after after'} (moves : p.Moves s s' q after.store after'.store)
    (machine : Machine.Matches region q here here' after after') (value : Q q a b) :
    ResultsMatch region p s s' here here' Q (.ok a after) (.ok b after')
  | error {q halt after after'} (moves : p.Moves s s' q after.store after'.store)
    (machine : Machine.Matches region q here here' after after') :
    ResultsMatch region p s s' here here' Q (.error halt after) (.error halt after')

/-- Steps that end alike on machines that match, where things are paired at least as in a given
matching. -/
def Matched {α β : Type} (region : Region) (p : Matching) (here here' : FrameId) (act : Eval α)
    (act' : Eval β) (Q : Matching → α → β → Prop) : Prop :=
  ∀ q m m', q.Extends p → Machine.Matches region q here here' m m' →
    ResultsMatch region q m.store m'.store here here' Q (act m) (act' m')

/-- The names of all nodes on record are bound inside of the scopes that lie outside, and both runs
know how far out. -/
structure Enclosed (region : Region) (lookup lookup' : Lookup) : Prop where
  agrees : Agrees region lookup.distances
  agrees' : Agrees region lookup'.distances
  calm : ∀ id name m, lookup.stopsAt id name m = false
  calm' : ∀ id name m, lookup'.stopsAt id name m = false
  inner : ∀ {v}, region.visited v → ∀ {hops}, v.hops? = some hops →
    hops + region.outside < v.scopes.length

/-- A node of the code looks its name up at one distance, and not in a scope that lies outside. -/
theorem Enclosed.distance {region : Region} {lookup lookup' : Lookup}
    (h : Enclosed region lookup lookup') {id : NodeId} {name : Token} {ribs : List Rib}
    (hnode : NodeFits region id name ribs) : ∃ hops, lookup.distances[id]? = some hops ∧
      lookup'.distances[id]? = some hops ∧ hops < region.inside ribs := by
  obtain ⟨v, hvisited, rfl, rfl, hviews⟩ := hnode
  obtain ⟨hops, hhops, hdistance⟩ := h.agrees v hvisited
  obtain ⟨other, hother, hdistance'⟩ := h.agrees' v hvisited
  obtain rfl := Option.some.inj (hhops.symm.trans hother)
  have hlength : v.scopes.length = ribs.length := by
    have hviews := congrArg List.length hviews
    rwa [Visit.views, Rib.views, Rib.views, List.length_map, List.length_map, Visit.ribs, ribsOf,
      List.length_map] at hviews
  exact ⟨hops, hdistance, hdistance', Nat.lt_sub_of_add_lt (hlength ▸ h.inner hvisited hhops)⟩

section Bind

variable {α β γ δ : Type} {region : Region} {p : Matching} {here here' : FrameId} {act : Eval α}
  {act' : Eval β} {k : α → Eval γ} {k' : β → Eval δ} {P : Matching → α → β → Prop}
  {Q : Matching → γ → δ → Prop}

/-- A step on two machines, and then others that match. -/
theorem ResultsMatch.bind {m m' : Machine}
    (h : ResultsMatch region p m.store m'.store here here' P (act m) (act' m'))
    (hk : ∀ q a b, q.Extends p → P q a b → Matched region q here here' (k a) (k' b) Q) :
    ResultsMatch region p m.store m'.store here here' Q ((act >>= k) m) ((act' >>= k') m') := by
  show ResultsMatch region p m.store m'.store here here' Q (EStateM.bind act k m)
    (EStateM.bind act' k' m')
  unfold EStateM.bind
  generalize act m = result, act' m' = result' at h
  cases h with
  | ok moves machine value =>
    have hnext := hk _ _ _ moves.larger value _ _ _ .refl machine
    dsimp only
    generalize k _ _ = result, k' _ _ = result' at hnext
    cases hnext with
    | ok moves' machine value => exact .ok (moves.trans moves') machine value
    | error moves' machine => exact .error (moves.trans moves') machine
  | error moves machine => exact .error moves machine

end Bind

namespace Matched

variable {α β γ δ : Type} {region : Region} {p : Matching} {here here' : FrameId} {act : Eval α}
  {act' : Eval β} {k : α → Eval γ} {k' : β → Eval δ} {P : Matching → α → β → Prop}
  {Q : Matching → γ → δ → Prop} {lookup lookup' : Lookup}

theorem pure {a : α} {b : β} (h : ∀ q : Matching, q.Extends p → P q a b) :
    Matched region p here here' (pure a) (pure b) P :=
  fun _ _ _ hext hm => .ok (.refl _ _ _) hm (h _ hext)

theorem bind (h : Matched region p here here' act act' P)
    (hk : ∀ q a b, q.Extends p → P q a b → Matched region q here here' (k a) (k' b) Q) :
    Matched region p here here' (act >>= k) (act' >>= k') Q := fun _ _ _ hext hm =>
  (h _ _ _ hext hm).bind fun q a b hext' hab => hk q a b (hext'.trans hext) hab

/-- A step that gives the same on both sides, and then another. -/
theorem andThen {act' : Eval α} {k' : α → Eval δ}
    (h : Matched region p here here' act act' fun _ => Eq)
    (hk : ∀ q a, q.Extends p → Matched region q here here' (k a) (k' a) Q) :
    Matched region p here here' (act >>= k) (act' >>= k') Q :=
  h.bind fun q a _ hext heq => heq ▸ hk q a hext

theorem map {f : α → γ} {f' : β → δ} (h : Matched region p here here' act act' P)
    (hf : ∀ q a b, P q a b → Q q (f a) (f' b))
    (hQ : ∀ {q q' c d}, q'.Extends q → Q q c d → Q q' c d) :
    Matched region p here here' (f <$> act) (f' <$> act') Q := by
  rw [map_eq_pure_bind, map_eq_pure_bind]
  exact h.bind fun q a b _ hab => .pure fun q' hext => hQ hext (hf q a b hab)

theorem discard (h : Matched region p here here' act act' P) :
    Matched region p here here' (discard act) (discard act') fun _ => Eq := by
  rw [Functor.discard, Functor.discard]
  exact h.bind fun _ _ _ _ _ => .pure fun _ _ => rfl

theorem ite {c c' : Prop} [Decidable c] [Decidable c'] {other : Eval α} {other' : Eval β}
    (hc : c ↔ c') (h : Matched region p here here' act act' P)
    (h' : Matched region p here here' other other' P) :
    Matched region p here here' (if c then act else other) (if c' then act' else other') P := by
  by_cases hcase : c
  · rw [if_pos hcase, if_pos (hc.mp hcase)]
    exact h
  · rw [if_neg hcase, if_neg (hc.not.mp hcase)]
    exact h'

/-! ### Single steps -/

theorem outOfFuel :
    Matched region p here here' (Eval.outOfFuel : Eval α) (Eval.outOfFuel : Eval β) P :=
  fun _ _ _ _ hm => .error (.refl _ _ _) hm

theorem fail (cause : RunFault) (token : Token) :
    Matched region p here here' (Eval.fail cause token : Eval α) (Eval.fail cause token : Eval β)
      P :=
  fun _ _ _ _ hm => .error (.refl _ _ _) hm

theorem get : Matched region p here here' (get : Eval Machine) (MonadState.get : Eval Machine)
    fun q => Machine.Matches region q here here' :=
  fun _ _ _ _ hm => .ok (.refl _ _ _) hm hm

theorem inspect {question : Store → α} {question' : Store → β}
    (h : ∀ q s s', q.Extends p → s.Matches region q s' → P q (question s) (question' s')) :
    Matched region p here here' (Eval.inspect question) (Eval.inspect question') P :=
  fun _ _ _ hext hm => .ok (.refl _ _ _) hm (h _ _ _ hext hm.store)

theorem ask {question : Machine → Except RunError α} {question' : Machine → Except RunError β}
    (h : ∀ q m m', q.Extends p → Machine.Matches region q here here' m m' →
      AnswersMatch (P q) (question m) (question' m')) :
    Matched region p here here' (Eval.ask question) (Eval.ask question') P := by
  intro q m m' hext hm
  have hanswer := h q m m' hext hm
  unfold Eval.ask
  generalize question m = answer, question' m' = answer' at hanswer
  cases hanswer with
  | ok hvalue => exact .ok (.refl _ _ _) hm hvalue
  | error e => exact .error (.refl _ _ _) hm

theorem changeStore {change change' : Store → Store}
    (h : ∀ q s s', q.Extends p → s.Matches region q s' →
      (change s).Matches region q (change' s') ∧ q.Moves s s' q (change s) (change' s')) :
    Matched region p here here' (Eval.changeStore change) (Eval.changeStore change')
      fun _ => Eq := by
  intro q m m' hext hm
  obtain ⟨hstore, hmoves⟩ := h q _ _ hext hm.store
  exact .ok hmoves { hm with store := hstore } rfl

theorem updateStore {update : Store → α × Store} {update' : Store → β × Store}
    (h : ∀ q s s', q.Extends p → s.Matches region q s' →
      Together region q s s' P (update s) (update' s')) :
    Matched region p here here' (Eval.updateStore update) (Eval.updateStore update') P := by
  intro q m m' hext hm
  obtain ⟨q', hmoves, hstore, hvalue⟩ := h q _ _ hext hm.store
  exact .ok hmoves { hm with store := hstore } hvalue

/-- What operators give refers to nothing. -/
theorem computed {result : Computed} {operator : Token}
    (h : ∀ value, result = .ok value → value.Scalar) :
    Matched region p here here' (Eval.computed result operator) (Eval.computed result operator)
      Value.Matches := by
  cases result with
  | ok value => exact .pure fun _ _ => .of_scalar (h value rfl)
  | error cause => exact .fail _ _

/-- A frame that is opened is paired with one more around what lies in it. -/
theorem openFrame {n : Nat} (h : p.Around n here here') (kind : ScopeKind) :
    Matched region p here here' (Eval.openFrame kind) (Eval.openFrame kind)
      fun q => q.Deep (n + 1) := by
  intro q m m' hext hm
  have hframe : Frame.Matches q n ⟨kind, .empty, some m.here⟩ ⟨kind, .empty, some m'.here⟩ :=
    ⟨.empty, _, _, rfl, rfl, by rw [hm.here, hm.here']; exact h.mono hext⟩
  obtain ⟨q', hmoves, hstore, hdeep⟩ := hm.store.addFrame hframe
  exact .ok hmoves { hm with store := hstore } hdeep

theorem declare (h : p.pairs (.frame here) (.frame here')) (name : String) {v v' : Option Value}
    (hv : Option.Rel (Value.Matches p) v v') (isConst : Bool) :
    Matched region p here here' (Eval.declare name v isConst) (Eval.declare name v' isConst)
      fun _ => Eq := by
  intro q m m' hext hm
  have hpair : q.pairs (.frame m.here) (.frame m'.here) := by
    rw [hm.here, hm.here']
    exact hext.pairs h
  obtain ⟨hstore, hmoves⟩ :=
    hm.store.declare hpair name (rel_imp (fun _ _ => Value.Matches.mono hext) hv) isConst
  exact .ok hmoves { hm with store := hstore } rfl

theorem write (text : String) :
    Matched region p here here' (Eval.write text) (Eval.write text) fun _ => Eq := by
  have hsink : Matched region p here here'
      (modifyGet fun m : Machine =>
        ((m.sink.write text).1, { m with sink := (m.sink.write text).2 }))
      (modifyGet fun m : Machine =>
        ((m.sink.write text).1, { m with sink := (m.sink.write text).2 })) fun _ => Eq :=
    fun _ _ _ _ hm => by
      refine .ok (.refl _ _ _) { hm with sink := ?_ } ?_
      · exact congrArg (fun sink : Sink => (sink.write text).2) hm.sink
      · exact congrArg (fun sink : Sink => (sink.write text).1) hm.sink
  have hstop (q : Matching) (cause : DeviceFault) : Matched region q here here'
      (Eval.stop (.device cause) : Eval Unit) (Eval.stop (.device cause)) fun _ => Eq :=
    fun _ _ _ _ hm => .error (.refl _ _ _) hm
  exact hsink.andThen fun q complete _ => .ite Iff.rfl
    (get.bind fun q' m m' _ hm => .ite (hm.sink ▸ Iff.rfl) (hstop q' _) (.pure fun _ _ => rfl))
    (hstop q _)

/-- Inside of other frames nothing is said about the current ones. -/
theorem within {frame frame' : FrameId} (h : Matched region p frame frame' act act' P) :
    Matched region p here here' (Eval.within frame act) (Eval.within frame' act') P := by
  intro q m m' hext hm
  have hact := h q { m with here := frame } { m' with here := frame' } hext
    { hm with here := rfl, here' := rfl }
  unfold Eval.within
  dsimp only
  generalize act _ = result, act' _ = result' at hact
  cases hact with
  | ok moves machine value =>
    exact .ok moves { machine with here := hm.here, here' := hm.here' } value
  | error moves machine => exact .error moves { machine with here := hm.here, here' := hm.here' }

theorem counted (h : Matched region p here here' act act' P) (place : Token) :
    Matched region p here here' (Eval.counted place act) (Eval.counted place act') P := by
  intro q m m' hext hm
  unfold Eval.counted
  rw [← hm.depth]
  split
  · exact .error (.refl _ _ _) hm
  · have hact := h q { m with depth := m.depth + 1 } { m' with depth := m.depth + 1 } hext
      { hm with depth := rfl }
    generalize act _ = result, act' _ = result' at hact
    cases hact with
    | ok moves machine value =>
      exact .ok moves { machine with depth := congrArg (· - 1) machine.depth } value
    | error moves machine =>
      exact .error moves { machine with depth := congrArg (· - 1) machine.depth }

/-! ### Names -/

theorem watch (h : Enclosed region lookup lookup') (id : NodeId) (name : Token) :
    Matched region p here here' (Eval.watch lookup id name) (Eval.watch lookup' id name)
      fun _ => Eq :=
  get.bind fun _ m m' _ _ => by
    rw [h.calm, h.calm']
    exact .pure fun _ _ => rfl

variable {ribs : List Rib} {id : NodeId} {name : Token}

theorem readName (h : Enclosed region lookup lookup') (hnode : NodeFits region id name ribs)
    (haround : p.Around (region.inside ribs) here here') :
    Matched region p here here' (Eval.readName lookup id name) (Eval.readName lookup' id name)
      Value.Matches := by
  obtain ⟨hops, hdistance, hdistance', hinner⟩ := h.distance hnode
  refine (watch h id name).andThen fun q _ hext => .ask fun q' m m' hext' hm => ?_
  rw [hdistance, hdistance', hm.here, hm.here']
  have hdeep := (haround.mono (hext'.trans hext)) (by omega)
  exact hm.store.getAt hdeep (by omega) name

theorem writeName (h : Enclosed region lookup lookup') (hnode : NodeFits region id name ribs)
    (haround : p.Around (region.inside ribs) here here') {v v' : Value} (hv : v.Matches p v') :
    Matched region p here here' (Eval.writeName lookup id name v)
      (Eval.writeName lookup' id name v') fun _ => Eq := by
  obtain ⟨hops, hdistance, hdistance', hinner⟩ := h.distance hnode
  refine (watch h id name).andThen fun q _ hext =>
    Matched.bind (P := fun q o o' => q.pairs (.frame o) (.frame o'))
      (.ask fun q' m m' hext' hm => ?_)
      fun q' frame frame' hext' hpair => .changeStore fun q'' s s' hext'' hs => ?_
  · rw [hdistance, hdistance', hm.here, hm.here']
    have hdeep := (haround.mono (hext'.trans hext)) (by omega)
    exact hm.store.writableAt hdeep (by omega) name
  · exact hs.store (hext''.pairs hpair) name.lexeme (hv.mono (hext''.trans (hext'.trans hext)))

end Matched

end LoxLang
