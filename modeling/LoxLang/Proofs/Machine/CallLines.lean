import LoxLang.Proofs.Machine.ClosedCalls
import LoxLang.Proofs.Machine.Declaring

/-!
# Lines on two machines

A line that makes a closure or calls one, run on two machines on which the things of the closure are
paired: it comes to the same end and changes nothing but these things and the name of the closure
(`CallLine.interpret_matches`).
-/

namespace LoxLang

/-! ## Changes at one global name -/

section Changes

variable {s after : Store} {taken taken' : Place → Prop} {name : String} {frame : Frame}

/-- Nothing that is there changes but what is taken and one global name. The global frame is not
taken. -/
structure Store.ChangesAt (s : Store) (taken : Place → Prop) (name : String) (after : Store)
    (taken' : Place → Prop) : Prop where
  spares : s.Spares (fun r => taken r ∨ r = .frame globalFrame) after
    fun r => taken' r ∨ r = .frame globalFrame
  globals : ¬taken' (.frame globalFrame)
  kept : ∀ other, other ≠ name → after.slot? globalFrame other = s.slot? globalFrame other

/-- What is spared of a store where the global frame is not taken. -/
theorem Store.Spares.changesAt (h : s.Spares taken after taken')
    (hframe : s.frame? globalFrame = some frame) (hglobals : ¬taken (.frame globalFrame))
    (name : String) :
    after.frame? globalFrame = some frame ∧ s.ChangesAt taken name after taken' := by
  obtain ⟨hthing, hfree⟩ := h (.frame globalFrame) (.frame frame)
    (congrArg (Option.map Thing.frame) hframe) hglobals
  obtain ⟨_, hframe', heq⟩ := Option.map_eq_some_iff.mp hthing
  cases heq
  refine ⟨hframe', fun r t ht hr => ?_, hfree, fun other _ => ?_⟩
  · obtain ⟨hthere, hapart⟩ := h r t ht fun h => hr (.inl h)
    exact ⟨hthere, fun h => h.elim hapart fun heq => hr (.inr heq)⟩
  · rw [Store.slot?, Store.slot?, hframe, hframe']

theorem Store.ChangesAt.declare (h : s.ChangesAt taken name after taken')
    (hframe : after.frame? globalFrame = some frame) (value : Option Value) (isConst : Bool) :
    s.ChangesAt taken name (after.declare globalFrame name value isConst) taken' := by
  have hputs := Store.puts_names hframe (·.insert name ⟨value, isConst⟩)
  refine ⟨fun r t ht hr => ?_, h.globals, fun other hne => ?_⟩
  · obtain ⟨hthere, hapart⟩ := h.spares r t ht hr
    exact ⟨(hputs.elsewhere r fun heq => hr (.inr heq)).trans hthere, hapart⟩
  · rw [slot?_declare _ _ _ _ _ _ (hframe ▸ rfl), if_neg hne.symm]
    exact h.kept other hne

end Changes

/-- What is not paired may change. -/
theorem Store.Matches.congr {region : Region} {p : Matching} {s s' after after' : Store}
    (h : s.Matches region p s') (hleft : ∀ r, p.OnLeft r → after.thing? r = s.thing? r)
    (hright : ∀ r', p.OnRight r' → after'.thing? r' = s'.thing? r') :
    after.Matches region p after' := by
  intro r r' hpair
  rw [hleft r ⟨r', hpair⟩, hright r' ⟨r, hpair⟩]
  exact h r r' hpair

/-! ## Lines -/

/-- A maker bound to a global name. -/
structure Maker.In (maker : Maker) (name : String) (s : Store) : Prop where
  slot : ∃ isConst, s.slot? globalFrame name = some ⟨some (.callable maker.callable), isConst⟩
  thing : s.thing? maker.place = some maker.thing

/-- The function or arrow function that a global name stands for. -/
def Store.maker? (s : Store) (name : String) : Option Maker :=
  match (s.slot? globalFrame name).bind Slot.value with
  | some (.callable (.function id)) => (s.function? id).map (.function id)
  | some (.callable (.arrow id)) => (s.arrow? id).map (.arrow id)
  | _ => none

theorem Store.in_of_maker? {s : Store} {name : String} {maker : Maker}
    (h : s.maker? name = some maker) : maker.In name s := by
  have hslot {v : Value} (hvalue : (s.slot? globalFrame name).bind Slot.value = some v) :
      ∃ isConst, s.slot? globalFrame name = some ⟨some v, isConst⟩ := by
    obtain ⟨⟨value, isConst⟩, hslot, rfl⟩ := Option.bind_eq_some_iff.mp hvalue
    exact ⟨isConst, hslot⟩
  unfold maker? at h
  split at h
  · next hvalue =>
    obtain ⟨c, hc, rfl⟩ := Option.map_eq_some_iff.mp h
    exact ⟨hslot hvalue, congrArg (Option.map Thing.function) hc⟩
  · next hvalue =>
    obtain ⟨c, hc, rfl⟩ := Option.map_eq_some_iff.mp h
    exact ⟨hslot hvalue, congrArg (Option.map Thing.arrow) hc⟩
  · cases h

/-- Two machines, and what one global name stands for on both. Neither the global frame nor the
maker is paired. -/
structure Machine.Beside (region : Region) (maker : Maker) (make name : String) (p : Matching)
    (m m' : Machine) : Prop where
  store : m.store.Matches region p m'.store
  slot : Option.Rel (Slot.Matches p) (m.store.slot? globalFrame name)
    (m'.store.slot? globalFrame name)
  globals : ¬p.OnLeft (.frame globalFrame)
  globals' : ¬p.OnRight (.frame globalFrame)
  aside : ¬p.OnLeft maker.place
  aside' : ¬p.OnRight maker.place
  known : maker.In make m.store
  known' : maker.In make m'.store

/-- What a line does to two machines: it changes what is paired and one global name. -/
structure Machine.Moved (region : Region) (name : String) (p : Matching) (m m' : Machine)
    (q : Matching) (after after' : Machine) : Prop where
  larger : q.Extends p
  store : after.store.Matches region q after'.store
  slot : Option.Rel (Slot.Matches q) (after.store.slot? globalFrame name)
    (after'.store.slot? globalFrame name)
  changes : m.store.ChangesAt p.OnLeft name after.store q.OnLeft
  changes' : m'.store.ChangesAt p.OnRight name after'.store q.OnRight
  sink : after.sink = after'.sink

/-- The line makes something of this name or calls what the name stands for. -/
def CallLine.Concerns (line : CallLine) (make name : String) : Prop :=
  match line.use with
  | .declares declared _ => declared.lexeme = name ∧ line.callee.lexeme = make
  | .prints | .printsLine => line.callee.lexeme = name

instance (line : CallLine) (make name : String) : Decidable (line.Concerns make name) :=
  match line with
  | ⟨.declares _ _, _, _, _⟩ => inferInstanceAs (Decidable (_ ∧ _))
  | ⟨.prints, _, _, _⟩ | ⟨.printsLine, _, _, _⟩ => inferInstanceAs (Decidable (_ = _))

/-- The maker works without the scopes that lie outside. -/
structure Maker.Inside (maker : Maker) (region : Region) : Prop where
  isInitializer : maker.isInitializer = false
  fits : ∃ ribs, FunctionFits region maker.params maker.body ribs ∧ region.inside ribs = 0

theorem Store.getAt_zero (s : Store) (id : FrameId) (name : Token) :
    s.getAt id 0 name = match s.slot? id name.lexeme with
      | some slot => slot.read name
      | none => .error (unboundError name) := by
  unfold getAt searchAt ancestor?
  dsimp only
  cases s.slot? id name.lexeme <;> rfl

section Lines

variable {region : Region} {lookup lookup' : Lookup} {maker : Maker} {make name : String}
  {p : Matching} {m m' : Machine}

namespace Machine.Beside

theorem exists_frame (h : m.Beside region maker make name p m') :
    (∃ frame, m.store.frame? globalFrame = some frame) ∧
      ∃ frame, m'.store.frame? globalFrame = some frame := by
  obtain ⟨_, hslot⟩ := h.known.slot
  obtain ⟨_, hslot'⟩ := h.known'.slot
  obtain ⟨frame, hframe, -⟩ := Option.bind_eq_some_iff.mp hslot
  obtain ⟨frame', hframe', -⟩ := Option.bind_eq_some_iff.mp hslot'
  exact ⟨⟨frame, hframe⟩, frame', hframe'⟩

/-- The callee of a line that concerns the name works alike on both machines. -/
theorem invokedAlike (h : m.Beside region maker make name p m')
    (hlookup : Enclosed region lookup lookup') (hmaker : maker.Inside region)
    (hm : Machine.Matches region p globalFrame globalFrame m m') {line : CallLine}
    (hline : line.Concerns make name) :
    AnswersMatch (InvokedAlike region lookup lookup' p m m')
      (m.store.getAt globalFrame 0 line.callee) (m'.store.getAt globalFrame 0 line.callee) := by
  have hanywhere : Machine.Matches region p m.here m'.here m m' :=
    { hm with here := rfl, here' := rfl }
  have hown (hcallee : line.callee.lexeme = name) :
      AnswersMatch (InvokedAlike region lookup lookup' p m m')
        (m.store.getAt globalFrame 0 line.callee) (m'.store.getAt globalFrame 0 line.callee) := by
    have hslot := h.slot
    rw [Store.getAt_zero, Store.getAt_zero, hcallee]
    generalize m.store.slot? globalFrame name = slot, m'.store.slot? globalFrame name = slot'
      at hslot
    cases hslot with
    | none => exact .error _
    | @some slot slot' hslot =>
      have hvalue := hslot.value
      dsimp only
      rw [Slot.read, Slot.read]
      generalize slot.value = v, slot'.value = v' at hvalue
      cases hvalue with
      | none => exact .error _
      | some hv => exact .ok (hv.invokedAlike hlookup hanywhere)
  unfold CallLine.Concerns at hline
  split at hline
  · obtain ⟨-, hcallee⟩ := hline
    obtain ⟨_, hslot⟩ := h.known.slot
    obtain ⟨_, hslot'⟩ := h.known'.slot
    obtain ⟨ribs, hfits, hinside⟩ := hmaker.fits
    rw [Store.getAt_zero, Store.getAt_zero, hcallee, hslot, hslot']
    exact .ok fun fuel paren _ hargs => maker.invoke hlookup hfits hinside hmaker.isInitializer
      hanywhere h.known.thing h.known'.thing hargs fuel paren
  · exact hown hline
  · exact hown hline

/-- A step that changes nothing else but what is paired. -/
theorem moved (h : m.Beside region maker make name p m') {q : Matching} {after after' : Machine}
    (hmoves : p.Moves m.store m'.store q after.store after'.store)
    (hafter : Machine.Matches region q globalFrame globalFrame after after') :
    m.Moved region name p m' q after after' := by
  obtain ⟨⟨frame, hframe⟩, frame', hframe'⟩ := h.exists_frame
  obtain ⟨hkept, hchanges⟩ := hmoves.spares.changesAt hframe h.globals name
  obtain ⟨hkept', hchanges'⟩ := hmoves.spares'.changesAt hframe' h.globals' name
  refine ⟨hmoves.larger, hafter.store, ?_, hchanges, hchanges', hafter.sink⟩
  have hslot := h.slot
  rw [Store.slot?, hframe, Store.slot?, hframe'] at hslot
  rw [Store.slot?, hkept, Store.slot?, hkept']
  exact rel_imp (fun _ _ => Slot.Matches.mono hmoves.larger) hslot

/-- A step that changes nothing else but what is paired, and a new name for what it gives. -/
theorem moved_declare (h : m.Beside region maker make name p m') {q : Matching}
    {after after' : Machine} (hmoves : p.Moves m.store m'.store q after.store after'.store)
    (hafter : Machine.Matches region q globalFrame globalFrame after after') {v v' : Value}
    (hv : v.Matches q v') (isConst : Bool) :
    m.Moved region name p m' q
      { after with store := after.store.declare globalFrame name (some v) isConst }
      { after' with store := after'.store.declare globalFrame name (some v') isConst } := by
  obtain ⟨⟨frame, hframe⟩, frame', hframe'⟩ := h.exists_frame
  obtain ⟨hkept, hchanges⟩ := hmoves.spares.changesAt hframe h.globals name
  obtain ⟨hkept', hchanges'⟩ := hmoves.spares'.changesAt hframe' h.globals' name
  have hputs := Store.puts_names hkept (·.insert name ⟨some v, isConst⟩)
  have hputs' := Store.puts_names hkept' (·.insert name ⟨some v', isConst⟩)
  refine ⟨hmoves.larger, ?_, ?_, hchanges.declare hkept _ _, hchanges'.declare hkept' _ _,
    hafter.sink⟩
  · exact hafter.store.congr
      (fun r hr => hputs.elsewhere r fun heq => hchanges.globals (heq ▸ hr))
      fun r hr => hputs'.elsewhere r fun heq => hchanges'.globals (heq ▸ hr)
  · show Option.Rel _ ((after.store.declare globalFrame name (some v) isConst).slot? _ _)
      ((after'.store.declare globalFrame name (some v') isConst).slot? _ _)
    rw [slot?_declare _ _ _ _ _ _ (hkept ▸ rfl), if_pos rfl,
      slot?_declare _ _ _ _ _ _ (hkept' ▸ rfl), if_pos rfl]
    exact .some ⟨.some hv, rfl⟩

end Machine.Beside

/-- The same end of a line on two machines. -/
inductive TurnedAlike {α : Type} (region : Region) (name : String) (p : Matching) (m m' : Machine) :
    EStateM.Result Halt Machine α → EStateM.Result Halt Machine α → Prop
  | ok {a q after after'} (moved : m.Moved region name p m' q after after') :
    TurnedAlike region name p m m' (.ok a after) (.ok a after')
  | error {halt q after after'} (moved : m.Moved region name p m' q after after') :
    TurnedAlike region name p m m' (.error halt after) (.error halt after')

theorem Machine.Beside.turned {α : Type} (h : m.Beside region maker make name p m')
    {result result' : EStateM.Result Halt Machine α}
    (hresults : ResultsMatch region p m.store m'.store globalFrame globalFrame (fun _ => Eq) result
      result') : TurnedAlike region name p m m' result result' := by
  cases hresults with
  | ok moves machine value =>
    subst value
    exact .ok (h.moved moves machine)
  | error moves machine => exact .error (h.moved moves machine)

variable (h : m.Beside region maker make name p m') (hlookup : Enclosed region lookup lookup')
  (hmaker : maker.Inside region) (hm : Machine.Matches region p globalFrame globalFrame m m')
  {line : CallLine} (hline : line.Concerns make name) (hplain : line.args.all Expr.isPlain = true)
  {id id' : NodeId} (hid : lookup.distances[id]? = some 0) (hid' : lookup'.distances[id']? = some 0)

include h hlookup hmaker hm hline hplain hid hid'

namespace CallLine

theorem call_matches (fuel : Nat) :
    ResultsMatch region p m.store m'.store globalFrame globalFrame Value.Matches
      (Eval.evaluate fuel lookup (line.call id) m)
      (Eval.evaluate fuel lookup' (line.call id') m') := by
  have hanywhere : Machine.Matches region p m.here m'.here m m' :=
    { hm with here := rfl, here' := rfl }
  have hcallee := h.invokedAlike hlookup hmaker hm hline
  have hcall := evaluate_call_matches hlookup hid hid' hanywhere
    (by rw [hm.here, hm.here']; exact hcallee) hplain line.paren fuel
  rw [hm.here, hm.here'] at hcall
  exact hcall

theorem execute_printing (text : String → String) (fuel : Nat) :
    TurnedAlike region name p m m'
      ((do
        let value ← Eval.evaluate fuel lookup (line.call id)
        Eval.write (← Eval.inspect fun s => text (s.display value))
        return Signal.completed : Eval Signal) m)
      ((do
        let value ← Eval.evaluate fuel lookup' (line.call id')
        Eval.write (← Eval.inspect fun s => text (s.display value))
        return Signal.completed : Eval Signal) m') := by
  have hall := (call_matches h hlookup hmaker hm hline hplain hid hid' fuel).bind
    (Q := fun _ => (Eq : Signal → Signal → Prop)) fun q v v' _ hv =>
      (Matched.displayed hv text).andThen fun q text _ => (Matched.write text).andThen fun _ _ _ =>
        .pure (a := Signal.completed) fun _ _ => rfl
  exact h.turned hall

theorem execute_declaring (declared : Token) (hdeclared : declared.lexeme = name) (isConst : Bool)
    (fuel : Nat) :
    TurnedAlike region name p m m'
      ((do
        let value ← Eval.evaluate fuel lookup (line.call id)
        Eval.declare declared.lexeme (some value) isConst
        return Signal.completed : Eval Signal) m)
      ((do
        let value ← Eval.evaluate fuel lookup' (line.call id')
        Eval.declare declared.lexeme (some value) isConst
        return Signal.completed : Eval Signal) m') := by
  have hdeclare {after : Machine} (hhere : after.here = globalFrame) (v : Value) :
      (do
        Eval.declare declared.lexeme (some v) isConst
        return Signal.completed : Eval Signal) after =
        .ok .completed
          { after with store := after.store.declare globalFrame name (some v) isConst } := by
    rw [← hhere, ← hdeclared]
    rfl
  have hcall := call_matches h hlookup hmaker hm hline hplain hid hid' fuel
  generalize hrun : Eval.evaluate fuel lookup (line.call id) m = result,
    hrun' : Eval.evaluate fuel lookup' (line.call id') m' = result' at hcall
  cases hcall with
  | ok moves machine hv =>
    rw [bind_of_ok hrun, bind_of_ok hrun', hdeclare machine.here, hdeclare machine.here']
    exact .ok (h.moved_declare moves machine hv isConst)
  | error moves machine =>
    rw [bind_of_error hrun, bind_of_error hrun']
    exact .error (h.moved moves machine)

theorem execute_matches (fuel : Nat) :
    TurnedAlike region name p m m' (Eval.execute fuel lookup (line.stmt id) m)
      (Eval.execute fuel lookup' (line.stmt id') m') := by
  cases fuel with
  | zero =>
    rw [Eval.execute, Eval.execute]
    exact .error (h.moved (.refl _ _ _) hm)
  | succ fuel =>
    unfold stmt
    cases huse : line.use with
    | declares declared isConst =>
      have hnames : declared.lexeme = name ∧ line.callee.lexeme = make := by
        rw [Concerns, huse] at hline
        exact hline
      have hdeclares (isConst : Bool) :=
        execute_declaring h hlookup hmaker hm hline hplain hid hid' declared hnames.1 isConst fuel
      cases isConst with
      | false =>
        rw [Eval.execute, Eval.execute]
        exact hdeclares false
      | true =>
        rw [Eval.execute, Eval.execute]
        exact hdeclares true
    | prints =>
      rw [Eval.execute, Eval.execute]
      exact execute_printing h hlookup hmaker hm hline hplain hid hid' (fun text => text) fuel
    | printsLine =>
      rw [Eval.execute, Eval.execute]
      exact execute_printing h hlookup hmaker hm hline hplain hid hid' (· ++ "\n") fuel

/-- The same end of a program that is such a line. -/
theorem interpret_matches (bound : Nat) :
    ∃ q after after' ended, m.interpret bound lookup [line.stmt id] = (ended, after) ∧
      m'.interpret bound lookup' [line.stmt id'] = (ended, after') ∧
      m.Moved region name p m' q after after' := by
  have hexecuted := execute_matches h hlookup hmaker hm hline hplain hid hid' bound
  rw [Machine.interpret, Machine.interpret]
  generalize Eval.execute bound lookup (line.stmt id) m = result,
    Eval.execute bound lookup' (line.stmt id') m' = result' at hexecuted
  cases hexecuted with
  | @ok _ q after after' moved =>
    dsimp only
    rw [Machine.interpret, Machine.interpret, moved.sink]
    split
    · exact ⟨q, after, after', _, rfl, rfl, moved⟩
    · exact ⟨q, after, after', _, rfl, rfl, moved⟩
  | @error halt q after after' moved => exact ⟨q, _, _, _, rfl, rfl, { moved with }⟩

end CallLine

end Lines

/-! ## What a line leaves alone -/

section Left

variable {region : Region} {maker : Maker} {make name other : String} {p q : Matching}
  {m m' after after' : Machine} {taken taken' : Place → Prop}

theorem Maker.place_ne_frame (maker : Maker) (id : FrameId) : maker.place ≠ .frame id := by
  cases maker <;> exact nofun

/-- The maker stays where it is, and its name keeps standing for it. -/
theorem Store.ChangesAt.keeps_maker {s after : Store} (h : s.ChangesAt taken name after taken')
    (hne : name ≠ make) (hknown : maker.In make s) (haside : ¬taken maker.place) :
    maker.In make after ∧ ¬taken' maker.place := by
  obtain ⟨isConst, hslot⟩ := hknown.slot
  obtain ⟨hthing, hfree⟩ := h.spares _ _ hknown.thing fun htaken =>
    htaken.elim haside (maker.place_ne_frame _)
  exact ⟨⟨⟨isConst, (h.kept make hne.symm).trans hslot⟩, hthing⟩, fun htaken => hfree (.inl htaken)⟩

theorem Machine.Beside.behind (h : m.Beside region maker make name p m') (hne : name ≠ make)
    (hmoved : m.Moved region name p m' q after after') :
    after.Beside region maker make name q after' := by
  obtain ⟨hknown, haside⟩ := hmoved.changes.keeps_maker hne h.known h.aside
  obtain ⟨hknown', haside'⟩ := hmoved.changes'.keeps_maker hne h.known' h.aside'
  exact ⟨hmoved.store, hmoved.slot, hmoved.changes.globals, hmoved.changes'.globals, haside,
    haside', hknown, hknown'⟩

/-- What is paired with nothing that is taken stays as it is. -/
theorem Machine.Beside.stays (h : m.Beside region maker make other p m')
    (hchanges : m'.store.ChangesAt taken name after.store taken') (hne : other ≠ name)
    (hmake : name ≠ make) (hapart : ∀ r, p.OnRight r → ¬taken r) (haside : ¬taken maker.place) :
    m.Beside region maker make other p after ∧ ∀ r, p.OnRight r → ¬taken' r := by
  have hspared r (hr : p.OnRight r) : after.store.thing? r = m'.store.thing? r ∧ ¬taken' r := by
    obtain ⟨r', hpair⟩ := hr
    obtain ⟨_, t, -, ht, -⟩ := h.store r' r hpair
    obtain ⟨hthing, hfree⟩ := hchanges.spares r t ht fun htaken =>
      htaken.elim (hapart r ⟨r', hpair⟩) fun heq => h.globals' (heq ▸ ⟨r', hpair⟩)
    exact ⟨hthing.trans ht.symm, fun htaken => hfree (.inl htaken)⟩
  refine ⟨{ h with store := ?_, slot := ?_, known' := ?_ }, fun r hr => (hspared r hr).2⟩
  · exact h.store.congr (fun _ _ => rfl) fun r hr => (hspared r hr).1
  · rw [hchanges.kept other hne]
    exact h.slot
  · exact (hchanges.keeps_maker hmake h.known' haside).1

end Left

end LoxLang
