import LoxLang.Proofs.Machine.Steps
import LoxLang.Proofs.Machine.Whole

/-!
# Steps between whole stores

A step holds (`Holds`) if it leads from a whole store to a later whole one, comes back to the frame
that it began in, and gives back what is promised of it. Steps that hold can be put together, and
the single steps of a machine do: what they give back is known to the store.
-/

namespace LoxLang

/-- A machine with a whole store, in a frame in which names can be declared. -/
structure Machine.Whole (m : Machine) : Prop where
  store : m.store.Whole
  here : m.store.Open m.here

/-- What stays of a machine while it runs. -/
structure Machine.Becomes (m after : Machine) : Prop where
  here : after.here = m.here
  store : m.store.Becomes after.store

namespace Machine

variable {m m₁ m₂ : Machine}

theorem Becomes.refl (h : m.Whole) : m.Becomes m := ⟨rfl, .refl h.store⟩

theorem Becomes.trans (h₁ : m.Becomes m₁) (h₂ : m₁.Becomes m₂) : m.Becomes m₂ :=
  ⟨h₂.here.trans h₁.here, h₁.store.trans h₂.store⟩

theorem Becomes.whole (h : m.Becomes m₁) (hm : m.Whole) : m₁.Whole :=
  ⟨h.store.whole, h.here ▸ hm.here.mono h.store.precedes⟩

/-- Only the store changes. -/
theorem Whole.becomes {s : Store} (h : m.store.Becomes s) : m.Becomes { m with store := s } :=
  ⟨rfl, h⟩

end Machine

/-- Whole machines become whole machines, whatever their steps stop for. -/
abbrev wholeness : Conduct Halt Machine where
  good := Machine.Whole
  keeps := Machine.Becomes
  stops _ := True
  refl := .refl
  trans := .trans
  stays := Machine.Becomes.whole

/-- A step from a whole machine, with what holds of a result and the store behind it. -/
abbrev Holds {α : Type} (act : Eval α) (m : Machine) (P : Store → α → Prop) : Prop :=
  wholeness.From act m fun a after => P after.store a

/-- A step whose result does not matter. -/
abbrev Continues {α : Type} (act : Eval α) (m : Machine) : Prop := Holds act m fun _ _ => True

namespace Holds

variable {α β : Type} {act : Eval α} {k : α → Eval β} {m : Machine} {P : Store → α → Prop}
  {Q : Store → β → Prop}

/-! ### Single steps -/

theorem outOfFuel : Holds (Eval.outOfFuel : Eval α) m P := fun hm => ⟨.refl hm, trivial⟩

theorem fail {cause : RunFault} {token : Token} : Holds (Eval.fail cause token : Eval α) m P :=
  fun hm => ⟨.refl hm, trivial⟩

theorem inspect {question : Store → α} (h : Holds (k (question m.store)) m Q) :
    Holds (Eval.inspect question >>= k) m Q := h

theorem ask {question : Machine → Except RunError α}
    (h : ∀ a, m.Whole → question m = .ok a → P m.store a) : Holds (Eval.ask question) m P :=
  fun hm => .ask (fun a ha => ⟨.refl hm, h a hm ha⟩) fun _ _ => ⟨.refl hm, trivial⟩

theorem changeStore {change : Store → Store} (h : m.Whole → m.store.Becomes (change m.store)) :
    Continues (Eval.changeStore change) m := fun hm => ⟨⟨rfl, h hm⟩, trivial⟩

theorem updateStore {update : Store → α × Store}
    (h : m.Whole → m.store.Becomes (update m.store).2 ∧ P (update m.store).2 (update m.store).1) :
    Holds (Eval.updateStore update) m P := fun hm => ⟨⟨rfl, (h hm).1⟩, (h hm).2⟩

theorem write {text : String} : Continues (Eval.write text) m := fun hm =>
  .write ⟨⟨rfl, .refl hm.store⟩, trivial⟩ fun _ => ⟨⟨rfl, .refl hm.store⟩, trivial⟩

theorem computed {result : Computed} {operator : Token} {P : Store → Value → Prop}
    (h : ∀ value, result = .ok value → P m.store value) :
    Holds (Eval.computed result operator) m P := fun hm =>
  .computed (fun value hvalue => ⟨.refl hm, h value hvalue⟩) fun _ _ => ⟨.refl hm, trivial⟩

/-! ### Frames -/

theorem openFrame {kind : ScopeKind} (hkind : kind.isReceiver = false) :
    Holds (Eval.openFrame kind) m fun s id => s.Open id := by
  intro hm
  exact ⟨⟨rfl, hm.store.addFrame (.bare hkind)⟩, _,
    (Store.frame?_addFrame ..).trans (if_pos rfl), hkind⟩

theorem declare {name : String} {value : Option Value} {isConst : Bool}
    (hvalue : ∀ v ∈ value, v.Known m.store) : Continues (Eval.declare name value isConst) m :=
  fun hm => ⟨⟨rfl, hm.store.declare hm.here name hvalue isConst⟩, trivial⟩

/-- Inside another frame, the frame outside stays open. -/
theorem within {frame : FrameId} (hframe : m.store.Open frame)
    (h : Holds act { m with here := frame } P) : Holds (Eval.within frame act) m P := fun hm =>
  .within <| (h ⟨hm.store, hframe⟩).imp (fun _ _ hact => ⟨⟨rfl, hact.1.store⟩, hact.2⟩)
    fun _ _ hact => ⟨⟨rfl, hact.1.store⟩, trivial⟩

theorem counted {place : Token} (h : Holds act { m with depth := m.depth + 1 } P) :
    Holds (Eval.counted place act) m P := fun hm =>
  .counted ⟨.refl hm, trivial⟩ fun _ => (h ⟨hm.store, hm.here⟩).imp
    (fun _ _ hact => ⟨⟨hact.1.here, hact.1.store⟩, hact.2⟩)
    fun _ _ hact => ⟨⟨hact.1.here, hact.1.store⟩, trivial⟩

/-! ### Names -/

theorem watch {lookup : Lookup} {id : NodeId} {name : Token} :
    Continues (Eval.watch lookup id name) m := fun hm =>
  .watch ⟨.refl hm, trivial⟩ fun _ => ⟨.refl hm, trivial⟩

end Holds

namespace Store

variable {s : Store} {id owner : FrameId} {name : Token} {slot : Slot}

/-- What is read is in a frame of the store. -/
theorem Whole.known_of_read (h : s.Whole) {found : Except RunError (FrameId × Slot)} {value : Value}
    (hfound : ∀ {owner slot}, found = .ok (owner, slot) → s.slot? owner name.lexeme = some slot)
    (hread : (found >>= fun found => found.2.read name) = .ok value) : value.Known s := by
  cases found with
  | error error => cases hread
  | ok found =>
    obtain ⟨owner, slot⟩ := found
    obtain ⟨frame, hframe, hfind⟩ := Option.bind_eq_some_iff.mp (hfound rfl)
    replace hread : slot.read name = .ok value := hread
    unfold Slot.read at hread
    split at hread
    · next stored hstored =>
      cases hread
      exact (h.frames hframe).values hfind hstored
    · cases hread

/-- What is written to holds no object. -/
theorem Whole.open_of_write (h : s.Whole) {found : Except RunError (FrameId × Slot)}
    (hfound : ∀ {owner slot}, found = .ok (owner, slot) → s.slot? owner name.lexeme = some slot)
    (hwrite : (do
      let (owner, slot) ← found
      slot.checkWrite name
      return owner) = .ok owner) {frame : Frame} (hframe : s.frame? owner = some frame) :
    frame.kind.isReceiver = false := by
  cases found with
  | error error => cases hwrite
  | ok found =>
    obtain ⟨other, slot⟩ := found
    have hslot := hfound rfl
    replace hwrite : (slot.checkWrite name >>= fun _ => pure other) = .ok owner := hwrite
    unfold Slot.checkWrite at hwrite
    split at hwrite
    · cases hwrite
    · next hfree =>
      cases hwrite
      rw [slot?, hframe] at hslot
      exact Bool.eq_false_iff.mpr fun hkind => hfree ((h.frames hframe).receiver hkind hslot)

end Store

namespace Holds

variable {α β : Type} {m : Machine} {Q : Store → β → Prop} {lookup : Lookup} {id : NodeId}
  {name : Token}

theorem readName : Holds (Eval.readName lookup id name) m fun s value => value.Known s := by
  refine watch.bind fun _ m₁ _ _ _ => ask fun value hm₁ hread => ?_
  split at hread
  · exact hm₁.store.known_of_read slot?_of_searchAt hread
  · exact hm₁.store.known_of_read slot?_of_search hread

theorem writeName {value : Value} (hvalue : value.Known m.store) :
    Continues (Eval.writeName lookup id name value) m := by
  refine watch.bind fun _ m₁ h₁ _ _ => ?_
  -- what is written to is the frame of a name, and never that of an object
  refine .bind (ask (P := fun s owner => ∀ {frame}, s.frame? owner = some frame →
    frame.kind.isReceiver = false) fun owner hm₁ hwrite => ?_) ?_
  · split at hwrite
    · exact hm₁.store.open_of_write slot?_of_searchAt hwrite
    · exact hm₁.store.open_of_write slot?_of_search hwrite
  · refine fun owner m₂ h₂ _ hopen => changeStore fun hm₂ => ?_
    exact hm₂.store.store name.lexeme hopen (hvalue.mono (h₁.trans h₂).store.precedes)

end Holds

/-! ## Operators -/

/-- Scalars are no classes. -/
theorem Value.Scalar.known {value : Value} (h : value.Scalar) (s : Store) : value.Known s := by
  cases value with
  | callable => exact h.elim
  | nil | bool | int | float | str | «instance» => trivial

/-! ## Functions and classes -/

/-- The frame of a call with known arguments. -/
theorem whole_parameterFrame {s : Store} {params : List Token} {body : List Stmt}
    {args : List Value} {outer : FrameId} (hargs : ∀ v ∈ args, v.Known s) :
    (Eval.parameterFrame params body args outer).Whole s := by
  suffices hnames : ∀ (pairs : List (Token × Value)) (names : NameMap Slot),
      (∀ pair ∈ pairs, pair.2.Known s) →
      (∀ {name slot value}, names.find? name = some slot → slot.value = some value →
        value.Known s) →
      ∀ {name slot value}, (pairs.foldl (fun names pair =>
        names.insert pair.1.lexeme ⟨some pair.2, false⟩) names).find? name = some slot →
          slot.value = some value → value.Known s from
    { values := hnames _ .empty (fun _ hpair => hargs _ (List.of_mem_zip hpair).2)
        fun hslot => by cases hslot
      receiver := fun hkind => (Bool.false_ne_true hkind).elim
      object := fun hkind => (Bool.false_ne_true hkind).elim }
  intro pairs
  induction pairs with
  | nil => exact fun names _ hnames => hnames
  | cons pair rest ih =>
    intro names hpairs hnames
    obtain ⟨hpair, hrest⟩ := List.forall_mem_cons.mp hpairs
    refine ih _ hrest fun hslot hvalue => ?_
    rw [NameMap.find?_insert] at hslot
    split at hslot
    · cases hslot
      cases hvalue
      exact hpair
    · exact hnames hslot hvalue

namespace Holds

variable {α β : Type} {act : Eval α} {m : Machine} {P : Store → α → Prop} {Q : Store → β → Prop}

theorem declareFunction {decl : FunctionDecl} (h : decl.WellFormed) :
    Continues (Eval.declareFunction decl) m := by
  refine .get (.bind (updateStore (P := fun _ _ => True) fun hm => ⟨?_, trivial⟩) ?_)
  · exact hm.store.addFunction h fun hinit => (Bool.false_ne_true hinit).elim
  · intro function m₁ _ _ _
    exact Holds.declare fun v hv => by cases hv; trivial

theorem declareClass {decl : ClassDecl} {base : Option ClassId} (h : decl.WellFormed) :
    Continues (Eval.declareClass decl base) m := by
  obtain ⟨name, base', methods, statics, getters⟩ := decl
  obtain ⟨-, -, hmethods, hstatics, hgetters⟩ := h
  have hclosures {decls : List FunctionDecl} (hdecls : WellFormedFunctions decls) {frame : FrameId}
      {hasInitializer : Bool} {name : String} {c : Closure}
      (hc : (Eval.closures frame decls hasInitializer).find? name = some c) : c.decl.WellFormed :=
    wellFormedFunctions_iff.mp hdecls c.decl (exists_of_closures hc).1
  refine .get (.bind (updateStore (P := fun s id => (s.class? id).isSome) fun hm => ⟨?_, ?_⟩) ?_)
  · have hadded := hm.store.addStatics hstatics m.here
    exact hadded.trans (hadded.whole.addClass ⟨hclosures hmethods, hclosures hgetters⟩
      ⟨.empty, fun hc => isInitializer_of_closures hc⟩)
  · exact Option.isSome_iff_exists.mpr ⟨_, Array.getElem?_push_size⟩
  · intro id m₁ _ _ hclass
    exact Holds.declare fun v hv => by cases hv; exact hclass

theorem asBaseClass {decl : ClassDecl} {base : Expr} {value : Value} :
    Continues (Eval.asBaseClass decl base value) m := fun hm =>
  .asBaseClass (fun _ _ => ⟨.refl hm, trivial⟩) fun _ _ => ⟨.refl hm, trivial⟩

theorem instanceAttribute {id : InstanceId} {name : String} :
    Holds (Eval.instanceAttribute? id name) m fun s found => ∀ a ∈ found, a.Whole s :=
  .updateStore fun hm => hm.store.attribute? id name

theorem checkCall {callee : Value} {paren : Token} {given : Nat} :
    Holds (Eval.checkCall callee paren given) m fun _ c => callee = .callable c := fun hm =>
  .checkCall (fun _ hc _ => ⟨.refl hm, hc⟩) (fun _ _ => ⟨.refl hm, trivial⟩)
    fun _ => ⟨.refl hm, trivial⟩

theorem callNative {id : NativeId} {args : List Value} {paren : Token} :
    Holds (Eval.callNative id args paren) m fun s value => value.Known s := fun hm =>
  .callNative (fun _ _ hscalar => ⟨⟨rfl, .refl hm.store⟩, hscalar.known m.store⟩)
    fun _ _ => ⟨⟨rfl, .refl hm.store⟩, trivial⟩

theorem initializedObject {c : Closure} :
    Holds (Eval.initializedObject c) m fun s value => value.Known s :=
  .ask fun _ hm hread => hm.store.known_of_read slot?_of_searchAt hread

end Holds

end LoxLang
