import LoxLang.Proofs.Machine.Evaluates
import LoxLang.Proofs.Machine.Scalars

/-!
# Looking names up

A node is about to look its name up where the analysis visited it, so that the frame at its distance
is there (`Mirrors.target`), and binds the name unless its declaration was still going on at the
visit (`Visit.Meets.pending`).
-/

namespace LoxLang

section Search

variable {s : Store} {here : FrameId} {ribs : List Rib} {v : Visit} {hops : Nat}

/-- The frame at the distance of a visit binds the name, if the analysis saw it declared. -/
theorem Mirrors.target (h : Mirrors s here ribs) (hviews : v.views = Rib.views v.name.lexeme ribs)
    (hhops : v.hops? = some hops) :
    ∃ owner binding, s.ancestor? here hops = some owner ∧ v.binding? = some (hops, binding) ∧
      (binding.defined = true → s.constant? owner v.name.lexeme = some !binding.isMutable) := by
  rw [Visit.hops?_eq] at hhops
  obtain ⟨⟨distance, binding⟩, hbinding, hdistance⟩ := Option.map_eq_some_iff.mp hhops
  obtain rfl : distance = hops := hdistance
  obtain ⟨rib, hrib, hstatus⟩ := Visit.exists_rib_of_binding? hviews hbinding
  obtain ⟨owner, frame, howner, hframe, hcovers⟩ := h.ancestor hrib
  refine ⟨owner, binding, howner, hbinding, fun hdefined => ?_⟩
  rw [Store.constant?, hframe]
  exact hcovers.bound (by rw [Rib.constant?, hstatus]; exact if_pos hdefined)

/-- The name is not found just if the frame at the distance does not bind it. -/
theorem searchAt_eq_unbound_iff {owner : FrameId} (howner : s.ancestor? here hops = some owner)
    (name : Token) : s.searchAt here hops name = .error (Store.unboundError name) ↔
      s.isDeclared owner name.lexeme = false := by
  unfold Store.searchAt Store.isDeclared
  rw [howner]
  cases hslot : s.slot? owner name.lexeme <;> simp [hslot]

theorem searchAt_error {name : Token} {error : RunError}
    (h : s.searchAt here hops name = .error error) : error = Store.unboundError name := by
  unfold Store.searchAt at h
  split at h
  · split at h <;> cases h
    rfl
  · cases h
    rfl

/-- A name is not bound only if the node was visited inside its initializer. -/
theorem Visit.Meets.pending (h : v.Meets s here) (hunbound : v.Unbound s here) : v.Pending := by
  obtain ⟨ribs, hstands, hviews⟩ := h
  obtain ⟨hops, owner, hhops, howner, hfree⟩ := hunbound
  obtain ⟨owner', binding, howner', hbinding, hbound⟩ := hstands.mirrors.target hviews hhops
  cases howner.symm.trans howner'
  refine ⟨(hops, binding), hbinding, Bool.eq_false_iff.mpr fun hdefined => ?_⟩
  rw [Store.isDeclared_eq, hbound hdefined] at hfree
  cases hfree

variable {course : Course} {m : Machine} {error : RunError}

/-- The name of a node that the watch lets pass is not bound only if the frame at the distance of
its visit does not bind it. -/
theorem explained_unbound (h : course.Reaches v m.store m.here false) (hhops : v.hops? = some hops)
    (hsearch : m.store.searchAt m.here hops v.name = .error error) :
    Explained course m.store (.error error) := by
  cases searchAt_error hsearch
  obtain ⟨ribs, hstands, hviews⟩ := h.meets
  obtain ⟨owner, binding, howner, -⟩ := hstands.mirrors.target hviews hhops
  have hunbound := (searchAt_eq_unbound_iff howner v.name).mp hsearch
  exact ⟨v, m.here, rfl, ⟨hops, owner, hhops, howner, hunbound⟩, h⟩

theorem explained_read (slot : Slot) {name : Token} (herror : slot.read name = .error error) :
    Explained course m.store (.error error) := by
  unfold Slot.read at herror
  split at herror <;> cases herror
  trivial

/-- A search that fails is explained; what a search finds is left to the step behind it. -/
theorem explained_search {α : Type} {k : FrameId × Slot → Except RunError α}
    (h : course.Reaches v m.store m.here false) (hhops : v.hops? = some hops)
    (herror : m.store.searchAt m.here hops v.name >>= k = .error error)
    (hk : ∀ found, k found = .error error → Explained course m.store (.error error)) :
    Explained course m.store (.error error) := by
  cases hsearch : m.store.searchAt m.here hops v.name with
  | error cause =>
    rw [hsearch] at herror
    cases herror
    exact explained_unbound h hhops hsearch
  | ok found =>
    rw [hsearch] at herror
    exact hk found herror

theorem explained_getAt (h : course.Reaches v m.store m.here false) (hhops : v.hops? = some hops)
    (herror : m.store.getAt m.here hops v.name = .error error) :
    Explained course m.store (.error error) :=
  explained_search h hhops herror fun found => explained_read found.2

theorem explained_writableAt (h : course.Reaches v m.store m.here false)
    (hhops : v.hops? = some hops) (herror : m.store.writableAt m.here hops v.name = .error error) :
    Explained course m.store (.error error) := by
  refine explained_search h hhops herror fun found hwrite => ?_
  obtain ⟨owner, slot⟩ := found
  cases hconst : slot.isConst with
  | true =>
    simp only [bind, Except.bind, Slot.checkWrite, hconst, if_true] at hwrite
    cases hwrite
    trivial
  | false =>
    simp only [bind, Except.bind, Slot.checkWrite, hconst] at hwrite
    cases hwrite

/-- A slot that may be written is no constant. -/
theorem Slot.isConst_of_checkWrite {slot : Slot} {name : Token} (h : slot.checkWrite name = .ok ()) :
    slot.isConst = false := by
  unfold checkWrite at h
  split at h
  · cases h
  · next hconst => exact Bool.eq_false_iff.mpr hconst

/-- A search finds the slot of the name in the frame that it ends in. -/
theorem slot?_of_search {found : FrameId × Slot} {name : Token} (h : s.search here name = .ok found) :
    s.slot? found.1 name.lexeme = some found.2 := by
  unfold Store.search at h
  split at h
  · split at h
    · next hslot =>
      cases h
      exact hslot
    · cases h
  · cases h

theorem slot?_of_searchAt {found : FrameId × Slot} {name : Token}
    (h : s.searchAt here hops name = .ok found) : s.slot? found.1 name.lexeme = some found.2 := by
  unfold Store.searchAt at h
  split at h
  · split at h
    · next hslot =>
      cases h
      exact hslot
    · cases h
  · cases h

/-- The frame that a name may be written to does not bind it as a constant. -/
theorem constant?_of_checked {found : Except RunError (FrameId × Slot)} {name : Token}
    {owner : FrameId} (hfound : ∀ pair, found = .ok pair → s.slot? pair.1 name.lexeme = some pair.2)
    (h : (do
      let (owner, slot) ← found
      slot.checkWrite name
      return owner) = .ok owner) : s.constant? owner name.lexeme ≠ some true := by
  cases found with
  | error error => cases h
  | ok pair =>
    obtain ⟨id, slot⟩ := pair
    have hslot := hfound _ rfl
    cases hchecked : slot.checkWrite name with
    | error error => simp only [bind, Except.bind, hchecked] at h; cases h
    | ok =>
      simp only [bind, Except.bind, hchecked] at h
      cases h
      rw [Store.constant?_eq_slot?, hslot, Option.map_some, Slot.isConst_of_checkWrite hchecked]
      exact Bool.false_ne_true ∘ Option.some.inj

end Search

namespace Evaluates

variable {α β : Type} {course : Course} {k : α → Eval β} {m : Machine} {id : NodeId}
  {name : Token} {ribs : List Rib}

theorem get {k : Machine → Eval β} (h : Evaluates course (k m) m) :
    Evaluates course (get >>= k) m := h

theorem inspect {question : Store → α} (h : Evaluates course (k (question m.store)) m) :
    Evaluates course (Eval.inspect question >>= k) m := h

/-- A step behind a watch that lets the node pass. -/
theorem watched {act : Eval α} (h : Placed course ribs m) (hnode : NodeFits course id name ribs)
    (hact : ∀ v, v.id = id → v.name = name → course.Reaches v m.store m.here false →
      Evaluates course act m) :
    Evaluates course (Eval.watch course.lookup id name >>= fun _ => act) m := by
  obtain ⟨v, hv, rfl, rfl, hviews⟩ := hnode
  have hreaches : course.Reaches v m.store m.here (course.lookup.stopsAt v.id v.name m) :=
    ⟨hv, ⟨ribs, h.stands, hviews⟩, m, rfl, rfl, rfl⟩
  show Evaluates course ((if course.lookup.stopsAt v.id v.name m then
    Eval.stop (.watched v.id v.name m.here) else return ()) >>= fun _ => act) m
  cases hstops : course.lookup.stopsAt v.id v.name m with
  | true => exact ⟨.refl h.sound, v, rfl, rfl, hstops ▸ hreaches⟩
  | false => exact hact v rfl rfl (hstops ▸ hreaches)

theorem readName (h : Placed course ribs m) (hnode : NodeFits course id name ribs) :
    Evaluates course (Eval.readName course.lookup id name) m := by
  refine watched h hnode fun v hid hname hreaches => ask h.sound fun error herror => ?_
  obtain ⟨hops, hhops, hdistance⟩ := course.agrees v hreaches.visited
  rw [← hid, hdistance, ← hname] at herror
  exact explained_getAt hreaches hhops herror

theorem writeName (h : Placed course ribs m) (hnode : NodeFits course id name ribs) (value : Value) :
    Evaluates course (Eval.writeName course.lookup id name value) m := by
  refine watched h hnode fun v hid hname hreaches => Runs.bind
    (Runs.ask h.sound fun error herror => ?_) fun owner m₁ ⟨hsame, howner⟩ => ?_
  · obtain ⟨hops, hhops, hdistance⟩ := course.agrees v hreaches.visited
    rw [← hid, hdistance, ← hname] at herror
    exact explained_writableAt hreaches hhops herror
  · have hwritable : m.store.constant? owner name.lexeme ≠ some true := by
      split at howner
      · exact constant?_of_checked (fun _ => slot?_of_searchAt) howner
      · exact constant?_of_checked (fun _ => slot?_of_search) howner
    subst hsame
    have hwrite : Evaluates course (Eval.changeStore fun s => s.store owner name.lexeme value) m₁ :=
      .changeStore (Store.grows_store hwritable value) (h.sound.store hwritable value)
    exact ⟨.refl h.sound, hwrite⟩

end Evaluates

end LoxLang
