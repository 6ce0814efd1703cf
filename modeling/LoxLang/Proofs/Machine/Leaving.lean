import LoxLang.Proofs.Machine.Frames
import LoxLang.Proofs.Machine.Moments

/-!
# The end of a call

The machine that an evaluation leaves behind, however it ends (`Eval.leaves`), and what a store has
of an earlier one: its frames and functions (`Store.Endures`), and so its constants
(`Store.Retains`). A call may stop in the middle of what it does, and the machine behind it is then
the one behind the step that stopped.
-/

namespace LoxLang

/-- All constants of the one store are in the other, with their values. -/
structure Store.Retains (s t : Store) : Prop where
  slot : ∀ {id name slot}, s.slot? id name = some slot → slot.isConst → t.slot? id name = some slot

/-- All frames of the one store are in the other and have kept their constants, its functions are
there unchanged, and its objects are what they were. -/
structure Store.Endures (s t : Store) : Prop where
  frame : ∀ {id frame}, s.frame? id = some frame →
    ∃ after, t.frame? id = some after ∧ frame.Grows after
  function : ∀ {id c}, s.function? id = some c → t.function? id = some c
  portion : ∀ {id portion}, s.portion? id = some portion → ∃ after, t.portion? id = some after ∧
    after.classId = portion.classId ∧ after.base = portion.base

namespace Store.Endures

variable {s t u : Store}

theorem refl (s : Store) : s.Endures s :=
  ⟨fun hframe => ⟨_, hframe, .refl _⟩, id, fun hportion => ⟨_, hportion, rfl, rfl⟩⟩

theorem trans (h : s.Endures t) (h' : t.Endures u) : s.Endures u where
  frame hframe := by
    obtain ⟨after, hafter, hgrows⟩ := h.frame hframe
    obtain ⟨final, hfinal, hgrows'⟩ := h'.frame hafter
    exact ⟨final, hfinal, hgrows.trans hgrows'⟩
  function hc := h'.function (h.function hc)
  portion hportion := by
    obtain ⟨after, hafter, hclass, hbase⟩ := h.portion hportion
    obtain ⟨final, hfinal, hclass', hbase'⟩ := h'.portion hafter
    exact ⟨final, hfinal, hclass'.trans hclass, hbase'.trans hbase⟩

theorem retains (h : s.Endures t) : s.Retains t where
  slot {id name slot} hslot hconst := by
    obtain ⟨frame, hframe, hfound⟩ := Option.bind_eq_some_iff.mp hslot
    obtain ⟨after, hafter, hgrows⟩ := h.frame hframe
    rw [slot?, hafter]
    exact hgrows.fixed hfound hconst

end Store.Endures

theorem Store.Grows.endures {s t : Store} {free : Option FrameId} (h : s.Grows free t) :
    s.Endures t where
  frame hframe :=
    let ⟨after, hafter, hgrows, _⟩ := h.frame hframe
    ⟨after, hafter, hgrows⟩
  function := h.function
  portion := h.portion

/-! ## The end of a call -/

section Leaves

variable {α β : Type} {act : Eval α} {k : α → Eval β} {m m₁ : Machine}

/-- The machine behind an evaluation, however it ends. -/
def Eval.leaves (act : Eval α) (m : Machine) : Machine :=
  match act m with
  | .ok _ after => after
  | .error _ after => after

theorem leaves_of_ok {a : α} (h : act m = .ok a m₁) : Eval.leaves act m = m₁ := by
  rw [Eval.leaves, h]

theorem leaves_of_error {halt : Halt} (h : act m = .error halt m₁) : Eval.leaves act m = m₁ := by
  rw [Eval.leaves, h]

/-- What holds of the machine behind an evaluation holds at both of its ends. -/
theorem ends_iff_leaves {R : Machine → Prop} :
    Ends (fun _ => R) (fun _ => R) (act m) ↔ R (Eval.leaves act m) := by
  unfold Eval.leaves
  cases act m <;> exact .rfl

/-- An evaluation that gives something back goes well. -/
theorem ok_of_run' {a : α} (h : act.run' m = some a) : act m = .ok a (Eval.leaves act m) := by
  unfold EStateM.run' EStateM.run at h
  cases hact : act m with
  | ok b after =>
    rw [hact] at h
    cases h
    rw [leaves_of_ok hact]
  | error halt after =>
    rw [hact] at h
    cases h

theorem leaves_bind_of_ok {a : α} (h : act m = .ok a m₁) :
    Eval.leaves (act >>= k) m = Eval.leaves (k a) m₁ := by
  rw [Eval.leaves, bind_of_ok h, Eval.leaves]

/-- What comes behind a step has to leave the store enduring only if the step goes well. -/
theorem endures_leaves_bind (hk : ∀ a m₁, act m = .ok a m₁ →
      m₁.store.Endures (Eval.leaves (k a) m₁).store) :
    (Eval.leaves act m).store.Endures (Eval.leaves (act >>= k) m).store := by
  cases hact : act m with
  | ok a m₁ =>
    rw [leaves_of_ok hact, leaves_bind_of_ok hact]
    exact hk a m₁ hact
  | error halt m₁ =>
    rw [leaves_of_error hact, leaves_of_error (bind_of_error hact)]
    exact .refl _

theorem leaves_inspect_bind (question : Store → α) {a : α} (h : question m.store = a) :
    Eval.leaves (Eval.inspect question >>= k) m = Eval.leaves (k a) m := by
  rw [Eval.leaves, Eval.inspect_bind h, Eval.leaves]

theorem leaves_updateStore_bind {update : Store → α × Store} :
    Eval.leaves (Eval.updateStore update >>= k) m =
      Eval.leaves (k (update m.store).1) { m with store := (update m.store).2 } := rfl

theorem leaves_openFrame_bind {kind : ScopeKind} {k : FrameId → Eval β} :
    Eval.leaves (Eval.openFrame kind >>= k) m =
      Eval.leaves (k (m.store.addFrame ⟨kind, .empty, some m.here⟩).1)
        { m with store := (m.store.addFrame ⟨kind, .empty, some m.here⟩).2 } := rfl

theorem leaves_bind_pure {f : α → β} :
    Eval.leaves (act >>= fun a => pure (f a)) m = Eval.leaves act m := by
  cases hact : act m with
  | ok a m₁ => rw [leaves_of_ok hact, leaves_bind_of_ok hact]; rfl
  | error halt m₁ => rw [leaves_of_error hact, leaves_of_error (bind_of_error hact)]

theorem leaves_discard : Eval.leaves (discard act) m = Eval.leaves act m := by
  rw [Functor.discard, Functor.mapConst]
  exact leaves_bind_pure

theorem leaves_discard_bind_of_ok {k : Unit → Eval β} {a : α} (h : act m = .ok a m₁) :
    Eval.leaves (discard act >>= k) m = Eval.leaves (k ()) m₁ := by
  refine leaves_bind_of_ok ?_
  rw [Functor.discard, Functor.mapConst]
  exact bind_of_ok h

theorem leaves_map {f : α → β} : Eval.leaves (f <$> act) m = Eval.leaves act m := by
  rw [map_eq_pure_bind]
  exact leaves_bind_pure

theorem leaves_within {frame : FrameId} : Eval.leaves (Eval.within frame act) m =
    { Eval.leaves act { m with here := frame } with here := m.here } := by
  unfold Eval.leaves Eval.within
  dsimp only
  cases act { m with here := frame } <;> rfl

theorem leaves_counted {place : Token} (hdepth : m.depth < maxDepth) :
    (Eval.leaves (Eval.counted place act) m).store =
      (Eval.leaves act { m with depth := m.depth + 1 }).store := by
  unfold Eval.leaves Eval.counted
  rw [if_neg (Nat.not_le.mpr hdepth)]
  cases act { m with depth := m.depth + 1 } <;> rfl

theorem leaves_called {place : Token} {outer : FrameId} {params : List Token} {body : List Stmt}
    {args : List Value} (hdepth : m.depth < maxDepth) :
    (Eval.leaves (Eval.updateStore (fun s => s.addFrame (Eval.parameterFrame params body args outer))
      >>= fun frame => Eval.counted place (Eval.within frame act)) m).store =
        (Eval.leaves act (m.calling outer params body args)).store := by
  have hopened (s : Store) : { m with store := s }.depth < maxDepth := hdepth
  rw [leaves_updateStore_bind, leaves_counted (hopened _), leaves_within]
  rfl

end Leaves

/-- The machine behind a call. -/
def Eval.Task.leaves (fuel : Nat) (lookup : Lookup) (m : Machine) : Eval.Task → Machine
  | .evaluate e => (Eval.evaluate fuel lookup e).leaves m
  | .evaluateEach es => (Eval.evaluateEach fuel lookup es).leaves m
  | .attributeValue found name => (Eval.attributeValue fuel lookup found name).leaves m
  | .invoke callee paren args => (Eval.invoke fuel lookup callee paren args).leaves m
  | .construct object args paren => (Eval.construct fuel lookup object args paren).leaves m
  | .callFunction c args place => (Eval.callFunction fuel lookup c args place).leaves m
  | .callBody outer params body args place =>
    (Eval.callBody fuel lookup outer params body args place).leaves m
  | .execute s => (Eval.execute fuel lookup s).leaves m
  | .executeEach ss => (Eval.executeEach fuel lookup ss).leaves m
  | .whileLoop condition body => (Eval.whileLoop fuel lookup condition body).leaves m
  | .forLoop condition update body => (Eval.forLoop fuel lookup condition update body).leaves m

end LoxLang
