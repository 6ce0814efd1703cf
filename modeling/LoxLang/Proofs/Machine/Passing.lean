import LoxLang.Proofs.Machine.Leaving
import LoxLang.Proofs.Machine.Mirroring

/-!
# Constants in the course of a run

A call of the evaluation that is made where its code was accepted (`Eval.Task.Fits`) makes others so,
and what is bound as a constant in any frame stays so with its value: from the beginning of the call
to its end (`Eval.Task.Fits.endures`), to the beginning of the calls that it makes, and from their
end to its own (`Eval.Lies`).
-/

namespace LoxLang

/-! ## Where calls are made -/

/-- An expression stands where it was accepted. The base of a class is a name that stands before the
name of the class, which the analysis saw first. -/
def Expr.Stands (course : Course) (m : Machine) (e : Expr) : Prop :=
  ∃ ribs, Placed course ribs m ∧
    (e.Fits course ribs ∨ ∃ id name, e = .variable id name ∧ NodeFits course id name ribs)

/-- A call is made where its code was accepted, with what lies where its code was accepted. -/
def Eval.Task.Fits (course : Course) (m : Machine) : Eval.Task → Prop
  | .evaluate e => e.Stands course m
  | .evaluateEach es => ∃ ribs, EachFits course es ribs ∧ Placed course ribs m
  | .attributeValue found _ => found.Sound course m.store ∧ m.store.Sound course
  | .invoke _ _ _ => m.store.Sound course
  | .construct object args _ => m.store.Sound course ∧ ∀ portion c,
      m.store.initializer? object = some (portion, c) → args.length = c.decl.params.length
  | .callFunction c args _ =>
    m.store.Sound course ∧ c.Sound course m.store ∧ args.length = c.decl.params.length
  | .callBody outer params body args _ =>
    m.store.Sound course ∧ args.length = params.length ∧
      ∃ ribs, Mirrors m.store outer ribs ∧ FunctionFits course params body ribs
  | .execute s => ∃ ribs, s.Fits course ribs ∧ Hosts ribs s ∧ Placed course ribs m
  | .executeEach ss =>
    ∃ ribs, BodyFits course ss ribs ∧ (∀ s ∈ ss, Hosts ribs s) ∧ Placed course ribs m
  | .whileLoop condition body =>
    ∃ ribs, condition.Fits course ribs ∧ body.Fits course ribs ∧ body.declaration? = none ∧
      Placed course ribs m
  | .forLoop condition update body =>
    ∃ ribs, OptionalFits course condition ribs ∧ OptionalFits course update ribs ∧
      body.Fits course ribs ∧ body.declaration? = none ∧ Placed course ribs m

section Retaining

variable {α β : Type} {course : Course} {free : Option FrameId} {act : Eval α} {k : α → Eval β}
  {m m₁ : Machine} {post : α → Machine → Prop}

theorem Runs.endures (h : Runs course free act m post)
    (hpost : ∀ a after, post a after → Keeps course free m after) :
    m.store.Endures (Eval.leaves act m).store :=
  ends_iff_leaves.mp <| Ends.imp h (fun a after h => (hpost a after h).grows.endures)
    fun _ _ h => h.1.grows.endures

theorem Evaluates.endures (h : Evaluates course act m) :
    m.store.Endures (Eval.leaves act m).store :=
  Runs.endures h fun _ _ hkeeps => hkeeps

theorem Runs.endures_executed {s : Stmt} {ribs : List Rib}
    (h : Runs course none act m fun _ after => Executed course s ribs m after) :
    m.store.Endures (Eval.leaves act m).store :=
  (Runs.allow h).endures fun _ _ hexecuted => hexecuted.grown

end Retaining

section Tasks

variable {course : Course} {fuel : Nat} {m : Machine}

theorem Expr.Stands.evaluates {e : Expr} (h : e.Stands course m) :
    Evaluates course (Eval.evaluate fuel course.lookup e) m := by
  obtain ⟨ribs, hplaced, hfits | ⟨id, name, rfl, hnode⟩⟩ := h
  · exact (behaves course fuel).evaluate hfits hplaced
  · exact Behaves.evaluate_variable hnode hplaced

theorem Eval.Task.Fits.sound {task : Eval.Task} (h : task.Fits course m) :
    m.store.Sound course := by
  cases task with
  | evaluate e =>
    obtain ⟨ribs, hplaced, -⟩ := h
    exact hplaced.sound
  | evaluateEach es =>
    obtain ⟨ribs, -, hplaced⟩ := h
    exact hplaced.sound
  | attributeValue found name => exact h.2
  | invoke callee paren args => exact h
  | construct object args paren => exact h.1
  | callFunction c args place => exact h.1
  | callBody outer params body args place => exact h.1
  | execute s =>
    obtain ⟨ribs, -, -, hplaced⟩ := h
    exact hplaced.sound
  | executeEach ss =>
    obtain ⟨ribs, -, -, hplaced⟩ := h
    exact hplaced.sound
  | whileLoop condition body =>
    obtain ⟨ribs, -, -, -, hplaced⟩ := h
    exact hplaced.sound
  | forLoop condition update body =>
    obtain ⟨ribs, -, -, -, -, hplaced⟩ := h
    exact hplaced.sound

/-- From the beginning of a call to its end constants stay. -/
theorem Eval.Task.Fits.endures {task : Eval.Task} (h : task.Fits course m) :
    m.store.Endures (task.leaves fuel course.lookup m).store := by
  have hall := behaves course fuel
  cases task with
  | evaluate e => exact h.evaluates.endures
  | evaluateEach es =>
    obtain ⟨ribs, hes, hplaced⟩ := h
    exact (hall.evaluateEach hes hplaced).endures
  | attributeValue found name => exact (hall.attributeValue name h.1 h.2).endures
  | invoke callee paren args => exact (hall.invoke callee paren args h).endures
  | construct object args paren => exact (hall.construct paren h.1 h.2).endures
  | callFunction c args place => exact (hall.callFunction place h.2.1 h.1 h.2.2).endures
  | callBody outer params body args place =>
    obtain ⟨hsound, hlength, ribs, hmirrors, hfits⟩ := h
    exact (hall.callBody place hmirrors hfits hsound hlength).endures
  | execute s =>
    obtain ⟨ribs, hs, hhosts, hplaced⟩ := h
    exact (hall.execute hs hhosts hplaced).endures_executed
  | executeEach ss =>
    obtain ⟨ribs, hss, hhosts, hplaced⟩ := h
    exact (hall.executeEach hss hhosts hplaced).endures fun _ _ hkeeps => hkeeps
  | whileLoop condition body =>
    obtain ⟨ribs, hc, hb, hplain, hplaced⟩ := h
    exact (hall.whileLoop hc hb hplain hplaced).endures
  | forLoop condition update body =>
    obtain ⟨ribs, hc, hu, hb, hplain, hplaced⟩ := h
    exact (hall.forLoop hc hu hb hplain hplaced).endures

end Tasks

/-! ## Calls inside of calls -/

/-- A machine that opens a scope stands in it. -/
theorem Placed.opening {record : Record} {m : Machine} {ribs : List Rib} (h : Placed record ribs m)
    (kind : ScopeKind) (hkind : ∀ decl, kind ≠ .receiver decl) :
    Placed record (.bare kind :: ribs) (m.entering ⟨kind, .empty, some m.here⟩) where
  sound := h.sound.addFrame (h.wellFormed_bare hkind)
  stands := .addFrame h.stands.mirrors rfl rfl fun _ => rfl

section Fields

variable {course : Course} {m : Machine} {name : String} {value : Value}

theorem Evaluates.setInstanceField (h : m.store.Sound course) {id : InstanceId} :
    Evaluates course (do
      Eval.changeStore fun s => s.setInstanceField id name value
      return value) m :=
  (changeStore (Store.Sound.grows_setInstanceField ..) (h.setInstanceField id name value)).bind
    fun _ _ h₁ => .pure h₁.sound

theorem Evaluates.setClassField (h : m.store.Sound course) {id : ClassId} :
    Evaluates course (do
      Eval.changeStore fun s => s.setClassField id name value
      return value) m :=
  (changeStore (.of_instances rfl (fun hc => hc) rfl) (h.setClassField id name value)).bind
    fun _ _ h₁ => .pure h₁.sound

/-- A search among the attributes of an object that finds something. -/
theorem keeps_of_instanceAttribute? (h : m.store.Sound course) {id : InstanceId} {m₁ : Machine}
    {found : Option Attribute} (hfound : Eval.instanceAttribute? id name m = .ok found m₁) :
    Keeps course none m m₁ ∧ ∀ a ∈ found, a.Sound course m₁.store := by
  obtain ⟨hsound, hgrows, hattribute⟩ := h.attribute? id name
  cases hfound
  exact ⟨⟨rfl, rfl, hgrows, hsound⟩, hattribute⟩

end Fields

/-- The frame around what a call does itself. -/
def Eval.Task.home (m : Machine) : Eval.Task → FrameId
  | .callBody outer _ _ _ _ => outer
  | _ => m.here

/-- How a machine moves on until a call makes another one: it stands in the frame of the call, or in
a scope that was opened right inside of it. -/
structure Eval.Task.Moves (task : Eval.Task) (m m' : Machine) : Prop where
  endures : m.store.Endures m'.store
  here : m'.here = task.home m ∨ ∃ frame, m'.store.frame? m'.here = some frame ∧
    frame.kind.isReceiver = false ∧ frame.outer = some (task.home m)

section Moves

variable {course : Course} {free : Option FrameId} {task : Eval.Task} {m m₁ m₂ : Machine}

theorem Eval.Task.Moves.refl (hhome : task.home m = m.here) : task.Moves m m :=
  ⟨.refl _, .inl hhome.symm⟩

theorem Keeps.moves (h : Keeps course free m m₁) (hhome : task.home m = m.here) :
    task.Moves m m₁ := ⟨h.grows.endures, .inl (h.here.trans hhome.symm)⟩

theorem Eval.Task.Moves.opening {frame : Frame} (hstore : m₁.store = (m.store.addFrame frame).2)
    (hhere : m₁.here = (m.store.addFrame frame).1) (hkind : frame.kind.isReceiver = false)
    (houter : frame.outer = some (task.home m)) : task.Moves m m₁ where
  endures := hstore ▸ (Store.grows_addFrame (m.store) frame).endures
  here := .inr ⟨frame, by rw [hstore, hhere, Store.frame?_addFrame, if_pos rfl], hkind, houter⟩

theorem Eval.Task.Moves.keeps (h : task.Moves m m₁) (hkeeps : Keeps course free m₁ m₂) :
    task.Moves m m₂ where
  endures := h.endures.trans hkeeps.grows.endures
  here := by
    rw [hkeeps.here]
    refine h.here.imp id fun ⟨frame, hframe, hkind, houter⟩ => ?_
    obtain ⟨after, hafter, hgrows, -⟩ := hkeeps.grows.frame hframe
    exact ⟨after, hafter, by rw [hgrows.kind]; exact hkind, hgrows.outer.trans houter⟩

end Moves

/-- How a call lies in the call that makes it. -/
structure Eval.Lies (course : Course) (fuel : Nat) (task : Eval.Task) (m : Machine)
    (task' : Eval.Task) (m' : Machine) : Prop where
  fits : task'.Fits course m'
  before : task.Moves m m'
  behind : (task'.leaves fuel course.lookup m').store.Endures
    (task.leaves (fuel + 1) course.lookup m).store

section Calls

variable {α β : Type} {course : Course} {fuel : Nat} {task task' : Eval.Task} {m m' : Machine}
  {ribs : List Rib}

/-- The last call that a call makes, with nothing behind it. -/
theorem Eval.Lies.last (hfits : task'.Fits course m') (hbefore : task.Moves m m')
    (hleaves : (task.leaves (fuel + 1) course.lookup m).store =
      (task'.leaves fuel course.lookup m').store) :
    Eval.Lies course fuel task m task' m' :=
  ⟨hfits, hbefore, hleaves ▸ .refl _⟩

/-- A call with something behind it. -/
theorem Eval.Lies.of_bind {act : Eval α} {k : α → Eval β} (hfits : task'.Fits course m')
    (hbefore : task.Moves m m')
    (hinner : (task'.leaves fuel course.lookup m').store = (Eval.leaves act m').store)
    (houter : (task.leaves (fuel + 1) course.lookup m).store = (Eval.leaves (act >>= k) m').store)
    (hk : ∀ a m₁, act m' = .ok a m₁ → m₁.store.Endures (Eval.leaves (k a) m₁).store) :
    Eval.Lies course fuel task m task' m' :=
  ⟨hfits, hbefore, by rw [hinner, houter]; exact endures_leaves_bind hk⟩

/-- A call with steps behind it that are taken in order. -/
theorem Eval.Lies.of_evaluates {act : Eval α} {k : α → Eval β} (hfits : task'.Fits course m')
    (hbefore : task.Moves m m')
    (hinner : (task'.leaves fuel course.lookup m').store = (Eval.leaves act m').store)
    (houter : (task.leaves (fuel + 1) course.lookup m).store = (Eval.leaves (act >>= k) m').store)
    (hk : ∀ a m₁, act m' = .ok a m₁ → Evaluates course (k a) m₁) :
    Eval.Lies course fuel task m task' m' :=
  .of_bind hfits hbefore hinner houter fun a m₁ hrun => (hk a m₁ hrun).endures

/-! ### What has been done -/

/-- An expression that was evaluated in its place leaves the place as it is. -/
theorem Expr.Fits.ran {e : Expr} {v : Value} {m₁ : Machine} (he : e.Fits course ribs)
    (h : Placed course ribs m) (hrun : Eval.evaluate fuel course.lookup e m = .ok v m₁) :
    Keeps course none m m₁ ∧ Placed course ribs m₁ :=
  have hkeeps := ((behaves course fuel).evaluate he h).ok hrun
  ⟨hkeeps, hkeeps.placed h⟩

/-- A statement that declares nothing does so as well. -/
theorem Stmt.Fits.ran {s : Stmt} {signal : Signal} {m₁ : Machine} (hs : s.Fits course ribs)
    (hplain : s.declaration? = none) (h : Placed course ribs m)
    (hrun : Eval.execute fuel course.lookup s m = .ok signal m₁) :
    Keeps course none m m₁ ∧ Placed course ribs m₁ :=
  have hkeeps := ((behaves course fuel).executePlain hs hplain h).ok hrun
  ⟨hkeeps, hkeeps.placed h⟩

/-- The rounds of a `for` go on in their place. -/
theorem OptionalFits.went {condition : Option Expr} {goes : Bool} {m₁ : Machine}
    (hc : OptionalFits course condition ribs) (h : Placed course ribs m)
    (hrun : Eval.goesOn fuel course.lookup condition m = .ok goes m₁) :
    Keeps course none m m₁ ∧ Placed course ribs m₁ :=
  have hkeeps := ((behaves course fuel).goesOn hc h).ok hrun
  ⟨hkeeps, hkeeps.placed h⟩

theorem OptionalFits.stepped {update : Option Expr} {m₁ : Machine}
    (hu : OptionalFits course update ribs) (h : Placed course ribs m)
    (hrun : Eval.step fuel course.lookup update m = .ok () m₁) :
    Keeps course none m m₁ ∧ Placed course ribs m₁ :=
  have hkeeps := ((behaves course fuel).step hu h).ok hrun
  ⟨hkeeps, hkeeps.placed h⟩

/-- A search among the attributes of an object that finds one to take the value of. -/
theorem Keeps.found {m₁ m₂ : Machine} {id : InstanceId} {name : String} {found : Attribute}
    (h : Keeps course none m m₁)
    (hfound : Eval.instanceAttribute? id name m₁ = .ok (some found) m₂) :
    Keeps course none m m₂ ∧ found.Sound course m₂.store := by
  obtain ⟨hkeeps, hsound⟩ := keeps_of_instanceAttribute? h.sound hfound
  exact ⟨h.trans hkeeps, hsound found rfl⟩

end Calls

end LoxLang
