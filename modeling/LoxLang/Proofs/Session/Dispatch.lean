import LoxLang.Proofs.Machine.Fields
import LoxLang.Proofs.Machine.Receivers
import LoxLang.Proofs.Session.Constants

/-!
# Methods and their objects in a session

Whatever inputs a session is given, a method or getter that is found on an object works on the
portion of the object that belongs to its class (`Session.Dispatches`): this is what the word for
the object stands for while the body runs, and the attributes that are found there are those of the
chain from this portion on. A class does not see the overriding methods and the fields of the
classes that derive from it (`base_method_calls_base`).
-/

namespace LoxLang

namespace Session

/-- A session whose methods work on the portions that they are found in. -/
structure Dispatches (s : Session) : Prop where
  /-- The portions of an object are in line with the classes of its chain. -/
  layered : ∀ {inputs input fuel task m object portion},
    (s.feedAll inputs).Comes input fuel task m → m.store.portion? object = some portion →
      m.store.Layered object portion
  /-- What is found on an object is the member of the first portion that has one of this name, and
  methods and getters are bound to this portion. -/
  found : ∀ {inputs input fuel target name m object m₁ q member},
    (s.feedAll inputs).Comes input (fuel + 1) (.evaluate (.get target name)) m →
    Eval.evaluate fuel ((s.feedAll inputs).lookup input) target m = .ok (.instance object) m₁ →
    m₁.store.member? object name.lexeme = some (q, member) →
      (∃ before behind, m₁.store.portionChain object = before ++ q :: behind ∧
        (∀ p ∈ before, m₁.store.portionMember? p name.lexeme = none) ∧
          m₁.store.portionMember? q name.lexeme = some member) ∧
      ∃ found m₂, Eval.instanceAttribute? object name.lexeme m₁ = .ok (some found) m₂ ∧
        member.RealizedAs m₂.store q found ∧
          Eval.evaluate (fuel + 1) ((s.feedAll inputs).lookup input) (.get target name) m =
            Eval.attributeValue fuel ((s.feedAll inputs).lookup input) found name m₂
  /-- What is bound to an object stays so. -/
  bound : ∀ {inputs m m' object c},
    s.Precedes inputs m m' →
      (∀ {function}, m.store.function? function = some c → m'.store.function? function = some c) ∧
        (m.store.Receives c.frame object → m'.store.Receives c.frame object)
  /-- While a body runs in the scope of an object, the word for it stands for this object. -/
  body : ∀ {inputs input fuel outer params body args place m object fuel' id keyword m'},
    (s.feedAll inputs).Comes input (fuel + 1) (.callBody outer params body args place) m →
    m.store.WorksOn object outer →
    Eval.Contains ((s.feedAll inputs).lookup input) fuel (.callBody outer params body args place) m
      (fuel' + 1) (.evaluate (.this id keyword)) m' →
      Eval.evaluate (fuel' + 1) ((s.feedAll inputs).lookup input) (.this id keyword) m' =
        .ok (.instance object) m'
  /-- An assignment to a field gives the object this value, and its base portions nothing. -/
  assigned : ∀ {inputs input fuel target name value m object m₁ v m₂ portion},
    (s.feedAll inputs).Comes input (fuel + 1) (.evaluate (.set target name value)) m →
    Eval.evaluate fuel ((s.feedAll inputs).lookup input) target m = .ok (.instance object) m₁ →
    Eval.evaluate fuel ((s.feedAll inputs).lookup input) value m₁ = .ok v m₂ →
    m₂.store.portion? object = some portion → ∃ after,
      Eval.evaluate (fuel + 1) ((s.feedAll inputs).lookup input) (.set target name value) m =
        .ok v after ∧
      after.store.field? object name.lexeme = some v ∧
      ∀ q ∈ m₂.store.portionChain object, q ≠ object → ∀ field,
        after.store.member? q field = m₂.store.member? q field
  /-- What is in a field is read from it. -/
  read : ∀ {inputs input fuel target name m object m₁ v},
    (s.feedAll inputs).Comes input (fuel + 1) (.evaluate (.get target name)) m →
    Eval.evaluate fuel ((s.feedAll inputs).lookup input) target m = .ok (.instance object) m₁ →
    m₁.store.field? object name.lexeme = some v →
      Eval.evaluate (fuel + 1) ((s.feedAll inputs).lookup input) (.get target name) m = .ok v m₁
  /-- A field stays as it is while a call runs that does not assign to it. -/
  kept : ∀ {inputs input fuel task m object field},
    (s.feedAll inputs).Comes input fuel task m →
    ¬Eval.Assigns ((s.feedAll inputs).lookup input) object field fuel task m →
      Store.KeepsField object field m.store
        (task.leaves fuel ((s.feedAll inputs).lookup input) m).store ∧
      ∀ {fuel' task' m'},
        Eval.Leads ((s.feedAll inputs).lookup input) fuel task m fuel' task' m' →
          Store.KeepsField object field m.store m'.store
  /-- A field stays as it is from input to input if no statement assigns to it. -/
  kept_between : ∀ {inputs input object field},
    (∀ {stmt m}, (s.feedAll inputs).Executes input stmt m →
      ¬Eval.Assigns ((s.feedAll inputs).lookup input) object field
        ((s.feedAll inputs).take input).2.bound (.execute stmt) m) →
      Store.KeepsField object field (s.feedAll inputs).machine.store
        ((s.feedAll inputs).feed input).machine.store

section Runs

variable {s : Session} {globals : StaticScope} {visits : List Visit} {input : Input}
  {fuel fuel' : Nat} {task task' : Eval.Task} {m m' m₁ : Machine} {e : Expr} {v : Value}

theorem Comes.contains (h : s.Comes input (fuel + 1) task m)
    (hcontains : Eval.Contains (s.lookup input) fuel task m fuel' task' m') :
    s.Comes input fuel' task' m' := by
  induction hcontains with
  | begins hbegins => exact h.begins hbegins
  | further _ _ hbegins ih => exact ih.begins hbegins

/-- The store where a call is made, and behind an expression. -/
theorem Comes.sound (h : s.Comes input fuel task m) (hsteady : Steady s globals visits) :
    ∃ record, m.store.Sound record := by
  obtain ⟨course, -, hfits⟩ := h.fits hsteady
  exact ⟨course, hfits.sound⟩

theorem Comes.sound_behind (h : s.Comes input fuel (.evaluate e) m)
    (hsteady : Steady s globals visits) (hidle : s.machine.Idle)
    (hrun : Eval.evaluate fuel (s.lookup input) e m = .ok v m₁) :
    (∃ record, m₁.store.Sound record) ∧ m₁.store.Whole := by
  obtain ⟨course, hlookup, hfits⟩ := h.fits hsteady
  obtain ⟨hready, hm⟩ := h.ready hidle
  have hbehind := ((holding (s.lookup input) fuel).evaluate m hready).ok hm hrun
  rw [← hlookup] at hrun
  have hstands : e.Stands course m := hfits
  exact ⟨⟨course, (hstands.evaluates.ok hrun).sound⟩, hbehind.1.store.whole⟩

end Runs

end Session

/-- A read of an attribute that is found, step by step. -/
theorem evaluate_get_of_found {fuel : Nat} {lookup : Lookup} {target : Expr} {name : Token}
    {m m₁ m₂ : Machine} {object : InstanceId} {found : Attribute}
    (htarget : Eval.evaluate fuel lookup target m = .ok (.instance object) m₁)
    (hfound : Eval.instanceAttribute? object name.lexeme m₁ = .ok (some found) m₂) :
    Eval.evaluate (fuel + 1) lookup (.get target name) m =
      Eval.attributeValue fuel lookup found name m₂ := by
  rw [Eval.evaluate, bind_of_ok htarget]
  dsimp only
  rw [bind_of_ok hfound]

/-- A method works on the portion of its object that belongs to its class, whatever inputs a session
is given: in its body the word for the object stands for this portion, and what is found there is
what the chain from this portion on has. -/
theorem methods_dispatch (bound : Nat) (settings : Settings) (host : Host) (sink : Sink) :
    (Session.startWithin bound settings host sink).Dispatches := by
  obtain ⟨globals, hstart⟩ := Steady.start bound settings host sink
  have hidle (inputs : List Input) :
      ((Session.startWithin bound settings host sink).feedAll inputs).machine.Idle :=
    Session.idle_feedAll (Machine.idle_start standardNatives host sink) inputs
  constructor
  case layered =>
    intro inputs input fuel task m object portion hcomes hportion
    obtain ⟨globals', hsteady⟩ := hstart.feedAll inputs
    obtain ⟨record, hsound⟩ := hcomes.sound hsteady
    exact hsound.layered hportion
  case found =>
    intro inputs input fuel target name m object m₁ q member hcomes htarget hmember
    obtain ⟨globals', hsteady⟩ := hstart.feedAll inputs
    have hfirst := hcomes.begins (.operand rfl)
    obtain ⟨-, hwhole⟩ := hfirst.sound_behind hsteady (hidle inputs) htarget
    obtain ⟨found, hfound, hrealized⟩ := hwhole.attribute?_realizes hmember
    have hrun : Eval.instanceAttribute? object name.lexeme m₁ =
        .ok (some found) { m₁ with store := (m₁.store.attribute? object name.lexeme).2 } :=
      congrArg (EStateM.Result.ok · _) hfound
    exact ⟨Store.member?_eq_some_iff.mp hmember, found, _, hrun, hrealized,
      evaluate_get_of_found htarget hrun⟩
  case bound =>
    intro inputs m m' object c hprecedes
    have hendures := hprecedes.endures hstart
    exact ⟨hendures.function, (·.endures hendures)⟩
  case body =>
    intro inputs input fuel outer params body args place m object fuel' id keyword m' hcomes hworks
      hcontains
    obtain ⟨globals', hsteady⟩ := hstart.feedAll inputs
    have hm := ((hcomes.contains hcontains).ready (hidle inputs)).2
    obtain ⟨course, hlookup, hfits⟩ := hcomes.fits hsteady
    rw [← hlookup] at hcontains ⊢
    obtain ⟨hthis, hinside⟩ := hcontains.worksOn hfits hworks
    obtain ⟨other, hother, hrun⟩ := hthis.evaluate_this hm (Session.stopsAt_of_lookup hlookup ..) fuel'
    rw [hinside.unique hother]
    exact hrun
  case assigned =>
    intro inputs input fuel target name value m object m₁ v m₂ portion hcomes htarget hvalue
      hportion
    obtain ⟨globals', hsteady⟩ := hstart.feedAll inputs
    have hinner := hcomes.begins (.assigned htarget (.inl ⟨object, rfl⟩))
    obtain ⟨⟨record, hsound⟩, -⟩ := hinner.sound_behind hsteady (hidle inputs) hvalue
    refine ⟨{ m₂ with store := m₂.store.setInstanceField object name.lexeme v }, ?_, ?_, ?_⟩
    · rw [Eval.evaluate, bind_of_ok htarget]
      dsimp only
      rw [bind_of_ok hvalue]
      rfl
    · obtain ⟨after, hafter, hfield⟩ : ∃ after,
          (m₂.store.setInstanceField object name.lexeme v).portion? object = some after ∧
            after.fields.find? name.lexeme = some v := Store.portion?_assigned hportion
      rw [Store.field?, hafter]
      exact hfield
    · exact fun q hmem hne => hsound.member?_assigned hportion hmem hne name.lexeme v
  case read =>
    intro inputs input fuel target name m object m₁ v hcomes htarget hfield
    obtain ⟨portion, hportion, hvalue⟩ := Option.bind_eq_some_iff.mp hfield
    have hfound : Eval.instanceAttribute? object name.lexeme m₁ = .ok (some (.value v)) m₁ := by
      show EStateM.Result.ok (m₁.store.attribute? object name.lexeme).1
        { m₁ with store := (m₁.store.attribute? object name.lexeme).2 } = _
      rw [Store.attribute?, Store.member?_of_field hportion hvalue]
      rfl
    rw [evaluate_get_of_found htarget hfound]
    cases fuel with
    | zero => cases htarget
    | succ fuel => rfl
  case kept =>
    intro inputs input fuel task m object field _ hnone
    exact ⟨keepingField _ object field fuel task m hnone, fun hleads => (hleads.keepsField hnone).2⟩
  case kept_between =>
    intro inputs input object field hnone
    rw [← ((Session.startWithin bound settings host sink).feedAll inputs).machine_take input |>.1]
    cases htake : (((Session.startWithin bound settings host sink).feedAll inputs).take input).1 with
    | none =>
      rw [Session.feed_of_rejected htake]
      exact .refl _
    | some program =>
      rw [Session.machine_feed htake]
      exact keepsField_interpret fun stmt reached hreached => hnone ⟨program, htake, hreached⟩

/-- A method that a class inherits is found on the portion of the base class, and bound to it. -/
theorem methods_dispatch_of_inherited :
    let s := (Session.startWithin 30 {} ⟨(0.0 : Float), []⟩ {}).feedAll
      [.line "class A \x7b k() \x7b\x7d \x7d class B < A \x7b\x7d var b = B();"]
    ∃ (target : Expr) (name : Token) (member : Member) (found : Attribute) (m m₁ m₂ : Machine),
      s.Comes (.line "b.k;") 29 (.evaluate (.get target name)) m ∧
      Eval.evaluate 28 (s.lookup (.line "b.k;")) target m = .ok (.instance ⟨1⟩) m₁ ∧
      m₁.store.portionMember? ⟨0⟩ name.lexeme = some member ∧
      Eval.instanceAttribute? ⟨1⟩ name.lexeme m₁ = .ok (some found) m₂ ∧
      member.RealizedAs m₂.store ⟨0⟩ found := by
  intro s
  let target : Expr := .variable 2 ⟨.identifier, "b", 1, ⟨0, 1⟩⟩
  let name : Token := ⟨.identifier, "k", 1, ⟨2, 3⟩⟩
  let m := (s.take (.line "b.k;")).2.machine
  have hdispatches := methods_dispatch 30 {} ⟨(0.0 : Float), []⟩ {}
  have hnumber : s.nextId = 2 := by decide +kernel
  have hstmt : s.Executes (.line "b.k;") (.expression (.get target name)) m :=
    Session.executes_line (by rw [hnumber]; rfl) (by decide +kernel)
  have hget : s.Comes (.line "b.k;") 29 (.evaluate (.get target name)) m :=
    (hstmt.comes (by decide +kernel)).begins (.expression rfl)
  have htarget := ok_of_run' (show (Eval.evaluate 28 (s.lookup (.line "b.k;")) target).run' m =
    some (.instance ⟨1⟩) by decide +kernel)
  let m₁ := (Eval.evaluate 28 (s.lookup (.line "b.k;")) target).leaves m
  obtain ⟨⟨q, member⟩, hmember, rfl⟩ := Option.map_eq_some_iff.mp (show
    (m₁.store.member? ⟨1⟩ name.lexeme).map Prod.fst = some ⟨0⟩ by decide +kernel)
  obtain ⟨⟨_, _, -, -, hportion⟩, found, m₂, hfound, hrealized, -⟩ :=
    hdispatches.found hget htarget hmember
  exact ⟨target, name, member, found, m, m₁, m₂, hget, htarget, hportion, hfound, hrealized⟩

/-- A method that a class inherits calls the method of the base class, and not the one that the
class overrides it with, and its object is not the one that it was called on. -/
theorem base_method_calls_base :
    ((Session.startWithin 40 {} ⟨(0.0 : Float), []⟩ {}).feed (.program
      "class A { m() { return true; } k() { return this.m(); } me() { return this; } }
       class B < A { m() { return false; } }
       var b = B(); println b.k(); println b.me() == b;")).machine.sink.text = "true\nfalse\n" := by
  decide +kernel

end LoxLang
