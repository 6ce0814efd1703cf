import LoxLang.Proofs.Machine.Arguments
import LoxLang.Proofs.Session.Dispatch

/-!
# Arguments of the calls of a session

Whatever inputs a session is given, a body that is entered finds one argument for each of its
parameters, on whichever way it was called (`Session.Supplied`). What a class asks for are the
parameters of the initializer that the making of an object runs.
-/

namespace LoxLang

namespace Session

/-- A session whose calls give each parameter its argument. -/
structure Supplied (s : Session) : Prop where
  /-- The frame of a call has an entry with its argument for each parameter, and no other. -/
  body : ∀ {inputs input fuel outer params body args place m},
    (s.feedAll inputs).Comes input fuel (.callBody outer params body args place) m →
      (Eval.parameterFrame params body args outer).Supplies params args
  /-- The body is executed in this frame. -/
  frame : ∀ {inputs input fuel outer params body args place m task m'},
    (s.feedAll inputs).Comes input (fuel + 1) (.callBody outer params body args place) m →
    Eval.Begins ((s.feedAll inputs).lookup input) fuel (.callBody outer params body args place) m
      task m' →
      task = .executeEach body ∧
        m'.store.frame? m'.here = some (Eval.parameterFrame params body args outer)
  /-- A class asks for the parameters of the nearest initializer of its chain. A call with so many
  arguments calls this initializer once, on the portion of a new object that belongs to the class of
  the initializer, and gives back the object. -/
  initialized : ∀ {inputs input fuel id k c paren args m},
    (s.feedAll inputs).Comes input (fuel + 2) (.invoke (.callable (.class id)) paren args) m →
    m.store.InitializedBy id k c →
      m.store.arity (.class id) = c.decl.params.length ∧
      (args.length = m.store.arity (.class id) → ∃ object portion bound after,
        m.store.instantiate id = (object, after) ∧ portion ∈ after.portionChain object ∧
        (after.portion? portion).map Portion.classId = some k ∧
        after.bind c portion = bound ∧ c.Binds bound.2 portion bound.1 ∧
        Eval.invoke (fuel + 2) ((s.feedAll inputs).lookup input) (.callable (.class id)) paren args
            m =
          (Eval.callFunction fuel ((s.feedAll inputs).lookup input) bound.1 args paren >>=
            fun _ => return .instance object) { m with store := bound.2 })
  /-- A class without an initializer asks for nothing, and to call it runs nothing. -/
  uninitialized : ∀ {inputs input fuel id paren args m},
    (s.feedAll inputs).Comes input (fuel + 2) (.invoke (.callable (.class id)) paren args) m →
    m.store.Uninitialized id →
      m.store.arity (.class id) = 0 ∧
      (args = [] → Eval.invoke (fuel + 2) ((s.feedAll inputs).lookup input) (.callable (.class id))
        paren args m = .ok (.instance (m.store.instantiate id).1)
          { m with store := (m.store.instantiate id).2 })

section Runs

variable {s : Session} {globals : StaticScope} {visits : List Visit} {input : Input} {fuel : Nat}
  {m : Machine} {id : ClassId} {paren : Token} {args : List Value}

/-- A class that is called is in the store. -/
theorem Comes.called (h : s.Comes input fuel (.invoke (.callable (.class id)) paren args) m)
    (hsteady : Steady s globals visits) (hidle : s.machine.Idle) :
    (∃ record, m.store.Sound record) ∧ m.store.Whole ∧ ∃ object, m.store.class? id = some object := by
  obtain ⟨⟨hknown, -⟩, hm⟩ := h.ready hidle
  exact ⟨h.sound hsteady, hm.store, Option.isSome_iff_exists.mp hknown⟩

end Runs

end Session

/-- Each parameter of a body that is entered gets its argument, whatever inputs a session is given,
and a class asks for the parameters of the one initializer that it runs. -/
theorem arguments_match_parameters (bound : Nat) (settings : Settings) (host : Host) (sink : Sink) :
    (Session.startWithin bound settings host sink).Supplied := by
  obtain ⟨globals, hstart⟩ := Steady.start bound settings host sink
  have hidle (inputs : List Input) :
      ((Session.startWithin bound settings host sink).feedAll inputs).machine.Idle :=
    Session.idle_feedAll (Machine.idle_start standardNatives host sink) inputs
  constructor
  case body =>
    intro inputs input fuel outer params body args place m hcomes
    obtain ⟨globals', hsteady⟩ := hstart.feedAll inputs
    obtain ⟨course, -, -, hlength, ribs, -, hfits⟩ := hcomes.fits hsteady
    exact supplies_parameterFrame hlength hfits.distinct body outer
  case frame =>
    intro inputs input fuel outer params body args place m task m' _ hbegins
    cases hbegins with
    | statements => exact ⟨rfl, (Store.frame?_addFrame ..).trans (if_pos rfl)⟩
  case initialized =>
    intro inputs input fuel id k c paren args m hcomes hinit
    obtain ⟨globals', hsteady⟩ := hstart.feedAll inputs
    obtain ⟨⟨record, hsound⟩, hwhole, object, hobject⟩ := hcomes.called hsteady (hidle inputs)
    refine ⟨hinit.arity, fun hlength => ?_⟩
    obtain ⟨portion, hmem, hclass, hrun⟩ :=
      hsound.invoke_class hobject hinit (hlength.trans hinit.arity)
    have hmade := (hwhole.instantiate id).1.whole
    obtain ⟨p, hportion, -⟩ := Option.map_eq_some_iff.mp hclass
    exact ⟨_, portion, _, _, rfl, hmem, hclass, rfl, ⟨rfl, rfl, (hmade.bind c hportion).2⟩, hrun⟩
  case uninitialized =>
    intro inputs input fuel id paren args m hcomes hnone
    obtain ⟨globals', hsteady⟩ := hstart.feedAll inputs
    obtain ⟨⟨record, hsound⟩, -, object, hobject⟩ := hcomes.called hsteady (hidle inputs)
    refine ⟨hnone.arity, ?_⟩
    rintro rfl
    exact hsound.invoke_bare_class hobject hnone

/-- A class without an initializer of its own asks for what the initializer of its base does, and runs
this one on the portion of the base. -/
theorem arguments_match_parameters_of_base :
    let s := (Session.startWithin 30 {} ⟨(0.0 : Float), []⟩ {}).feedAll
      [.line "class A \x7b init(x) \x7b\x7d \x7d class B < A \x7b\x7d"]
    ∃ (paren : Token) (c : Closure) (m : Machine) (object portion : InstanceId) (after : Store),
      s.Comes (.line "B(true);") 28 (.invoke (.callable (.class ⟨1⟩)) paren [.bool true]) m ∧
      m.store.InitializedBy ⟨1⟩ ⟨0⟩ c ∧ c.decl.params.length = 1 ∧
      m.store.instantiate ⟨1⟩ = (object, after) ∧
      (after.portion? portion).map Portion.classId = some ⟨0⟩ ∧
      Eval.invoke 28 (s.lookup (.line "B(true);")) (.callable (.class ⟨1⟩)) paren [.bool true] m =
        (Eval.callFunction 26 (s.lookup (.line "B(true);")) (after.bind c portion).1 [.bool true]
          paren >>= fun _ => return .instance object)
            { m with store := (after.bind c portion).2 } := by
  intro s
  let callee : Expr := .variable 1 ⟨.identifier, "B", 1, ⟨0, 1⟩⟩
  let argument : Expr := .literal (.bool true)
  let paren : Token := ⟨.symbol .rightParen, ")", 1, ⟨6, 7⟩⟩
  let m := (s.take (.line "B(true);")).2.machine
  have hsupplied := arguments_match_parameters 30 {} ⟨(0.0 : Float), []⟩ {}
  have hnumber : s.nextId = 1 := by decide +kernel
  have hstmt : s.Executes (.line "B(true);") (.expression (.call callee paren [argument])) m :=
    Session.executes_line (by rw [hnumber]; rfl) (by decide +kernel)
  have hcall : s.Comes (.line "B(true);") 29 (.evaluate (.call callee paren [argument])) m :=
    (hstmt.comes (by decide +kernel)).begins (.expression rfl)
  have hcallee := ok_of_run' (show (Eval.evaluate 28 (s.lookup (.line "B(true);")) callee).run' m =
    some (.callable (.class ⟨1⟩)) by decide +kernel)
  let m₁ := (Eval.evaluate 28 (s.lookup (.line "B(true);")) callee).leaves m
  have hcomes := hcall.begins (.call hcallee rfl)
  have harity : m₁.store.arity (.class ⟨1⟩) = 1 := by decide +kernel
  have hchain : m₁.store.classChain ⟨1⟩ = [⟨1⟩, ⟨0⟩] := by decide +kernel
  have hnone := Option.isNone_iff_eq_none.mp (show (m₁.store.initializerOf? ⟨1⟩).isNone
    by decide +kernel)
  obtain ⟨c, hc⟩ := Option.isSome_iff_exists.mp (show (m₁.store.initializerOf? ⟨0⟩).isSome
    by decide +kernel)
  have hinit : m₁.store.InitializedBy ⟨1⟩ ⟨0⟩ c :=
    ⟨[⟨1⟩], [], hchain, List.forall_mem_singleton.mpr hnone, hc⟩
  obtain ⟨hparams, hmakes⟩ := hsupplied.initialized hcomes hinit
  obtain ⟨object, portion, -, after, hobject, -, hclass, rfl, -, hrun⟩ := hmakes harity.symm
  exact ⟨paren, c, m₁, object, portion, after, hcomes, hinit, hparams.symm.trans harity, hobject,
    hclass, hrun⟩

/-- The nearest initializer is inherited, runs once, and takes the arguments. -/
example : ((Session.startWithin 40 {} ⟨(0.0 : Float), []⟩ {}).feed (.program
    "class A { init(x) { println x; } } class B < A {} class C < B {} C(true);")).machine.sink.text =
      "true\n" := by
  decide +kernel

end LoxLang
