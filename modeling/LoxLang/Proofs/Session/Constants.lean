import Mathlib.Logic.Relation
import LoxLang.Proofs.Machine.Declaring
import LoxLang.Proofs.Session.Signals

/-!
# Constants of a session

Whatever inputs a session is given, what is bound as a constant in any frame stays bound to the same
value from then on (`Session.Constant.stay`), and nothing that is bound is ever bound again. The
history of a session is a way from one moment to another (`Session.Precedes`), and its steps lie
inside of the run of one input (`Session.Passes`).
-/

namespace LoxLang

namespace Session

/-! ## Histories -/

/-- One moment of the run of an input and a later one. -/
inductive Passes (s : Session) (input : Input) : Machine → Machine → Prop
  /-- The input is read and analysed. -/
  | reads : Passes s input s.machine (s.take input).2.machine
  /-- A call makes another one. -/
  | begins {fuel task m task' m'} (h : s.Comes input (fuel + 1) task m)
    (hbegins : Eval.Begins (s.lookup input) fuel task m task' m') : Passes s input m m'
  /-- A call has been made, and ends. -/
  | ends {fuel task m} (h : s.Comes input fuel task m) :
    Passes s input m (task.leaves fuel (s.lookup input) m)
  /-- A call that another one made has ended, and then that one ends. -/
  | returns {fuel task m task' m'} (h : s.Comes input (fuel + 1) task m)
    (hbegins : Eval.Begins (s.lookup input) fuel task m task' m') :
    Passes s input (task'.leaves fuel (s.lookup input) m')
      (task.leaves (fuel + 1) (s.lookup input) m)
  /-- An object has been evaluated, and then one of its attributes is searched for. -/
  | searches {fuel object name m id m₁ found m₂}
    (h : s.Comes input (fuel + 1) (.evaluate (.get object name)) m)
    (hobject : Eval.evaluate fuel (s.lookup input) object m = .ok (.instance id) m₁)
    (hfound : Eval.instanceAttribute? id name.lexeme m₁ = .ok found m₂) : Passes s input m₁ m₂
  /-- A statement of the program has ended, and then the run ends. -/
  | stops {stmt m} (h : s.Executes input stmt m) :
    Passes s input ((Eval.execute (s.take input).2.bound (s.lookup input) stmt).leaves m)
      (s.feed input).machine
  /-- The run begins and ends. -/
  | whole : Passes s input (s.take input).2.machine (s.feed input).machine

/-- One moment in the history of a session and a later one. -/
def Precedes (s : Session) (inputs : List Input) : Machine → Machine → Prop :=
  Relation.ReflTransGen fun m m' =>
    ∃ done input rest, inputs = done ++ input :: rest ∧ (s.feedAll done).Passes input m m'

/-- A session whose constants never change. -/
structure Constant (s : Session) : Prop where
  /-- What is bound as a constant in any frame stays so, with its value. -/
  stay : ∀ {inputs m m'}, s.Precedes inputs m m' → m.store.Retains m'.store
  /-- A statement binds its name in a frame that does not bind it yet, as a constant unless it
  declares a variable. -/
  statement : ∀ {inputs input fuel stmt name kind m signal after},
    (s.feedAll inputs).Comes input (fuel + 1) (.execute stmt) m →
    stmt.declaration? = some (name, kind) →
    Eval.execute (fuel + 1) ((s.feedAll inputs).lookup input) stmt m = .ok signal after →
      ∃ m₁ value, stmt.Behind fuel ((s.feedAll inputs).lookup input) m m₁ ∧ m₁.here = m.here ∧
        m₁.store.slot? m.here name.lexeme = none ∧
        after.store.frames = (m₁.store.declare m.here name.lexeme value !kind.isMutable).frames
  /-- A call binds one parameter after another in a new frame, each where it is not bound yet. -/
  parameter : ∀ {inputs input fuel outer params body args place m before param behind},
    (s.feedAll inputs).Comes input fuel (.callBody outer params body args place) m →
    params = before ++ param :: behind →
      (Eval.parameterFrame before body args outer).names.find? param.lexeme = none
  /-- In the frame of an object `this` and `super` are constants. -/
  receiver : ∀ {inputs input fuel task m id frame decl name slot},
    (s.feedAll inputs).Comes input fuel task m →
    m.store.frame? id = some frame → frame.kind = .receiver decl →
    frame.names.find? name = some slot → slot.isConst
  /-- The built-in functions are bound one after another, each where it is not bound yet, as
  constants. -/
  native : ∀ {before given behind}, standardNatives = before ++ given :: behind →
    (Machine.start before s.machine.host s.machine.sink).store.slot? globalFrame given.name = none ∧
      ∃ id, s.machine.store.slot? globalFrame given.name =
        some ⟨some (.callable (.native id)), true⟩

/-! ## Runs of inputs -/

section Runs

variable {s : Session} {globals : StaticScope} {visits : List Visit} {input : Input}
  {program : List Stmt} {m m' : Machine}

theorem loaded_of_take (h : Steady s globals visits) (htake : (s.take input).1 = some program) :
    Loaded (s.take input).2 globals.rib program (visits ++ s.visits input) := by
  have hloaded := h.take input
  cases hinput : s.take input with
  | mk taken after =>
    rw [hinput] at hloaded htake
    cases htake
    exact hloaded

theorem machine_feed (htake : (s.take input).1 = some program) : (s.feed input).machine =
    ((s.take input).2.machine.interpret (s.take input).2.bound (s.lookup input) program).2 := by
  rw [feed_eq, lookup, table]
  cases hinput : s.take input with
  | mk taken after =>
    rw [hinput] at htake
    cases htake
    exact after.machine_interpret program

theorem feed_of_rejected (htake : (s.take input).1 = none) : s.feed input = (s.take input).2 := by
  rw [feed_eq]
  cases hinput : s.take input with
  | mk taken after =>
    rw [hinput] at htake
    cases htake
    rfl

/-- The run of an input is stopped at no node. -/
theorem stopsAt_of_lookup {course : Course} (h : course.lookup = s.lookup input) (id : NodeId)
    (name : Token) (m : Machine) : course.lookup.stopsAt id name m = false := by
  rw [h]
  rfl

/-- The run of an input comes to calls where their code was accepted. -/
theorem Comes.fits {fuel : Nat} {task : Eval.Task} (hcomes : s.Comes input fuel task m)
    (h : Steady s globals visits) :
    ∃ course : Course, course.lookup = s.lookup input ∧ task.Fits course m := by
  obtain ⟨program, htake, hcomes⟩ := hcomes
  have hloaded := loaded_of_take h htake
  let course := hloaded.course fun _ _ _ => false
  have hcomes : Machine.Comes _ course.lookup _ program fuel task m := hcomes
  exact ⟨course, rfl, hcomes.fits hloaded.rests hloaded.outermost hloaded.fits⟩

theorem Passes.endures (hpasses : s.Passes input m m') (h : Steady s globals visits) :
    m.store.Endures m'.store := by
  cases hpasses with
  | reads =>
    rw [(s.machine_take input).1]
    exact .refl _
  | begins hcomes hbegins =>
    obtain ⟨course, hlookup, hfits⟩ := hcomes.fits h
    rw [← hlookup] at hbegins
    exact (hbegins.lies hfits).before.endures
  | ends hcomes =>
    obtain ⟨course, hlookup, hfits⟩ := hcomes.fits h
    rw [← hlookup]
    exact hfits.endures
  | returns hcomes hbegins =>
    obtain ⟨course, hlookup, hfits⟩ := hcomes.fits h
    rw [← hlookup] at hbegins ⊢
    exact (hbegins.lies hfits).behind
  | @searches _ object _ _ _ _ _ _ hcomes hobject hfound =>
    obtain ⟨course, hlookup, hfits⟩ := hcomes.fits h
    rw [← hlookup] at hobject
    obtain ⟨ribs, hget, hplaced⟩ := Expr.Stands.fits hfits rfl
    have hfits : object.Fits course ribs := hget
    have h₁ := ((behaves course _).evaluate hfits hplaced).ok hobject
    exact (keeps_of_instanceAttribute? h₁.sound hfound).1.grows.endures
  | stops hexecutes =>
    obtain ⟨program, htake, hexecutes⟩ := hexecutes
    have hloaded := loaded_of_take h htake
    let course := hloaded.course fun _ _ _ => false
    have hexecutes : Machine.Executes _ course.lookup _ _ _ program := hexecutes
    rw [machine_feed htake]
    exact (hexecutes.fits hloaded.rests hloaded.outermost hloaded.fits).2
  | whole =>
    cases htake : (s.take input).1 with
    | none =>
      rw [feed_of_rejected htake]
      exact .refl _
    | some program =>
      have hloaded := loaded_of_take h htake
      let course := hloaded.course fun _ _ _ => false
      have hrests : Rests course _ (s.take input).2.machine := hloaded.rests
      rw [machine_feed htake]
      exact hrests.endures_interpret hloaded.outermost hloaded.fits

theorem Precedes.endures {inputs : List Input} (h : Steady s globals visits)
    (hprecedes : s.Precedes inputs m m') : m.store.Endures m'.store := by
  induction hprecedes with
  | refl => exact .refl _
  | tail _ hpasses ih =>
    obtain ⟨done, input, rest, -, hpasses⟩ := hpasses
    obtain ⟨globals', hsteady⟩ := h.feedAll done
    exact ih.trans (hpasses.endures hsteady)

end Runs

end Session

/-- Constants never change: in any session and whatever inputs it is given, no name is bound where it
is bound already, and what is bound as a constant stays so, with its value. -/
theorem constants_stay (bound : Nat) (settings : Settings) (host : Host) (sink : Sink) :
    (Session.startWithin bound settings host sink).Constant := by
  obtain ⟨globals, hstart⟩ := Steady.start bound settings host sink
  constructor
  case stay => exact fun hprecedes => (hprecedes.endures hstart).retains
  case statement =>
    intro inputs input fuel stmt name kind m signal after hcomes hname hrun
    obtain ⟨globals', hsteady⟩ := hstart.feedAll inputs
    obtain ⟨course, hlookup, ribs, hs, hhosts, hplaced⟩ := hcomes.fits hsteady
    rw [← hlookup] at hrun ⊢
    exact hs.binds_new hhosts hplaced hname hrun
  case parameter =>
    rintro inputs input fuel outer params body args place m before param behind hcomes rfl
    obtain ⟨globals', hsteady⟩ := hstart.feedAll inputs
    obtain ⟨course, -, -, -, ribs, -, hfits⟩ := hcomes.fits hsteady
    have hdistinct := hfits.distinct
    rw [List.map_append, List.map_cons, List.nodup_append] at hdistinct
    exact find?_parameterFrame fun hmem => hdistinct.2.2 _ hmem _ List.mem_cons_self rfl
  case receiver =>
    intro inputs input fuel task m id frame decl name slot hcomes hframe hkind hslot
    have hidle := Session.idle_feedAll (s := .startWithin bound settings host sink)
      (Machine.idle_start standardNatives host sink) inputs
    exact ((hcomes.ready hidle).2.store.frames hframe).receiver (by rw [hkind]; rfl) hslot
  case native =>
    intro before given behind hsplit
    have hdistinct : (standardNatives.map Native.name).Nodup := by decide
    rw [hsplit] at hdistinct
    have hbound := slot?_start host sink hdistinct
    rw [← hsplit] at hbound
    exact hbound

/-- A constant that a line declares is new in its frame, and a later line that declares a variable of
the same name in a block leaves it as it is. -/
theorem constants_stay_beside_variable :
    let s := Session.startWithin 30 {} ⟨(0.0 : Float), []⟩ {}
    let declares := Input.line "const a = nil;"
    let shadows := Input.line "\x7b var a = true; a = nil; \x7d"
    ∃ (stmt : Stmt) (m m₁ after : Machine) (value : Option Value), s.Executes declares stmt m ∧
      Eval.execute 30 (s.lookup declares) stmt m = .ok .completed after ∧
      m₁.store.slot? globalFrame "a" = none ∧
      after.store.frames = (m₁.store.declare globalFrame "a" value true).frames ∧
      ((s.feedAll [declares]).take shadows).2.machine.store.slot? globalFrame "a" =
        some ⟨some .nil, true⟩ ∧
      ((s.feedAll [declares]).feed shadows).machine.store.slot? globalFrame "a" =
        some ⟨some .nil, true⟩ := by
  intro s declares shadows
  let name : Token := ⟨.identifier, "a", 1, ⟨6, 7⟩⟩
  let stmt : Stmt := .const name (.literal .nil)
  let m := (s.take declares).2.machine
  have hconstant : s.Constant := constants_stay 30 {} ⟨(0.0 : Float), []⟩ {}
  have hprecedes : s.Precedes [declares, shadows] ((s.feedAll [declares]).take shadows).2.machine
      ((s.feedAll [declares]).feed shadows).machine := .single ⟨[declares], shadows, [], rfl, .whole⟩
  have hslot : ((s.feedAll [declares]).take shadows).2.machine.store.slot? globalFrame "a" =
      some ⟨some .nil, true⟩ := by decide +kernel
  have hnumber : s.nextId = 0 := by decide +kernel
  have hstmt : s.Executes declares stmt m :=
    Session.executes_line (by rw [hnumber]; rfl) (by decide +kernel)
  have hcomes : (s.feedAll []).Comes declares 30 (.execute stmt) m :=
    hstmt.comes (by decide +kernel)
  have hrun := ok_of_run' (show (Eval.execute 30 (s.lookup declares) stmt).run' m = some .completed
    by decide +kernel)
  obtain ⟨m₁, value, -, -, hnone, hframes⟩ := hconstant.statement hcomes rfl hrun
  have hhere : m.here = globalFrame := by decide +kernel
  rw [hhere] at hnone hframes
  exact ⟨stmt, m, m₁, _, value, hstmt, hrun, hnone, hframes, hslot,
    (hconstant.stay hprecedes).slot hslot rfl⟩

end LoxLang
