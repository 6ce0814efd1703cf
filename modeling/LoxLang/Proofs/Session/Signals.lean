import LoxLang.Proofs.Binding.Returning
import LoxLang.Proofs.Machine.CutShort
import LoxLang.Proofs.Machine.Results
import LoxLang.Proofs.Session.Steady
import LoxLang.Proofs.Session.WellFormed

/-!
# Signals in sessions

The grammar keeps jumps inside of loops and the analysis keeps returns inside of functions, so no
statement of an accepted program ends with a signal (`Session.ends_accepted`). The machine of a
session is idle between inputs, so the calls that a run comes to are ready, and their results are
those of ready calls: signals stay inside of loops and bodies, and initializers and classes give
back objects (`confined_feedAll`).
-/

namespace LoxLang

namespace Session

/-! ## Runs of inputs -/

section Runs

variable (s : Session) (input : Input)

/-- The distances with which the program of an input runs. -/
def lookup : Lookup := { distances := s.table input }

/-- The run of an input comes to a statement of its program. -/
def Executes (stmt : Stmt) (m : Machine) : Prop :=
  ∃ program, (s.take input).1 = some program ∧
    m.Executes (s.take input).2.bound (s.lookup input) stmt (s.take input).2.machine program

/-- The run of an input comes to a call, with a bound on its depth and a machine. -/
def Comes (fuel : Nat) (task : Eval.Task) (m : Machine) : Prop :=
  ∃ program, (s.take input).1 = some program ∧
    (s.take input).2.machine.Comes (s.take input).2.bound (s.lookup input) program fuel task m

end Runs

section Runs

variable {s : Session} {input : Input} {fuel : Nat} {task task' : Eval.Task} {m m' : Machine}

theorem Executes.comes {stmt : Stmt} (h : s.Executes input stmt m)
    (hbound : (s.take input).2.bound = fuel) : s.Comes input fuel (.execute stmt) m := by
  obtain ⟨program, htake, hexecutes⟩ := h
  exact ⟨program, htake, hbound ▸ .statement hexecutes⟩

theorem Comes.begins (h : s.Comes input (fuel + 1) task m)
    (hbegins : Eval.Begins (s.lookup input) fuel task m task' m') : s.Comes input fuel task' m' :=
  let ⟨program, htake, hcomes⟩ := h
  ⟨program, htake, .call hcomes hbegins⟩

end Runs

/-- A bound cuts the run of an input short just if the run comes to a call that meets it. -/
theorem outcome_eq_limit_iff {s : Session} {input : Input} {halt : Halt} (hlimit : halt.isLimit) :
    s.outcome input = some (.error halt) ↔
      ∃ fuel task m, s.Comes input fuel task m ∧ task.AtLimit halt fuel m := by
  unfold outcome Comes lookup table
  cases s.take input with
  | mk taken after =>
    cases taken with
    | none =>
      constructor
      · intro h
        cases h
      · rintro ⟨fuel, task, m, ⟨program, htake, -⟩, -⟩
        cases htake
    | some program =>
      dsimp only
      rw [Option.some_inj, Machine.cutShort_iff hlimit]
      constructor
      · rintro ⟨fuel, task, m, hcomes, hmeets⟩
        exact ⟨fuel, task, m, ⟨program, rfl, hcomes⟩, hmeets⟩
      · rintro ⟨fuel, task, m, ⟨_, htake, hcomes⟩, hmeets⟩
        cases htake
        exact ⟨fuel, task, m, hcomes, hmeets⟩

/-- A run that is cut short comes to a call with nothing left of the bound. -/
theorem Comes.exists_zero {s : Session} {input : Input}
    (h : s.outcome input = some (.error .outOfFuel)) : ∃ task m, s.Comes input 0 task m := by
  obtain ⟨fuel, task, m, hcomes, hmeets⟩ := (outcome_eq_limit_iff rfl).mp h
  cases hmeets
  exact ⟨task, m, hcomes⟩

/-- How calls end that go well in the run of an input. -/
structure Confined (s : Session) (input : Input) : Prop where
  /-- No call is left out: if the run is cut short, it comes to a call with nothing left of the
  bound on the depth. -/
  exhaustive : s.outcome input = some (.error .outOfFuel) → ∃ task m, s.Comes input 0 task m
  /-- A statement of the program completes. -/
  statement : ∀ {stmt m signal after}, s.Executes input stmt m →
    Eval.execute (s.take input).2.bound (s.lookup input) stmt m = .ok signal after →
      signal = .completed
  /-- The body of a function, a method, a getter or an arrow completes or returns. -/
  body : ∀ {fuel outer params body args place m signal after},
    s.Comes input fuel (.callBody outer params body args place) m →
    Eval.callBody fuel (s.lookup input) outer params body args place m = .ok signal after →
      signal.Leaves
  /-- A loop completes or returns. -/
  loop : ∀ {fuel stmt m signal after}, s.Comes input fuel (.execute stmt) m → stmt.isLoop →
    Eval.execute fuel (s.lookup input) stmt m = .ok signal after → signal.Leaves
  /-- An initializer gives back the object that `this` is in it. -/
  initializer : ∀ {fuel c args place m value after},
    s.Comes input fuel (.callFunction c args place) m → c.isInitializer →
    Eval.callFunction fuel (s.lookup input) c args place m = .ok value after →
      ∃ object, m.store.Receives c.frame object ∧ value = .instance object
  /-- A call of `x.init` or `super.init` gives back the portion whose method it is. -/
  init : ∀ {fuel callee paren arguments id portion c m m₁ value after},
    s.Comes input (fuel + 2) (.evaluate (.call callee paren arguments)) m →
    SeeksInit (s.lookup input) fuel m callee id m₁ →
    m₁.store.member? id "init" = some (portion, .method c) →
    Eval.evaluate (fuel + 2) (s.lookup input) (.call callee paren arguments) m = .ok value after →
      value = .instance portion
  /-- A call of a class gives back a new instance of it. -/
  construction : ∀ {fuel callee paren arguments id args m m₁ m₂ value after},
    s.Comes input (fuel + 1) (.evaluate (.call callee paren arguments)) m →
    Eval.evaluate fuel (s.lookup input) callee m = .ok (.callable (.class id)) m₁ →
    Eval.evaluateEach fuel (s.lookup input) arguments m₁ = .ok args m₂ →
    Eval.evaluate (fuel + 1) (s.lookup input) (.call callee paren arguments) m = .ok value after →
      value.IsNew id m₂.store after.store

/-! ## Machines of sessions -/

section Machines

variable {s : Session} {input : Input}

/-- Until it runs, an input changes at most the host and the sink of the machine. -/
theorem exists_machine_take (s : Session) (input : Input) :
    ∃ host sink, (s.take input).2.machine = { s.machine with host, sink } := by
  have hread : ∃ host sink, (s.readInput input).2.machine = { s.machine with host, sink } := by
    cases input with
    | program source => exact ⟨_, _, (s.read_wellFormed source false).1⟩
    | line source => exact ⟨_, _, (read_wellFormed { s with log := s.log.reset } source true).1⟩
    | outside host sink => exact ⟨host, sink, rfl⟩
  unfold take
  cases hinput : s.readInput input with
  | mk parsed after =>
    rw [hinput] at hread
    cases parsed with
    | none => exact hread
    | some program =>
      obtain ⟨hmachine, -⟩ := after.resolve_program program
      dsimp only
      rw [hmachine]
      exact hread

theorem machine_take (s : Session) (input : Input) :
    (s.take input).2.machine.store = s.machine.store ∧
      (s.take input).2.machine.here = s.machine.here := by
  obtain ⟨host, sink, hmachine⟩ := s.exists_machine_take input
  rw [hmachine]
  exact ⟨rfl, rfl⟩

theorem idle_take (h : s.machine.Idle) (input : Input) : (s.take input).2.machine.Idle :=
  have htaken := s.machine_take input
  h.congr htaken.1 htaken.2

theorem idle_feed (h : s.machine.Idle) (input : Input) : (s.feed input).machine.Idle := by
  obtain ⟨-, hprogram⟩ := take_wellFormed h.store.tidy input
  have htaken := idle_take h input
  rw [feed_eq]
  cases htake : s.take input with
  | mk taken after =>
    rw [htake] at hprogram htaken
    cases taken with
    | none => exact htaken
    | some program =>
      show (after.interpret program).2.machine.Idle
      rw [machine_interpret]
      exact htaken.interpret (hprogram program rfl)

theorem idle_feedAll (h : s.machine.Idle) (inputs : List Input) :
    (s.feedAll inputs).machine.Idle := by
  induction inputs generalizing s with
  | nil => exact h
  | cons input rest ih => exact ih (idle_feed h input)

/-- The calls that the run of an input comes to are ready. -/
theorem Comes.ready {fuel : Nat} {task : Eval.Task} {m : Machine} (h : s.Comes input fuel task m)
    (hidle : s.machine.Idle) : task.Ready m.store ∧ m.Whole := by
  obtain ⟨program, htake, hcomes⟩ := h
  obtain ⟨-, hprogram⟩ := take_wellFormed hidle.store.tidy input
  exact hcomes.ready (hprogram program htake) (idle_take hidle input).toWhole

end Machines

/-! ## Accepted programs -/

section Accepted

variable {s : Session} {input : Input} {program : List Stmt}

/-- The analysis finds no fault in what it accepts. -/
theorem accepted_of_resolve {accepted : List Stmt} (h : (s.resolve program).1 = some accepted) :
    accepted = program ∧ (s.resolver.closing s.settings s.log program).failed = false := by
  obtain ⟨-, hsame⟩ := s.resolve_program program
  refine ⟨hsame accepted h, ?_⟩
  unfold resolve at h
  dsimp only at h
  split at h
  · cases h
  · next htable => exact (Resolver.accepted htable).1

theorem accepted_of_take (h : (s.take input).1 = some program) :
    (s.readInput input).1 = some program ∧
      ((s.readInput input).2.resolver.closing (s.readInput input).2.settings
        (s.readInput input).2.log program).failed = false := by
  unfold take at h
  cases hread : s.readInput input with
  | mk parsed after =>
    rw [hread] at h
    cases parsed with
    | none => cases h
    | some read =>
      obtain ⟨rfl, haccepted⟩ := accepted_of_resolve h
      exact ⟨rfl, haccepted⟩

/-- A line of one statement that is accepted executes it first. -/
theorem executes_line {line : String} {stmt : Stmt}
    (hparses : (Parse.program true s.nextId (scan line).1).statements = some [stmt])
    (h : (s.take (.line line)).1.isSome = true) :
    s.Executes (.line line) stmt (s.take (.line line)).2.machine := by
  obtain ⟨program, htake⟩ := Option.isSome_iff_exists.mp h
  obtain ⟨hread, -⟩ := accepted_of_take htake
  unfold readInput read at hread
  dsimp only at hread
  split at hread
  · cases hread
  · cases hparses.symm.trans hread
    exact ⟨_, htake, .here⟩

/-- The statements of an accepted program only complete. -/
theorem ends_accepted {globals : StaticScope} {visits : List Visit} (h : Steady s globals visits)
    (htake : (s.take input).1 = some program) {stmt : Stmt} (hstmt : stmt ∈ program)
    (hformed : stmt.WellFormed false) {signal : Signal} (hends : stmt.Ends signal) :
    signal = .completed := by
  obtain ⟨hread, haccepted⟩ := accepted_of_take htake
  obtain ⟨hsteady, hmade⟩ := h.readInput input
  obtain ⟨firstId, -, hprogram⟩ := hmade program hread
  have hjump : ¬signal.IsJump := fun hjump => Bool.false_ne_true (hends.inLoop hformed hjump)
  cases signal with
  | completed => rfl
  | broke => exact absurd (.inl rfl) hjump
  | continued => exact absurd (.inr rfl) hjump
  | returned value =>
    have hrole : ((s.readInput input).2.resolver.opening
        (s.readInput input).2.log).around.functionRole = .none := by
      rw [hsteady.resolver]
      rfl
    exact absurd hends (forall_not_returned hprogram.regular haccepted hrole stmt hstmt)

end Accepted

end Session

/-- Signals stay inside of loops and bodies in every run of a program that is accepted, and calls of
initializers and classes give back objects. -/
theorem confined_feedAll (bound : Nat) (settings : Settings) (host : Host) (sink : Sink)
    (inputs : List Input) (input : Input) :
    ((Session.startWithin bound settings host sink).feedAll inputs).Confined input := by
  obtain ⟨globals, hstart⟩ := Steady.start bound settings host sink
  obtain ⟨globals', hsteady⟩ := hstart.feedAll inputs
  have hidle := Session.idle_feedAll (s := .startWithin bound settings host sink)
    (Machine.idle_start standardNatives host sink) inputs
  constructor
  case exhaustive => exact Session.Comes.exists_zero
  case statement =>
    rintro stmt m signal after ⟨program, htake, hreached⟩ hrun
    obtain ⟨-, hprogram⟩ := Session.take_wellFormed hidle.store.tidy input
    obtain ⟨hstmt, hformed, -⟩ := hreached.ready (hprogram program htake)
      (Session.idle_take hidle input).toWhole
    exact Session.ends_accepted hsteady htake hstmt hformed (((ending _ _).execute stmt).ok hrun)
  case body =>
    intro fuel outer params body args place m signal after hcomes hrun
    obtain ⟨⟨hbody, -⟩, -⟩ := hcomes.ready hidle
    exact body_result hbody hrun
  case loop =>
    intro fuel stmt m signal after _ hloop hrun
    exact loop_result hloop hrun
  case initializer =>
    intro fuel c args place m value after hcomes hinit hrun
    obtain ⟨⟨⟨hdecl, hbound⟩, hargs⟩, hm⟩ := hcomes.ready hidle
    obtain ⟨object, hobject⟩ := hbound hinit
    exact ⟨object, hobject, initializer_result hm hdecl hargs hinit hobject hrun⟩
  case init =>
    intro fuel callee paren arguments id portion c m m₁ value after hcomes hseeks hmember hrun
    obtain ⟨hcall, hm⟩ := hcomes.ready hidle
    exact init_result hcall hm hseeks hmember hrun
  case construction =>
    intro fuel callee paren arguments id args m m₁ m₂ value after hcomes hcallee hargs hrun
    obtain ⟨hcall, hm⟩ := hcomes.ready hidle
    exact construction_result hcall hm hcallee hargs hrun

/-- The statement that makes an object completes, and what it makes is a new object. -/
theorem confined_feedAll_of_construction :
    let s := (Session.startWithin 30 {} ⟨(0.0 : Float), []⟩ {}).feedAll
      [.line "class A \x7b init() \x7b return; \x7d \x7d"]
    ∃ callee paren m before after final,
      s.Executes (.line "A();") (.expression (.call callee paren [])) m ∧
      Eval.execute 30 (s.lookup (.line "A();")) (.expression (.call callee paren [])) m =
        .ok .completed final ∧
      Eval.evaluate 28 (s.lookup (.line "A();")) callee m = .ok (.callable (.class ⟨0⟩)) before ∧
      Eval.evaluate 29 (s.lookup (.line "A();")) (.call callee paren []) m =
        .ok (.instance ⟨0⟩) after ∧
      (Value.instance ⟨0⟩).IsNew ⟨0⟩ before.store after.store := by
  intro s
  let callee : Expr := .variable 0 ⟨.identifier, "A", 1, ⟨0, 1⟩⟩
  let paren : Token := ⟨.symbol .rightParen, ")", 1, ⟨2, 3⟩⟩
  let m := (s.take (.line "A();")).2.machine
  have hconfined : s.Confined (.line "A();") := confined_feedAll 30 {} ⟨(0.0 : Float), []⟩ {} _ _
  have hnumber : s.nextId = 0 := by decide +kernel
  have hbound : (s.take (.line "A();")).2.bound = 30 := by decide +kernel
  have hstmt : s.Executes (.line "A();") (.expression (.call callee paren [])) m :=
    Session.executes_line (by rw [hnumber]; rfl) (by decide +kernel)
  have hcall := (hstmt.comes hbound).begins (.expression rfl)
  have hclass := ok_of_run' (show (Eval.evaluate 28 (s.lookup (.line "A();")) callee).run' m =
    some (.callable (.class ⟨0⟩)) by decide +kernel)
  have hmade := ok_of_run' (show
    (Eval.evaluate 29 (s.lookup (.line "A();")) (.call callee paren [])).run' m =
      some (.instance ⟨0⟩) by decide +kernel)
  obtain ⟨signal, hsignal⟩ := Option.isSome_iff_exists.mp (show
    ((Eval.execute 30 (s.lookup (.line "A();")) (.expression (.call callee paren []))).run' m).isSome
      by decide +kernel)
  have hrun := ok_of_run' hsignal
  have hcompleted : signal = .completed := hconfined.statement hstmt (hbound ▸ hrun)
  subst hcompleted
  exact ⟨callee, paren, m, _, _, _, hstmt, hrun, hclass, hmade,
    hconfined.construction hcall hclass rfl hmade⟩

/-- An initializer that returns out of a loop gives back its object. -/
example : (((Session.startWithin 40 {} ⟨(0.0 : Float), []⟩ {}).outcome (.program
    "class A \x7b init() \x7b while true \x7b return; \x7d \x7d \x7d
      var a = A(); assert a.init() == a;")).any fun result => result.isOk) = true := by
  decide +kernel

end LoxLang
