import LoxLang.Proofs.Binding.Visit
import LoxLang.Session

/-!
# Histories

What a session is given, one input after another, and what can be seen of it: the points at which
the analysis visited the nodes of the accepted programs, and the points of a run at which a node is
about to look its name up.
-/

namespace LoxLang

/-- What can happen to a session. -/
inductive Input
  /-- A whole program is run. -/
  | program (source : String)
  /-- A line of an interactive prompt is run. -/
  | line (source : String)
  /-- Nothing is run; time passes, lines are typed, or the output goes to another device. -/
  | outside (host : Host) (sink : Sink)

namespace Session

/-- The session after an input. -/
def feed (s : Session) : Input → Session
  | .program source => (s.run source).2
  | .line source => (s.runLine source).2
  | .outside host sink => { s with machine := { s.machine with host, sink } }

/-- The session after inputs, one after another. -/
def feedAll (s : Session) (inputs : List Input) : Session :=
  inputs.foldl feed s

/-- The program of an input, unless scanning or parsing rejects it. -/
def readInput (s : Session) : Input → Option (List Stmt) × Session
  | .program source => s.read source false
  | .line source => read { s with log := s.log.reset } source true
  | .outside host sink => (none, { s with machine := { s.machine with host, sink } })

/-- The program of an input, if it is to be executed. -/
def take (s : Session) (input : Input) : Option (List Stmt) × Session :=
  match s.readInput input with
  | (none, s) => (none, s)
  | (some program, s) => s.resolve program

/-- What a session makes of the end of a run. -/
def ending (s : Session) (after : Machine) : Except Halt Unit → Bool × Session
  | .ok () => (true, { s with machine := after })
  | .error halt =>
    (false, { s with
      resolver := s.resolver.retain after.isGlobal
      machine := after
      log := match halt with
        | .error error => s.log.addFault error.toFault
        | .outOfFuel => s.log })

theorem interpret_eq {s : Session} {program : List Stmt} {ended : Except Halt Unit} {after : Machine}
    (hrun : s.machine.interpret s.bound { distances := s.distances } program = (ended, after)) :
    s.interpret program = s.ending after ended := by
  simp only [interpret, hrun]
  cases ended <;> rfl

theorem exists_interpret (s : Session) (program : List Stmt) :
    ∃ ended after, s.interpret program = s.ending after ended :=
  ⟨_, _, interpret_eq rfl⟩

/-- The machine behind a program. -/
theorem machine_interpret (s : Session) (program : List Stmt) :
    (s.interpret program).2.machine =
      (s.machine.interpret s.bound { distances := s.distances } program).2 := by
  cases hrun : s.machine.interpret s.bound { distances := s.distances } program with
  | mk ended after =>
    rw [interpret_eq hrun]
    cases ended <;> rfl

theorem distances_interpret (s : Session) (program : List Stmt) :
    (s.interpret program).2.distances = s.distances := by
  obtain ⟨ended, after, hrun⟩ := s.exists_interpret program
  rw [hrun]
  cases ended <;> rfl

theorem execute_snd (s : Session) (source : String) (interactive : Bool) :
    (s.execute source interactive).2 = match s.accept source interactive with
      | (none, s) => s
      | (some program, s) => (s.interpret program).2 := by
  unfold execute
  cases s.accept source interactive with
  | mk accepted after => cases accepted <;> rfl

theorem feed_eq (s : Session) (input : Input) :
    s.feed input = match s.take input with
      | (none, s) => s
      | (some program, s) => (s.interpret program).2 := by
  cases input with
  | program source => exact s.execute_snd source false
  | line source => exact execute_snd { s with log := s.log.reset } source true
  | outside host sink => rfl

/-- The visits of the analysis to the nodes of a program, if it accepts the program. -/
def visitsOf (s : Session) (program : List Stmt) : List Visit :=
  if (s.resolver.resolve s.settings s.log program).distances.isSome then
    visitsOfBody s.settings program (s.resolver.opening s.log)
  else []

/-- The visits of the analysis to the nodes of an input, if it is accepted. -/
def visits (s : Session) (input : Input) : List Visit :=
  match s.readInput input with
  | (none, _) => []
  | (some program, s) => s.visitsOf program

/-- The visits of the analysis to the nodes of all inputs that are accepted. -/
def visitsAll (s : Session) : List Input → List Visit
  | [] => []
  | input :: rest => s.visits input ++ (s.feed input).visitsAll rest

/-- The first point of the run of an input at which a watch stops it. -/
def look? (s : Session) (input : Input) (stopsAt : NodeId → Token → Machine → Bool) : Option Look :=
  match s.take input with
  | (none, _) => none
  | (some program, s) => s.machine.look? s.bound { distances := s.distances, stopsAt } program

/-- How the run of an input ends, if there is one. -/
def outcome (s : Session) (input : Input) : Option (Except Halt Unit) :=
  match s.take input with
  | (none, _) => none
  | (some program, s) => some (s.machine.interpret s.bound { distances := s.distances } program).1

/-- The distances that the run of an input finds. -/
def table (s : Session) (input : Input) : Distances := (s.take input).2.distances

end Session

end LoxLang
