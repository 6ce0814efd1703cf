import LoxLang.Binding.Analysis
import LoxLang.Grammar.Program
import LoxLang.Machine.Evaluate
import LoxLang.Token.Scan

/-!
# Sessions

Programs run one after another over the same globals. A program that scanning, parsing or analysis
rejects is not executed. After a run-time fault the names that the program did not come to declare
are forgotten.
-/

namespace LoxLang

structure Session where
  settings : Settings
  resolver : Resolver
  /-- The distances of all programs so far; their functions may still be called. -/
  distances : Distances
  machine : Machine
  log : Log
  /-- The number of the next node that names a binding. -/
  nextId : NodeId
  /-- The bound on the depth of each evaluation. -/
  bound : Nat

namespace Session

/-- A session before its first program. -/
def startWithin (bound : Nat) (settings : Settings) (host : Host) (sink : Sink) : Session where
  settings
  resolver := .ofGlobals (.globals (standardNatives.map Native.name))
  distances := ∅
  machine := .start standardNatives host sink
  log := .empty settings.maxErrors
  nextId := 0
  bound

def start (settings : Settings) (host : Host) (sink : Sink) : Session :=
  startWithin evaluationDepth settings host sink

/-- Add the distances of another program. -/
def noteDistances (known new : Distances) : Distances :=
  new.foldl (fun all id distance => all.insert id distance) known

/-- Execute an analysed program. -/
def interpret (s : Session) (program : List Stmt) : Bool × Session :=
  let { settings, resolver, distances, machine, log, nextId, bound } := s
  match machine.interpret bound { distances } program with
  | (.ok (), machine) => (true, { settings, resolver, distances, machine, log, nextId, bound })
  | (.error halt, machine) =>
    let log := match halt with
      | .error error => log.addFault error.toFault
      | .outOfFuel => log
    let resolver := resolver.retain machine.isGlobal
    (false, { settings, resolver, distances, machine, log, nextId, bound })

/-- Read the program of a source. There is none if scanning or parsing rejects it. -/
def read (s : Session) (source : String) (interactive : Bool) : Option (List Stmt) × Session :=
  let (tokens, faults) := scan source
  let s := { s with log := s.log.addFaults faults }
  if s.log.sawError then (none, s)
  else
    let parsed := Parse.program interactive s.nextId tokens
    (parsed.statements,
      { s with log := s.log.addFaults parsed.faults, nextId := parsed.nextId })

/-- Analyse a program. It is not executed if the analysis rejects it. -/
def resolve (s : Session) (program : List Stmt) : Option (List Stmt) × Session :=
  let bound := s.resolver.resolve s.settings s.log program
  let s := { s with resolver := bound.resolver, log := bound.log }
  match bound.distances with
  | none => (none, s)
  | some distances =>
    (some program, { s with distances := noteDistances s.distances distances })

/-- The program of a source, if it is to be executed. -/
def accept (s : Session) (source : String) (interactive : Bool) : Option (List Stmt) × Session :=
  match s.read source interactive with
  | (none, s) => (none, s)
  | (some program, s) => s.resolve program

/-- Run a program and tell whether it went without a fault. At an interactive prompt the value of a
bare expression is printed. -/
def execute (s : Session) (source : String) (interactive : Bool) : Bool × Session :=
  match s.accept source interactive with
  | (none, s) => (false, s)
  | (some program, s) => s.interpret program

/-- Run a whole program; its diagnostics join those of earlier ones. -/
def run (s : Session) (source : String) : Bool × Session :=
  s.execute source false

/-- Run one line of an interactive prompt, with a fresh log. -/
def runLine (s : Session) (line : String) : Bool × Session :=
  execute { s with log := s.log.reset } line true

/-- Zero if no error has been reported. -/
def exitCode (s : Session) : Nat :=
  if s.log.sawError then 1 else 0

/-- Take the output collected so far. -/
def collect (s : Session) : String × Session :=
  let (text, machine) := s.machine.collect
  (text, { s with machine })

end Session

end LoxLang
