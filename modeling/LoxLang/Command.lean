import LoxLang.Command.Arguments
import LoxLang.Command.Files
import LoxLang.Session
import LoxLang.Syntax.Printer
import LoxLang.Text.Quoted
import LoxLang.Token.Json

/-!
# The command line

What each command answers, given the files it can read and all of its input: an exit code, the two
outputs, and whether a log file was asked for.
-/

namespace LoxLang

/-- What a command leaves behind. -/
structure Outcome where
  code : Nat := 0
  stdout : String := ""
  stderr : String := ""
  log : Bool := false

namespace Command

/-! ## Input lines -/

/-- Cut a text behind every line feed. -/
def linesOf : List Char → List (List Char)
  | [] => []
  | c :: cs =>
    if c = '\n' then [c] :: linesOf cs
    else match linesOf cs with
      | [] => [[c]]
      | line :: rest => (c :: line) :: rest

/-- A line without the line feeds and carriage returns at its end. -/
def trimLine (line : List Char) : String :=
  String.ofList (line.reverse.dropWhile fun c => c = '\n' || c = '\r').reverse

/-! ## Reports -/

/-- The failure to read a file of the given kind. -/
def unreadable (what name : String) (failure : ReadFailure) : Outcome where
  code := 1
  stderr := "Error: Failed to read " ++ what ++ " " ++ String.ofList (Text.quoted name.toList) ++
    "\n\nCaused by:\n    " ++ failure.message ++ "\n"

/-- The diagnostics of a log, each on lines of its own. One that cannot be rendered ends the
command. -/
def renderAll (log : Log) (source : String) : Except String String :=
  log.recorded.foldlM (fun text diagnostic =>
    match diagnostic.render? source with
    | some line => .ok (text ++ line ++ "\n")
    | none => .error text) ""

def broken (stdout stderr : String) : Outcome where
  code := 1
  stdout
  stderr := stderr ++ "Error: The interpreter thread panicked\n"

/-- An outcome with an output and the diagnostics of a log. -/
def report (stdout : String) (log : Log) (source : String) : Outcome :=
  match renderAll log source with
  | .ok stderr => { code := if log.sawError then 1 else 0, stdout, stderr }
  | .error stderr => broken stdout stderr

/-- Texts, each on a line of its own. -/
def unlines (lines : List String) : String :=
  lines.foldl (fun text line => text ++ line ++ "\n") ""

/-! ## Commands -/

def tokenize (settings : Settings) (json : Bool) (source : String) : Outcome :=
  let (tokens, faults) := scan source
  let stdout :=
    if json then String.ofList (Json.pretty 0 (.array (tokens.map Token.toJson))) ++ "\n"
    else unlines (tokens.map Token.display)
  report stdout ((Log.empty settings.maxErrors).addFaults faults) source

def parse (settings : Settings) (source : String) : Outcome :=
  let (tokens, faults) := scan source
  let log := (Log.empty settings.maxErrors).addFaults faults
  if log.sawError then report "" log source
  else
    let parsed := Parse.program false 0 tokens
    let stdout := unlines ((parsed.statements.getD []).map Stmt.render)
    report stdout (log.addFaults parsed.faults) source

def run (settings : Settings) (clock : Float) (input : String) (source : String) : Outcome :=
  let lines := (linesOf input.toList).map trimLine
  let (_, session) := (Session.start settings ⟨clock, lines⟩ {}).run source
  report session.machine.sink.text session.log source

/-- Answer one line after another. A running program takes lines from the same input, so the lines
it leaves are the next ones. The first argument bounds the number of lines. -/
def replLines : Nat → Session → List (List Char) → Outcome → Outcome
  | 0, _, _, outcome => { outcome with stdout := outcome.stdout ++ "> \n" }
  | _ + 1, _, [], outcome => { outcome with stdout := outcome.stdout ++ "> \n" }
  | fuel + 1, session, line :: rest, outcome =>
    let source := String.ofList line
    let host := { session.machine.host with lines := rest.map trimLine }
    let ready := { session with machine := { session.machine with host } }
    let (_, after) := ready.runLine source
    let (text, after) := after.collect
    let stdout := outcome.stdout ++ "> " ++ text
    match renderAll after.log source with
    | .error stderr => broken stdout (outcome.stderr ++ stderr)
    | .ok stderr =>
      let left := rest.drop (rest.length - after.machine.host.lines.length)
      replLines fuel after left { outcome with stdout, stderr := outcome.stderr ++ stderr }

def repl (settings : Settings) (clock : Float) (input : String) : Outcome :=
  let lines := linesOf input.toList
  replLines lines.length (Session.start settings ⟨clock, []⟩ {}) lines {}

/-- Work on the text of a file. -/
def withFile (files : Files) (name : String) (work : String → Outcome) : Outcome :=
  match files name with
  | .ok source => work source
  | .error failure => unreadable "file" name failure

def perform (task : Task) (settings : Settings) (files : Files) (clock : Float) (input : String) :
    Outcome :=
  match task with
  | .tokenize file json => withFile files file (tokenize settings json)
  | .parse file => withFile files file (parse settings)
  | .run file => withFile files file (run settings clock input)
  | .repl => repl settings clock input

/-- The settings of an invocation, or the outcome that stands for their failure. -/
def settingsOf (invocation : Invocation) (files : Files) : Except Outcome Settings := do
  let settings ← match invocation.config with
    | none => pure {}
    | some file =>
      match files file with
      | .error failure => throw (unreadable "flags file" file failure)
      | .ok text =>
        match Settings.ofText? text with
        | some settings => pure settings
        | none => throw { code := 1, stderr := "Error: Invalid flags file\n" }
  return { settings with
    warnUnused := settings.warnUnused && !invocation.noUnused
    warnShadow := settings.warnShadow && !invocation.noShadow }

end Command

namespace Invocation

/-- The files that an invocation may read. -/
def files (invocation : Invocation) : List String :=
  let sources := match invocation.task with
    | .tokenize file _ | .parse file | .run file => [file]
    | .repl => []
  invocation.config.toList ++ sources

/-- Carry out an invocation. -/
def outcome (invocation : Invocation) (files : Files) (clock : Float) (input : String) : Outcome :=
  let outcome := match Command.settingsOf invocation files with
    | .error failure => failure
    | .ok settings => Command.perform invocation.task settings files clock input
  { outcome with log := invocation.log }

end Invocation

/-- The outcome of a command line that is refused. -/
def UsageFault.outcome (fault : UsageFault) : Outcome where
  code := 2
  stderr := "error: " ++ fault.message ++ "\n"

end LoxLang
