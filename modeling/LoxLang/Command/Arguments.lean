/-!
# Arguments

What a command line asks for. The options that every command takes may stand before the command and
again behind it; within either place each is given once at most.
-/

namespace LoxLang

/-- What is to be done, with the name of the program's file. -/
inductive Task
  | tokenize (file : String) (json : Bool)
  | parse (file : String)
  | run (file : String)
  | repl
  deriving DecidableEq, Repr

/-- The options that every command takes. -/
structure Options where
  /-- Whether a log file is made. -/
  log : Bool := false
  /-- The file of the settings. -/
  config : Option String := none
  noUnused : Bool := false
  noShadow : Bool := false
  deriving DecidableEq, Repr

/-- Options together with those that follow them. Of two files of settings the latter counts. -/
def Options.followedBy (before after : Options) : Options where
  log := before.log || after.log
  config := after.config.or before.config
  noUnused := before.noUnused || after.noUnused
  noShadow := before.noShadow || after.noShadow

structure Invocation extends Options where
  task : Task
  deriving DecidableEq, Repr

/-- What a command line holds before it is known to be complete. -/
structure Arguments where
  /-- The options before the command. -/
  before : Options := {}
  /-- The options behind the command, or those before it while it has not come yet. -/
  options : Options := {}
  json : Bool := false
  /-- The command and what it works on. -/
  positional : List String := []

/-- Why a command line is refused. -/
inductive UsageFault
  | repeated (option : String)
  | unknown (option : String)
  | noValue (option : String)
  | noCommand
  | notACommand (word : String)
  | noFile
  | tooMany (word : String)
  deriving DecidableEq, Repr

def UsageFault.message : UsageFault → String
  | repeated option => "the option " ++ option ++ " is given twice"
  | unknown option => "there is no option " ++ option ++ " here"
  | noValue option => "the option " ++ option ++ " lacks its value"
  | noCommand => "a command is missing: tokenize, parse, run or repl"
  | notACommand word => word ++ " is no command"
  | noFile => "the name of a file is missing"
  | tooMany word => "the argument " ++ word ++ " is one too many"

namespace Arguments

/-- Set an option that has not been set in this place before. -/
def once (given : Bool) (option : String) (set : Arguments) : Except UsageFault Arguments :=
  if given then .error (.repeated option) else .ok set

def setLog (a : Arguments) : Except UsageFault Arguments :=
  once a.options.log "--log" { a with options := { a.options with log := true } }

def setNoUnused (a : Arguments) : Except UsageFault Arguments :=
  once a.options.noUnused "--no-wunused" { a with options := { a.options with noUnused := true } }

def setNoShadow (a : Arguments) : Except UsageFault Arguments :=
  once a.options.noShadow "--no-wshadow" { a with options := { a.options with noShadow := true } }

def setConfig (a : Arguments) (file : String) : Except UsageFault Arguments :=
  if file.isEmpty then .error (.noValue "--config")
  else
    once a.options.config.isSome "--config"
      { a with options := { a.options with config := some file } }

/-- Only a command that writes tokens takes `--json`. -/
def setJson (a : Arguments) : Except UsageFault Arguments :=
  if a.positional.head? = some "tokenize" then once a.json "--json" { a with json := true }
  else .error (.unknown "--json")

/-- Add an argument that is no option. The first one is the command. -/
def push (a : Arguments) (word : String) : Arguments :=
  if a.positional.isEmpty then { a with before := a.options, options := {}, positional := [word] }
  else { a with positional := a.positional ++ [word] }

/-- Read the arguments one by one. Behind `--`, which follows the command, there are no options. -/
def read (a : Arguments) : List String → Except UsageFault Arguments
  | [] => .ok a
  | "--" :: rest => if a.positional.isEmpty then .error .noCommand else .ok (rest.foldl push a)
  | "--log" :: rest => do
    let a ← a.setLog
    a.read rest
  | "--no-wunused" :: rest => do
    let a ← a.setNoUnused
    a.read rest
  | "--no-wshadow" :: rest => do
    let a ← a.setNoShadow
    a.read rest
  | "--json" :: rest => do
    let a ← a.setJson
    a.read rest
  | ["--config"] => .error (.noValue "--config")
  | "--config" :: file :: rest =>
    if file.startsWith "-" && file ≠ "-" then .error (.noValue "--config")
    else do
      let a ← a.setConfig file
      a.read rest
  | word :: rest =>
    if word.startsWith "--config=" then do
      let a ← a.setConfig (String.ofList (word.toList.drop 9))
      a.read rest
    else if word.startsWith "-" && word ≠ "-" then .error (.unknown word)
    else (a.push word).read rest

/-- The one file that a command works on. -/
def file : List String → Except UsageFault String
  | [] => .error .noFile
  | [file] => if file.isEmpty then .error .noFile else .ok file
  | _ :: word :: _ => .error (.tooMany word)

def task (a : Arguments) : Except UsageFault Task :=
  match a.positional with
  | [] => .error .noCommand
  | "tokenize" :: rest => (file rest).map fun file => .tokenize file a.json
  | "parse" :: rest => (file rest).map .parse
  | "run" :: rest => (file rest).map .run
  | ["repl"] => .ok .repl
  | "repl" :: word :: _ => .error (.tooMany word)
  | word :: _ => .error (.notACommand word)

end Arguments

/-- The invocation that a command line spells. -/
def Invocation.ofArguments (words : List String) : Except UsageFault Invocation := do
  let a ← Arguments.read {} words
  let task ← a.task
  return { a.before.followedBy a.options with task }

end LoxLang
