import LoxLang.Command

/-!
# The program

Gathers the files and the input that a command line asks for, carries the command out and passes its
outcome on. Input is read to its end before a command that takes input begins.
-/

open LoxLang

/-- The cause behind a failed call. Its number comes with either sign. -/
def failureOf (failure : IO.Error) : ReadFailure :=
  match failure with
  | .noFileOrDirectory .. => .missing
  | .permissionDenied .. => .denied
  | .inappropriateType _ code _ | .invalidArgument _ code _ =>
    match min code (-code) with
    | 20 => .notADirectory
    | 21 => .isADirectory
    | 36 => .nameTooLong
    | _ => .other (toString failure)
  | _ => .other (toString failure)

def readText (name : String) : IO (Except ReadFailure String) := do
  try
    let bytes ← IO.FS.readBinFile name
    return match String.fromUTF8? bytes with
      | some text => .ok text
      | none => .error .notText
  catch failure => return .error (failureOf failure)

def deliver (outcome : Outcome) : IO UInt32 := do
  IO.print outcome.stdout
  (← IO.getStdout).flush
  IO.eprint outcome.stderr
  return outcome.code.toUInt32

def main (args : List String) : IO UInt32 := do
  match Invocation.ofArguments args with
  | .error fault => deliver fault.outcome
  | .ok invocation =>
    if invocation.log then IO.FS.writeFile "app.log" ""
    let texts ← invocation.files.mapM fun name => return (name, ← readText name)
    let input ← match invocation.task with
      | .run _ | .repl => (← IO.getStdin).readToEnd
      | _ => pure ""
    let clock := Float.ofNat (← IO.monoMsNow) / 1000.0
    let files name := (texts.lookup name).getD (.error .missing)
    deliver (invocation.outcome files clock input)
