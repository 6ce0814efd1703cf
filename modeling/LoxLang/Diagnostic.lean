import LoxLang.Fault
import LoxLang.Text.Utf8

/-!
# Diagnostics

What a user is told about a program, with the source line it concerns, and the log that collects it.
The log records no more than a fixed number of diagnostics; past that number only its flags move.
-/

namespace LoxLang

inductive Severity
  | warning
  | error
  | fatal
  deriving DecidableEq, Repr

def Severity.name : Severity → String
  | warning => "warning"
  | error => "error"
  | fatal => "fatal"

structure Diagnostic where
  severity : Severity
  message : String
  token : Option Token

namespace Diagnostic

/-- The line of a source around a span, with the span underlined, under the line number `line`.
There is none if an end of the span lies inside a character. -/
def excerpt? (source : List Char) (span : Span) (line : Nat) : Option String :=
  match Text.splitAtByte? span.start source, Text.splitAtByte? span.stop source with
  | some (before, fromStart), some (_, after) =>
    match Text.splitAtByte? (span.stop - span.start) fromStart with
    | some (marked, _) =>
      let lead := Text.lastLine before
      let shown := lead ++ marked ++ Text.firstLine after
      let gutter := toString line
      let padding := String.ofList (List.replicate gutter.length ' ')
      let indent := String.ofList (List.replicate lead.length ' ')
      let underline := String.ofList
        (List.replicate (max 1 (Text.firstLine marked).length) '^')
      some ("\n    " ++ gutter ++ " | " ++ String.ofList shown ++ "\n    " ++ padding ++ "   " ++
        indent ++ underline)
    | none => none
  | _, _ => none

/-- The message, and the excerpt of `source` for a token that is not empty and lies inside it.
There is no text if the token's span does not fall between characters of `source`. -/
def render? (diagnostic : Diagnostic) (source : String) : Option String :=
  match diagnostic.token with
  | none => some diagnostic.message
  | some token =>
    if token.span.stop ≤ token.span.start ∨ source.utf8ByteSize < token.span.stop then
      some diagnostic.message
    else
      (excerpt? source.toList token.span token.line).map fun excerpt =>
        diagnostic.message ++ excerpt

end Diagnostic

/-- The diagnostics of a run. `cap` is the number of them that are recorded. -/
structure Log where
  recorded : List Diagnostic := []
  sawError : Bool := false
  sawWarning : Bool := false
  cap : Nat := 100

namespace Log

def empty (cap : Nat) : Log := { cap }

/-- Whether diagnostics have been left out. -/
def overflowed (log : Log) : Bool :=
  decide (log.cap < log.recorded.length)

/-- The note that stands for everything past the cap. -/
def overflowNote (cap : Nat) : Diagnostic :=
  ⟨.fatal, "Too many errors (" ++ toString cap ++ "), further diagnostics suppressed", none⟩

/-- Record a diagnostic as far as the cap allows. -/
def record (log : Log) (diagnostic : Diagnostic) : List Diagnostic :=
  if log.overflowed then log.recorded
  else if log.recorded.length = log.cap then log.recorded ++ [overflowNote log.cap]
  else log.recorded ++ [diagnostic]

def add (log : Log) (diagnostic : Diagnostic) : Log :=
  { log with
    recorded := log.record diagnostic
    sawError := log.sawError || diagnostic.severity != .warning
    sawWarning := log.sawWarning || diagnostic.severity == .warning }

def addFault (log : Log) (fault : Fault) : Log :=
  log.add ⟨.error, fault.message, fault.token?⟩

def addFaults (log : Log) (faults : List Fault) : Log :=
  faults.foldl addFault log

def count (log : Log) (severity : Severity) : Nat :=
  log.recorded.countP fun diagnostic => diagnostic.severity == severity

/-- Forget all diagnostics. -/
def reset (log : Log) : Log :=
  empty log.cap

@[simp] theorem cap_add (log : Log) (diagnostic : Diagnostic) :
    (log.add diagnostic).cap = log.cap := rfl

@[simp] theorem cap_reset (log : Log) : log.reset.cap = log.cap := rfl

/-- An error stays seen. -/
theorem sawError_add (log : Log) (diagnostic : Diagnostic) :
    (log.add diagnostic).sawError = (log.sawError || diagnostic.severity != .warning) := rfl

end Log

end LoxLang
