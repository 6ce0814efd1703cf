import LoxLang.Token

/-!
# Faults

A failure as every stage reports it: what kind it is, what it says, and where it points. The stages
name their causes by types of their own and turn them into faults.
-/

namespace LoxLang

/-- What a failure at a place in a program is about. -/
inductive FaultKind
  /-- Malformed text. -/
  | lexical
  /-- A violation of the grammar, or a word where it has no meaning. -/
  | grammar
  /-- A name that the static analysis rejects. -/
  | binding
  /-- A value of the wrong type. -/
  | type
  /-- A name that is missing while the program runs. -/
  | name
  /-- Any other failure of a running program. -/
  | runtime
  deriving DecidableEq, Repr

def FaultKind.heading : FaultKind → String
  | lexical | grammar => "Syntax Error"
  | binding | name => "Name Error"
  | type => "Type Error"
  | runtime => "Runtime Error"

inductive Fault
  /-- A failure at a place in a program. -/
  | located (kind : FaultKind) (text : String) (token : Token)
  /-- A failure of the output device, in its own words. -/
  | device (text : String)

namespace Fault

/-- What went wrong, without kind and line. -/
def bare : Fault → String
  | located _ text _ => text
  | device text => text

/-- The line that reports the failure. -/
def message : Fault → String
  | located kind text token =>
    "[line " ++ toString token.line ++ "] " ++ kind.heading ++ ": " ++ text
  | device text => text

def token? : Fault → Option Token
  | located _ _ token => some token
  | device _ => none

end Fault

end LoxLang
