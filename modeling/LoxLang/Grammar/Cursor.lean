import LoxLang.Fault
import LoxLang.Syntax

/-!
# Reading tokens

The state of a parse and its single steps: looking at the next token, taking it, asking for one of a
kind, and noting a fault that does not stop the parse.
-/

namespace LoxLang

/-- A violation of the grammar. -/
inductive GrammarFault
  /-- Something else stands where the grammar asks for this. -/
  | expected (what : String)
  | outsideLoop (word : String)
  | tooMany (what : String)
  | invalidTarget
  /-- An infix operator with nothing on its left. -/
  | noLeftOperand
  deriving DecidableEq, Repr

/-- The most parameters a function may have, and arguments a call. -/
def maxArguments : Nat := 255

def GrammarFault.message : GrammarFault → String
  | expected what => "Expected " ++ what
  | outsideLoop word => "'" ++ word ++ "' outside loop"
  | tooMany what => "Cannot have more than " ++ toString maxArguments ++ " " ++ what
  | invalidTarget => "Invalid assignment target"
  | noLeftOperand => "Left hand operand missing"

/-- A violation of the grammar and the token it is found at. -/
structure GrammarError where
  fault : GrammarFault
  token : Token

def GrammarError.toFault (error : GrammarError) : Fault :=
  .located .grammar error.fault.message error.token

structure ParseState where
  /-- The token taken last. -/
  last : Option Token
  /-- The tokens not taken yet, the end token behind them. -/
  rest : List Token
  /-- The faults noted so far, in order. -/
  errors : List GrammarError := []
  /-- Whether a fault has been noted, also one that was dropped again. -/
  failed : Bool := false
  /-- The number of the next node that names a binding. -/
  nextId : NodeId := 0

namespace ParseState

/-- The next token, the end token left out. -/
def next? (s : ParseState) : Option Token :=
  match s.rest with
  | t :: _ => if t.kind.isEof then none else some t
  | [] => none

def atEnd (s : ParseState) : Bool :=
  s.next?.isNone

/-- The token at the front, the end token included. -/
def front (s : ParseState) : Token :=
  s.rest.headD ⟨.eof, "", 1, ⟨0, 0⟩⟩

/-- Where a fault at this point is shown: at the token in front or, at the end of the source, at the
last token before it. -/
def place (s : ParseState) : Token :=
  if s.atEnd then s.last.getD s.front else s.front

/-- Take the next token; at the end there is none to take. -/
def advance (s : ParseState) : ParseState :=
  match s.next? with
  | some t => { s with last := some t, rest := s.rest.tail }
  | none => s

/-- Note a fault and go on. -/
def note (s : ParseState) (error : GrammarError) : ParseState :=
  { s with errors := s.errors ++ [error], failed := true }

end ParseState

/-- Why a parse stops. -/
inductive ParseStop
  | error (error : GrammarError)
  /-- The bound on the depth of the parse is too small. -/
  | outOfFuel

/-- A step of a parse. The state is kept where it stops. -/
abbrev Parse := EStateM ParseStop ParseState

namespace Parse

variable {α : Type}

def outOfFuel : Parse α :=
  throw .outOfFuel

def failAt (fault : GrammarFault) (token : Token) : Parse α :=
  throw (.error ⟨fault, token⟩)

/-- Fail at the current point. -/
def failHere (fault : GrammarFault) : Parse α := do
  failAt fault (← get).place

def noteAt (fault : GrammarFault) (token : Token) : Parse Unit :=
  modify fun s => s.note ⟨fault, token⟩

/-- The kind of the next token. -/
def nextKind? : Parse (Option TokenKind) := do
  return (← get).next?.map Token.kind

def nextIs (wanted : TokenKind → Bool) : Parse Bool := do
  return (← get).next?.any fun t => wanted t.kind

def atEnd : Parse Bool := do
  return (← get).atEnd

/-- Take the next token if it is of a wanted kind. -/
def accept? (wanted : TokenKind → Bool) : Parse (Option Token) := do
  match (← get).next? with
  | some t =>
    if wanted t.kind then
      modify ParseState.advance
      return some t
    else return none
  | none => return none

def accept (wanted : TokenKind → Bool) : Parse Bool := do
  return (← accept? wanted).isSome

def acceptSymbol (s : Symbol) : Parse Bool :=
  accept (·.isSymbol s)

/-- Take a token of a wanted kind, which has to stand here. -/
def expect (wanted : TokenKind → Bool) (what : String) : Parse Token := do
  match ← accept? wanted with
  | some t => return t
  | none => failHere (.expected what)

def expectSymbol (s : Symbol) (what : String) : Parse Unit := do
  discard (expect (·.isSymbol s) what)

def expectName (what : String) : Parse Token :=
  expect TokenKind.isIdentifier what

/-- Read something unless a step finds that it is left out. -/
def readUnless (absent : Parse Bool) (read : Parse α) : Parse (Option α) := do
  if ← absent then return none else return some (← read)

/-- Read something if a step finds what announces it. -/
def readIf (present : Parse Bool) (read : Parse α) : Parse (Option α) := do
  if ← present then return some (← read) else return none

/-- A number for a node that names a binding. -/
def freshId : Parse NodeId :=
  modifyGet fun s => (s.nextId, { s with nextId := s.nextId + 1 })

end Parse

end LoxLang
