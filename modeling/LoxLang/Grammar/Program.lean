import LoxLang.Grammar.Rules
import LoxLang.Diagnostic

/-!
# Programs

A whole token list as a sequence of declarations. A declaration that fails is given up: its fault is
noted, tokens are skipped to where a statement may begin, and reading goes on. At an interactive
prompt a failed declaration is first tried again as an expression whose value is printed.
-/

namespace LoxLang

namespace ParseState

/-- Skip tokens up to the first that begins a statement or follows a semicolon. -/
def skipTokens : Option Token → List Token → Option Token × List Token
  | last, [] => (last, [])
  | last, t :: rest =>
    if t.kind.isEof then (last, t :: rest)
    else if last.any fun l => l.kind.isSymbol .semicolon then (last, t :: rest)
    else if t.kind.beginsStatement then (last, t :: rest)
    else skipTokens (some t) rest

/-- Leave a failed declaration, taking at least one token. -/
def synchronize (s : ParseState) : ParseState :=
  let advanced := s.advance
  let (last, rest) := skipTokens advanced.last advanced.rest
  { advanced with last, rest }

end ParseState

namespace Parse

/-- A bound on the depth of a parse of the given tokens. -/
def depthBound (tokens : List Token) : Nat :=
  20 * (tokens.length + 1)

/-- A declaration, or else an expression whose value is printed. If both fail, the state is the one
the declaration failed in. -/
def interactiveDeclaration (fuel : Nat) : Parse Stmt := fun s =>
  match declaration fuel false s with
  | .ok stmt after => .ok stmt after
  | .error .outOfFuel after => .error .outOfFuel after
  | .error (.error error) failed =>
    let again := { failed with last := s.last, rest := s.rest, errors := s.errors }
    match (do
      let value ← exprAt fuel .comma
      discard (acceptSymbol .semicolon)
      return Stmt.println value : Parse Stmt) again with
    | .ok stmt after => .ok stmt after
    | .error .outOfFuel after => .error .outOfFuel after
    | .error (.error _) after => .error (.error error) { failed with nextId := after.nextId }

/-- The declarations that a program is made of. -/
def item (interactive : Bool) (fuel : Nat) : Parse Stmt :=
  if interactive then interactiveDeclaration fuel else declaration fuel false

end Parse

/-- What a parse gives. -/
structure ParseResult where
  /-- The program, if no fault was noted. -/
  statements : Option (List Stmt)
  errors : List GrammarError
  nextId : NodeId
  /-- Whether the bound on the depth was large enough. -/
  finished : Bool

namespace Parse

/-- Read declarations up to the end. The first argument bounds their number, the second the depth of
each. -/
def declarations (one : Parse Stmt) : Nat → ParseState → List Stmt × ParseState × Bool
  | 0, s => ([], s, s.atEnd)
  | count + 1, s =>
    if s.atEnd then ([], s, true)
    else match one s with
      | .ok stmt after =>
        let (others, final, finished) := declarations one count after
        (stmt :: others, final, finished)
      | .error (.error error) after => declarations one count (after.note error).synchronize
      | .error .outOfFuel after => ([], after, false)

/-- Parse a token list that ends with an end token. Nodes are numbered from `firstId`. -/
def program (interactive : Bool) (firstId : NodeId) (tokens : List Token) : ParseResult :=
  let (statements, final, finished) :=
    declarations (item interactive (depthBound tokens)) tokens.length
      { last := none, rest := tokens, nextId := firstId }
  { statements := if final.failed || !finished then none else some statements
    errors := final.errors
    nextId := final.nextId
    finished }

end Parse

/-- The faults of a parse, as they are reported. -/
def ParseResult.faults (result : ParseResult) : List Fault :=
  result.errors.map GrammarError.toFault

end LoxLang
