import LoxLang.Grammar.Program

/-!
# Reading with a cursor

The grammar once more, with a cursor that moves over the whole list of tokens. Where `Parse` takes
tokens from the front of those that remain, here each look is at a place of the list, and a look
outside of it stops the parse (`Tape.Stop.outside`). The cursor is put back where an arrow turns out
to be a grouping and where a declaration is tried again as an expression, loops are counted on the
way into them and out again, and the faults of a first attempt are set aside and put back
(`Tape.interactiveDeclaration`).
-/

namespace LoxLang

/-- The state of a parse with a cursor. -/
structure Tape where
  /-- The place of the next token in the list. -/
  position : Nat := 0
  /-- The number of loops around this point inside of the same function. -/
  loopDepth : Nat := 0
  errors : List GrammarError := []
  failed : Bool := false
  nextId : NodeId := 0

namespace Tape

/-- Why a parse with a cursor stops. -/
inductive Stop
  | error (error : GrammarError)
  | outOfFuel
  /-- A look at a place where the list has no token. -/
  | outside

abbrev Read := EStateM Stop Tape

variable {α : Type}

/-! ## Single steps -/

section Steps

variable (tokens : List Token)

def outOfFuel : Read α :=
  throw .outOfFuel

def failAt (fault : GrammarFault) (token : Token) : Read α :=
  throw (.error ⟨fault, token⟩)

def noteAt (fault : GrammarFault) (token : Token) : Read Unit :=
  modify fun p => { p with errors := p.errors ++ [⟨fault, token⟩], failed := true }

def freshId : Read NodeId :=
  modifyGet fun p => (p.nextId, { p with nextId := p.nextId + 1 })

/-- The token at a place. -/
def tokenAt (place : Nat) : Read Token :=
  match tokens[place]? with
  | some t => pure t
  | none => throw .outside

/-- The token at the cursor. -/
def peek : Read Token := do
  tokenAt tokens (← get).position

/-- The token before the cursor. -/
def previous : Read Token := do
  match (← get).position with
  | place + 1 => tokenAt tokens place
  | 0 => throw .outside

def atEnd : Read Bool := do
  return (← peek tokens).kind.isEof

/-- The token at the cursor, the end token left out. -/
def next? : Read (Option Token) := do
  if ← atEnd tokens then return none else return some (← peek tokens)

def nextIs (wanted : TokenKind → Bool) : Read Bool := do
  if ← atEnd tokens then return false else return wanted (← peek tokens).kind

/-- Whether the token behind the one at the cursor is of a kind. There need not be one. -/
def nextButOneIs (wanted : TokenKind → Bool) : Read Bool := do
  return tokens[(← get).position + 1]?.any fun t => wanted t.kind

/-- Move the cursor on, but not past the end token, and give the token before it. -/
def advance : Read Token := do
  if !(← atEnd tokens) then modify fun p => { p with position := p.position + 1 }
  previous tokens

/-- Fail at the cursor or, at the end of the source, at the token before it. -/
def failHere (fault : GrammarFault) : Read α := do
  if (← atEnd tokens) && decide (0 < (← get).position) then failAt fault (← previous tokens)
  else failAt fault (← peek tokens)

def accept? (wanted : TokenKind → Bool) : Read (Option Token) := do
  if ← nextIs tokens wanted then
    discard (advance tokens)
    return some (← previous tokens)
  else return none

def accept (wanted : TokenKind → Bool) : Read Bool := do
  return (← accept? tokens wanted).isSome

def acceptSymbol (s : Symbol) : Read Bool :=
  accept tokens (·.isSymbol s)

def expect (wanted : TokenKind → Bool) (what : String) : Read Token := do
  if ← nextIs tokens wanted then advance tokens else failHere tokens (.expected what)

def expectSymbol (s : Symbol) (what : String) : Read Unit := do
  discard (expect tokens (·.isSymbol s) what)

def expectName (what : String) : Read Token :=
  expect tokens TokenKind.isIdentifier what

def readUnless (absent : Read Bool) (read : Read α) : Read (Option α) := do
  if ← absent then return none else return some (← read)

def readIf (present : Read Bool) (read : Read α) : Read (Option α) := do
  if ← present then return some (← read) else return none

def limit (count : Nat) (what : String) : Read Unit := do
  if count = maxArguments then noteAt (.tooMany what) (← peek tokens)

/-- The body of a function: the loops around it do not count. They count again behind it, also if it
fails. -/
def functionBody (body : Read α) : Read α := fun p =>
  match body { p with loopDepth := 0 } with
  | .ok a after => .ok a { after with loopDepth := p.loopDepth }
  | .error stop after => .error stop { after with loopDepth := p.loopDepth }

/-- The body of a loop, which counts inside of it. -/
def loopBody (body : Read α) : Read α := fun p =>
  match body { p with loopDepth := p.loopDepth + 1 } with
  | .ok a after => .ok a { after with loopDepth := after.loopDepth - 1 }
  | .error stop after => .error stop { after with loopDepth := after.loopDepth - 1 }

/-! ## Forms without parts of their own -/

/-- Names with commas between them, if there is a name behind each comma. -/
def names : Nat → Read (Option (List Token))
  | 0 => outOfFuel
  | fuel + 1 => do
    match ← accept? tokens TokenKind.isIdentifier with
    | some name =>
      if ← acceptSymbol tokens .comma then return (← names fuel).map (name :: ·)
      else return some [name]
    | none => return none

/-- Names, or nothing before a closing parenthesis. -/
def parameterNames : Read (Option (List Token)) := do
  if ← nextIs tokens (·.isSymbol .rightParen) then return some []
  else names tokens (tokens.length + 1)

/-- The names before the closing parenthesis and the `=>` of an arrow. -/
def arrowParameters : Read (Option (List Token)) := do
  match ← parameterNames tokens with
  | some params =>
    if ← acceptSymbol tokens .rightParen then
      if ← acceptSymbol tokens .arrow then return some params else return none
    else return none
  | none => return none

/-- Read the head of an arrow. If there is none, the cursor goes back to where it was. -/
def arrowHead : Read (Option (List Token × Token)) := do
  let start := (← get).position
  match ← arrowParameters tokens with
  | some params => return some (params, ← previous tokens)
  | none =>
    modify fun p => { p with position := start }
    return none

def assignTo (target : Expr) (equals : Token) (value : Expr) : Read Expr := do
  match target with
  | .variable _ name =>
    let old ← freshId
    return .assign (← freshId) name (Parse.assignedValue equals (.variable old name) value)
  | .get object name =>
    return .set object name (Parse.assignedValue equals (.get object name) value)
  | other =>
    noteAt .invalidTarget equals
    return other

def someParameters : Nat → Nat → Read (List Token)
  | 0, _ => outOfFuel
  | fuel + 1, count => do
    limit tokens count "parameters"
    let name ← expectName tokens "parameter name"
    if ← acceptSymbol tokens .comma then return name :: (← someParameters fuel (count + 1))
    else return [name]

def parameters (fuel : Nat) : Read (List Token) := do
  if ← nextIs tokens (·.isSymbol .rightParen) then return []
  else someParameters tokens fuel 0

def leaf? (token : Token) : Option (Read Expr) :=
  match token.kind with
  | .keyword .false => some (pure (.literal (.bool false)))
  | .keyword .true => some (pure (.literal (.bool true)))
  | .keyword .nil => some (pure (.literal .nil))
  | .number value => some (pure (.literal (.number value)))
  | .string contents => some (pure (.literal (.string contents)))
  | .identifier => some (return .variable (← freshId) token)
  | .keyword .this => some (return .this (← freshId) token)
  | .keyword .super => some do
    expectSymbol tokens .dot "'.' after 'super'"
    let method ← expectName tokens "base class method name"
    return .super (← freshId) token method
  | _ => none

/-- A jump is inside of a loop if any loops are counted. -/
def jump (node : Token → Stmt) (keyword : Token) : Read Stmt := do
  if (← get).loopDepth = 0 then failAt (.outsideLoop keyword.lexeme) keyword
  else
    expectSymbol tokens .semicolon ("';' after " ++ keyword.lexeme ++ " statement")
    return node keyword

/-! ## Expressions, statements and declarations -/

mutual

def exprAt : Nat → Level → Read Expr
  | 0, _ => outOfFuel
  | fuel + 1, level =>
    match level with
    | .assignment => do
      let target ← exprAt fuel .ternary
      match ← accept? tokens TokenKind.isAssignment with
      | some equals =>
        let value ← exprAt fuel .assignment
        assignTo target equals value
      | none => return target
    | .ternary => do
      let condition ← exprAt fuel .or
      match ← accept? tokens (·.isSymbol .questionMark) with
      | some question =>
        let thenBranch ← exprAt fuel .comma
        expectSymbol tokens .colon "':' after then branch of ternary expression"
        let elseBranch ← exprAt fuel .ternary
        return .ternary condition question thenBranch elseBranch
      | none => return condition
    | .unary => do
      match ← accept? tokens TokenKind.isUnaryOperator with
      | some operator => return .unary operator (← exprAt fuel .unary)
      | none => exprAt fuel .call
    | .call => do
      let callee ← exprAt fuel .primary
      postfixes fuel callee
    | .primary => primary fuel
    | infixLevel => do
      let left ← exprAt fuel infixLevel.tighter
      operands fuel infixLevel left

def operands : Nat → Level → Expr → Read Expr
  | 0, _, _ => outOfFuel
  | fuel + 1, level, left => do
    match ← accept? tokens level.isInfix with
    | some operator =>
      let right ← exprAt fuel level.tighter
      operands fuel level (level.join left operator right)
    | none => return left

def postfixes : Nat → Expr → Read Expr
  | 0, _ => outOfFuel
  | fuel + 1, callee => do
    match ← accept? tokens fun kind => kind.isSymbol .leftParen || kind.isSymbol .dot with
    | some t =>
      if t.kind.isSymbol .leftParen then
        let arguments ←
          if ← nextIs tokens (·.isSymbol .rightParen) then pure [] else someArguments fuel 0
        let paren ← expect tokens (·.isSymbol .rightParen) "')' after arguments"
        postfixes fuel (.call callee paren arguments)
      else
        let name ← expectName tokens "property name after '.'"
        postfixes fuel (.get callee name)
    | none => return callee

def someArguments : Nat → Nat → Read (List Expr)
  | 0, _ => outOfFuel
  | fuel + 1, count => do
    limit tokens count "arguments"
    let argument ← exprAt fuel .assignment
    if ← acceptSymbol tokens .comma then return argument :: (← someArguments fuel (count + 1))
    else return [argument]

def primary : Nat → Read Expr
  | 0 => outOfFuel
  | fuel + 1 => do
    match ← next? tokens with
    | none => failHere tokens (.expected "expression")
    | some t =>
      match leaf? tokens t with
      | some leaf =>
        discard (advance tokens)
        leaf
      | none =>
        if t.kind.isSymbol .leftParen then
          discard (advance tokens)
          parenthesised fuel
        else match Level.ofStrayOperator? t.kind with
          | some level =>
            discard (advance tokens)
            discard (exprAt fuel level)
            failAt .noLeftOperand t
          | none => failHere tokens (.expected "expression")

def parenthesised : Nat → Read Expr
  | 0 => outOfFuel
  | fuel + 1 => do
    match ← arrowHead tokens with
    | some (params, arrow) =>
      if maxArguments < params.length then noteAt (.tooMany "parameters") arrow
      return .arrow ⟨arrow, params, ← arrowBody fuel arrow⟩
    | none =>
      let inner ← exprAt fuel .comma
      expectSymbol tokens .rightParen "')' after expression"
      return .grouping inner

def arrowBody : Nat → Token → Read (List Stmt)
  | 0, _ => outOfFuel
  | fuel + 1, arrow => do
    if ← acceptSymbol tokens .leftBrace then functionBody (blockBody fuel)
    else
      let value ← exprAt fuel .assignment
      return [.return (.synthetic (.keyword .return) "return" arrow) (some value)]

def statement : Nat → Read Stmt
  | 0 => outOfFuel
  | fuel + 1 => do
    match ← next? tokens with
    | none => expressionStatement fuel
    | some t =>
      match t.kind with
      | .keyword .for => do
        discard (advance tokens)
        forStatement fuel
      | .keyword .if => do
        discard (advance tokens)
        let condition ← exprAt fuel .comma
        let thenBranch ← statement fuel
        if ← accept tokens (·.isKeyword .else) then
          let elseBranch ← statement fuel
          return .ifElse condition thenBranch (some elseBranch)
        else return .ifElse condition thenBranch none
      | .keyword .while => do
        discard (advance tokens)
        let condition ← exprAt fuel .comma
        return .while condition (← loopBody (statement fuel))
      | .keyword .return => do
        discard (advance tokens)
        let value ← readUnless (nextIs tokens (·.isSymbol .semicolon)) (exprAt fuel .comma)
        expectSymbol tokens .semicolon "';' after return value"
        return .return t value
      | .keyword .break => do
        discard (advance tokens)
        jump tokens .break t
      | .keyword .continue => do
        discard (advance tokens)
        jump tokens .continue t
      | .keyword .assert => do
        discard (advance tokens)
        let condition ← exprAt fuel .assignment
        let message ← readIf (acceptSymbol tokens .comma) (exprAt fuel .comma)
        expectSymbol tokens .semicolon "';' after assert statement"
        return .assert t condition message
      | .symbol .leftBrace => do
        discard (advance tokens)
        return .block (← blockBody fuel)
      | .keyword .print => do
        discard (advance tokens)
        let value ← exprAt fuel .comma
        expectSymbol tokens .semicolon "';' after value"
        return .print value
      | .keyword .println => do
        discard (advance tokens)
        let value ← exprAt fuel .comma
        expectSymbol tokens .semicolon "';' after value"
        return .println value
      | _ => expressionStatement fuel

def expressionStatement : Nat → Read Stmt
  | 0 => outOfFuel
  | fuel + 1 => do
    let value ← exprAt fuel .comma
    expectSymbol tokens .semicolon "';' after expression"
    return .expression value

def forStatement : Nat → Read Stmt
  | 0 => outOfFuel
  | fuel + 1 => do
    let initializer ← readUnless (acceptSymbol tokens .semicolon) do
      if ← accept tokens (·.isKeyword .var) then varDeclaration fuel else expressionStatement fuel
    let condition ← readUnless (acceptSymbol tokens .semicolon) do
      let condition ← exprAt fuel .comma
      expectSymbol tokens .semicolon "';' after loop condition"
      return condition
    let update ← readUnless (nextIs tokens (·.isSymbol .leftBrace)) (exprAt fuel .comma)
    expectSymbol tokens .leftBrace "'\x7b' block after for clauses"
    let body ← loopBody (blockBody fuel)
    return .for initializer condition update (.block body)

def blockBody : Nat → Read (List Stmt)
  | 0 => outOfFuel
  | fuel + 1 => do
    if (← nextIs tokens (·.isSymbol .rightBrace)) || (← atEnd tokens) then
      expectSymbol tokens .rightBrace "'\x7d' after block"
      return []
    else
      let first ← declaration fuel
      return first :: (← blockBody fuel)

def declaration : Nat → Read Stmt
  | 0 => outOfFuel
  | fuel + 1 => do
    match (← next? tokens).map Token.kind with
    | some (.keyword .class) => do
      discard (advance tokens)
      classDeclaration fuel
    | some (.keyword .fun) => do
      discard (advance tokens)
      return .function (← function fuel "function")
    | some (.keyword .var) => do
      discard (advance tokens)
      varDeclaration fuel
    | some (.keyword .const) => do
      discard (advance tokens)
      let name ← expectName tokens "variable name after const"
      expectSymbol tokens .equal "initializer after const declaration"
      let initializer ← exprAt fuel .comma
      expectSymbol tokens .semicolon "';' after const declaration"
      return .const name initializer
    | _ => statement fuel

def varDeclaration : Nat → Read Stmt
  | 0 => outOfFuel
  | fuel + 1 => do
    let name ← expectName tokens "variable name after var"
    let initializer ← readIf (acceptSymbol tokens .equal) (exprAt fuel .comma)
    expectSymbol tokens .semicolon "';' after variable declaration"
    return .var name initializer

def function : Nat → String → Read FunctionDecl
  | 0, _ => outOfFuel
  | fuel + 1, role => do
    let name ← expectName tokens (role ++ " name")
    expectSymbol tokens .leftParen ("'(' after " ++ role ++ " name")
    let params ← parameters tokens fuel
    expectSymbol tokens .rightParen "')' after parameters"
    expectSymbol tokens .leftBrace ("'\x7b' before " ++ role ++ " body")
    return ⟨name, params, ← functionBody (blockBody fuel)⟩

def classDeclaration : Nat → Read Stmt
  | 0 => outOfFuel
  | fuel + 1 => do
    let name ← expectName tokens "class name"
    let base ← readIf (acceptSymbol tokens .less) do
      let base ← expectName tokens "base class name after '<'"
      return .variable (← freshId) base
    expectSymbol tokens .leftBrace "'\x7b' before class body"
    let members ← members fuel
    expectSymbol tokens .rightBrace "'\x7d' after class body"
    return .class ⟨name, base, members.methods, members.statics, members.getters⟩

def members : Nat → Read Parse.Members
  | 0 => outOfFuel
  | fuel + 1 => do
    if (← nextIs tokens (·.isSymbol .rightBrace)) || (← atEnd tokens) then return {}
    else if ← accept tokens (·.isKeyword .class) then
      let decl ← function fuel "static method"
      let others ← members fuel
      return { others with statics := decl :: others.statics }
    else if ← nextButOneIs tokens (·.isSymbol .leftBrace) then
      let name ← expectName tokens "getter name"
      expectSymbol tokens .leftBrace "'\x7b' before getter body"
      let body ← functionBody (blockBody fuel)
      let others ← members fuel
      return { others with getters := ⟨name, [], body⟩ :: others.getters }
    else
      let decl ← function fuel "method"
      let others ← members fuel
      return { others with methods := decl :: others.methods }

end

/-! ## Programs -/

/-- A declaration that failed, read as an expression whose value is printed. -/
def expressionAgain (fuel : Nat) : Read Stmt := do
  let value ← exprAt tokens fuel .comma
  discard (acceptSymbol tokens .semicolon)
  return .println value

/-- Back to where a declaration began that failed, with the faults there were then. -/
def rewound (start failed : Tape) : Tape :=
  { failed with
    position := start.position
    loopDepth := 0
    errors := failed.errors.take start.errors.length }

/-- What a failed declaration left, put back after the second attempt. -/
def restored (start failed after : Tape) : Tape :=
  { after with
    position := failed.position
    errors := after.errors.take start.errors.length ++ failed.errors.drop start.errors.length
    failed := failed.failed }

/-- A declaration, or else an expression whose value is printed. If both fail, the cursor and the
faults are put back to where the declaration left them. -/
def interactiveDeclaration (fuel : Nat) : Read Stmt := fun start =>
  match declaration tokens fuel start with
  | .ok stmt after => .ok stmt after
  | .error (.error error) failed =>
    match expressionAgain tokens fuel (rewound start failed) with
    | .ok stmt after => .ok stmt after
    | .error (.error _) after => .error (.error error) (restored start failed after)
    | .error stop after => .error stop after
  | .error stop after => .error stop after

def item (interactive : Bool) (fuel : Nat) : Read Stmt :=
  if interactive then interactiveDeclaration tokens fuel else declaration tokens fuel

/-- Move on to a token that begins a statement or stands behind a semicolon. The first argument
bounds the number of steps. -/
def skip : Nat → Read Unit
  | 0 => outOfFuel
  | fuel + 1 => do
    if ← atEnd tokens then return ()
    else if (← previous tokens).kind.isSymbol .semicolon then return ()
    else if (← peek tokens).kind.beginsStatement then return ()
    else
      discard (advance tokens)
      skip fuel

/-- Leave a failed declaration: one token is skipped in any case. -/
def synchronize : Read Unit := do
  discard (advance tokens)
  skip tokens (tokens.length + 1)

/-- One round of the loop over the declarations. A declaration that fails gives no statement. -/
def round (interactive : Bool) (fuel : Nat) : Read (Option Stmt) := fun p =>
  match item tokens interactive fuel p with
  | .ok stmt after => .ok (some stmt) after
  | .error (.error error) after => (do
    noteAt error.fault error.token
    modify fun p => { p with loopDepth := 0 }
    synchronize tokens
    return none : Read (Option Stmt)) after
  | .error stop after => .error stop after

/-- The loop over the declarations. The first argument bounds the number of rounds. -/
def rounds (interactive : Bool) (fuel : Nat) : Nat → Read (List Stmt)
  | 0 => do if ← atEnd tokens then return [] else outOfFuel
  | count + 1 => do
    if ← atEnd tokens then return []
    else match ← round tokens interactive fuel with
      | some stmt => return stmt :: (← rounds interactive fuel count)
      | none => rounds interactive fuel count

/-- Parse a list of tokens from its first one. There is no result if the list is left or a bound is
too small. -/
def program (interactive : Bool) (firstId : NodeId) : Option ParseResult :=
  match rounds tokens interactive (Parse.depthBound tokens) tokens.length
    { nextId := firstId } with
  | .ok statements final => some
    { statements := if final.failed then none else some statements
      errors := final.errors
      nextId := final.nextId
      finished := true }
  | .error _ _ => none

end Steps

end Tape

end LoxLang
