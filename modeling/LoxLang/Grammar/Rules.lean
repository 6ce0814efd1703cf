import LoxLang.Grammar.Cursor
import LoxLang.Grammar.Level

/-!
# The grammar

One function per form of expression, statement and declaration. The first argument of each bounds
its depth; a step down the ladder of levels or past a token takes one from it.

    program     → declaration* end
    declaration → class | "fun" function | "var" … | "const" … | statement
    class       → "class" name ("<" name)? "{" member* "}"
    member      → "class" function | function | name block
    function    → name "(" parameters? ")" block
    statement   → for | if | while | return | break | continue | assert | block
                | ("print" | "println")? expression ";"
    expression  → assignment ("," assignment)*
    assignment  → (call ".")? name ("=" | "+=" | "-=" | "*=" | "/=" | "%=") assignment | ternary
    ternary     → or ("?" expression ":" ternary)?
    unary       → ("!" | "not" | "-" | "typeof") unary | call
    call        → primary ("(" arguments? ")" | "." name)*
    arrow       → "(" parameters? ")" "=>" (block | assignment)
-/

namespace LoxLang.Parse

/-! ## Forms without parts of their own -/

/-- Names with commas between them, then a closing parenthesis. -/
def nameList? : List Token → Option (List Token × List Token)
  | name :: separator :: rest =>
    if name.kind.isIdentifier then
      if separator.kind.isSymbol .comma then
        (nameList? rest).map fun (names, after) => (name :: names, after)
      else if separator.kind.isSymbol .rightParen then some ([name], rest)
      else none
    else none
  | _ => none

/-- The parameters of an arrow, its `=>` and what follows, if the tokens behind an opening
parenthesis begin an arrow. -/
def arrowHead? (tokens : List Token) : Option (List Token × Token × List Token) :=
  let params := match tokens with
    | t :: rest => if t.kind.isSymbol .rightParen then some ([], rest) else nameList? tokens
    | [] => none
  params.bind fun (names, rest) =>
    match rest with
    | t :: after => if t.kind.isSymbol .arrow then some (names, t, after) else none
    | [] => none

/-- Take the head of an arrow, if one stands behind the parenthesis just taken. -/
def arrowHead : Parse (Option (List Token × Token)) := do
  match arrowHead? (← get).rest with
  | some (params, arrow, after) =>
    modify fun s => { s with last := some arrow, rest := after }
    return some (params, arrow)
  | none => return none

/-- The value that an assignment stores: the one on its right or, for an operator such as `+=`, the
operator applied to the old value and it. -/
def assignedValue (equals : Token) (old value : Expr) : Expr :=
  match equals.kind.appliedOperator? with
  | some operator =>
    .binary old (.synthetic (.symbol operator) operator.text equals) value
  | none => value

/-- The assignment to a target that has been read as an expression. -/
def assignTo (target : Expr) (equals : Token) (value : Expr) : Parse Expr := do
  match target with
  | .variable _ name =>
    let old ← freshId
    return .assign (← freshId) name (assignedValue equals (.variable old name) value)
  | .get object name =>
    return .set object name (assignedValue equals (.get object name) value)
  | other =>
    noteAt .invalidTarget equals
    return other

/-- Note one element too many of a list that has `count` elements. -/
def limit (count : Nat) (what : String) : Parse Unit := do
  if count = maxArguments then noteAt (.tooMany what) (← get).front

/-- One parameter or more behind the `count` already read. -/
def someParameters : Nat → Nat → Parse (List Token)
  | 0, _ => outOfFuel
  | fuel + 1, count => do
    limit count "parameters"
    let name ← expectName "parameter name"
    if ← acceptSymbol .comma then return name :: (← someParameters fuel (count + 1))
    else return [name]

def parameters (fuel : Nat) : Parse (List Token) := do
  if ← nextIs (·.isSymbol .rightParen) then return []
  else someParameters fuel 0

/-- The node of a literal, name or keyword that is an expression of its own. -/
def leaf? (token : Token) : Option (Parse Expr) :=
  match token.kind with
  | .keyword .false => some (pure (.literal (.bool false)))
  | .keyword .true => some (pure (.literal (.bool true)))
  | .keyword .nil => some (pure (.literal .nil))
  | .number value => some (pure (.literal (.number value)))
  | .string contents => some (pure (.literal (.string contents)))
  | .identifier => some (return .variable (← freshId) token)
  | .keyword .this => some (return .this (← freshId) token)
  | .keyword .super => some do
    expectSymbol .dot "'.' after 'super'"
    let method ← expectName "base class method name"
    return .super (← freshId) token method
  | _ => none

/-- A jump out of a loop. -/
def jump (node : Token → Stmt) (inLoop : Bool) (keyword : Token) : Parse Stmt := do
  if inLoop then
    expectSymbol .semicolon ("';' after " ++ keyword.lexeme ++ " statement")
    return node keyword
  else failAt (.outsideLoop keyword.lexeme) keyword

/-- The members of a class, each kind in order. -/
structure Members where
  methods : List FunctionDecl := []
  statics : List FunctionDecl := []
  getters : List FunctionDecl := []

/-! ## Expressions, statements and declarations -/

mutual

/-- An expression of a level or a tighter one. -/
def exprAt : Nat → Level → Parse Expr
  | 0, _ => outOfFuel
  | fuel + 1, level =>
    match level with
    | .assignment => do
      let target ← exprAt fuel .ternary
      match ← accept? TokenKind.isAssignment with
      | some equals =>
        let value ← exprAt fuel .assignment
        assignTo target equals value
      | none => return target
    | .ternary => do
      let condition ← exprAt fuel .or
      match ← accept? (·.isSymbol .questionMark) with
      | some question =>
        let thenBranch ← exprAt fuel .comma
        expectSymbol .colon "':' after then branch of ternary expression"
        let elseBranch ← exprAt fuel .ternary
        return .ternary condition question thenBranch elseBranch
      | none => return condition
    | .unary => do
      match ← accept? TokenKind.isUnaryOperator with
      | some operator => return .unary operator (← exprAt fuel .unary)
      | none => exprAt fuel .call
    | .call => do
      let callee ← exprAt fuel .primary
      postfixes fuel callee
    | .primary => primary fuel
    | infixLevel => do
      let left ← exprAt fuel infixLevel.tighter
      operands fuel infixLevel left

/-- The further operands of a level, joined from left to right. -/
def operands : Nat → Level → Expr → Parse Expr
  | 0, _, _ => outOfFuel
  | fuel + 1, level, left => do
    match ← accept? level.isInfix with
    | some operator =>
      let right ← exprAt fuel level.tighter
      operands fuel level (level.join left operator right)
    | none => return left

/-- The calls and property accesses behind an expression. -/
def postfixes : Nat → Expr → Parse Expr
  | 0, _ => outOfFuel
  | fuel + 1, callee => do
    match ← accept? fun kind => kind.isSymbol .leftParen || kind.isSymbol .dot with
    | some t =>
      if t.kind.isSymbol .leftParen then
        let arguments ←
          if ← nextIs (·.isSymbol .rightParen) then pure [] else someArguments fuel 0
        let paren ← expect (·.isSymbol .rightParen) "')' after arguments"
        postfixes fuel (.call callee paren arguments)
      else
        let name ← expectName "property name after '.'"
        postfixes fuel (.get callee name)
    | none => return callee

/-- One argument or more behind the `count` already read. -/
def someArguments : Nat → Nat → Parse (List Expr)
  | 0, _ => outOfFuel
  | fuel + 1, count => do
    limit count "arguments"
    let argument ← exprAt fuel .assignment
    if ← acceptSymbol .comma then return argument :: (← someArguments fuel (count + 1))
    else return [argument]

def primary : Nat → Parse Expr
  | 0 => outOfFuel
  | fuel + 1 => do
    match (← get).next? with
    | none => failHere (.expected "expression")
    | some t =>
      match leaf? t with
      | some leaf =>
        modify ParseState.advance
        leaf
      | none =>
        if t.kind.isSymbol .leftParen then
          modify ParseState.advance
          parenthesised fuel
        else match Level.ofStrayOperator? t.kind with
          | some level =>
            modify ParseState.advance
            discard (exprAt fuel level)
            failAt .noLeftOperand t
          | none => failHere (.expected "expression")

/-- An arrow or a grouping, behind its opening parenthesis. -/
def parenthesised : Nat → Parse Expr
  | 0 => outOfFuel
  | fuel + 1 => do
    match ← arrowHead with
    | some (params, arrow) =>
      if maxArguments < params.length then noteAt (.tooMany "parameters") arrow
      return .arrow ⟨arrow, params, ← arrowBody fuel arrow⟩
    | none =>
      let inner ← exprAt fuel .comma
      expectSymbol .rightParen "')' after expression"
      return .grouping inner

/-- The body behind `=>`; an expression is returned. -/
def arrowBody : Nat → Token → Parse (List Stmt)
  | 0, _ => outOfFuel
  | fuel + 1, arrow => do
    if ← acceptSymbol .leftBrace then blockBody fuel false
    else
      let value ← exprAt fuel .assignment
      return [.return (.synthetic (.keyword .return) "return" arrow) (some value)]

/-- A statement. `inLoop` says whether a loop of the same function is around it. -/
def statement : Nat → Bool → Parse Stmt
  | 0, _ => outOfFuel
  | fuel + 1, inLoop => do
    match (← get).next? with
    | none => expressionStatement fuel
    | some t =>
      match t.kind with
      | .keyword .for => do
        modify ParseState.advance
        forStatement fuel
      | .keyword .if => do
        modify ParseState.advance
        let condition ← exprAt fuel .comma
        let thenBranch ← statement fuel inLoop
        if ← accept (·.isKeyword .else) then
          let elseBranch ← statement fuel inLoop
          return .ifElse condition thenBranch (some elseBranch)
        else return .ifElse condition thenBranch none
      | .keyword .while => do
        modify ParseState.advance
        let condition ← exprAt fuel .comma
        return .while condition (← statement fuel true)
      | .keyword .return => do
        modify ParseState.advance
        let value ← readUnless (nextIs (·.isSymbol .semicolon)) (exprAt fuel .comma)
        expectSymbol .semicolon "';' after return value"
        return .return t value
      | .keyword .break => do
        modify ParseState.advance
        jump .break inLoop t
      | .keyword .continue => do
        modify ParseState.advance
        jump .continue inLoop t
      | .keyword .assert => do
        modify ParseState.advance
        let condition ← exprAt fuel .assignment
        let message ← readIf (acceptSymbol .comma) (exprAt fuel .comma)
        expectSymbol .semicolon "';' after assert statement"
        return .assert t condition message
      | .symbol .leftBrace => do
        modify ParseState.advance
        return .block (← blockBody fuel inLoop)
      | .keyword .print => do
        modify ParseState.advance
        let value ← exprAt fuel .comma
        expectSymbol .semicolon "';' after value"
        return .print value
      | .keyword .println => do
        modify ParseState.advance
        let value ← exprAt fuel .comma
        expectSymbol .semicolon "';' after value"
        return .println value
      | _ => expressionStatement fuel

def expressionStatement : Nat → Parse Stmt
  | 0 => outOfFuel
  | fuel + 1 => do
    let value ← exprAt fuel .comma
    expectSymbol .semicolon "';' after expression"
    return .expression value

/-- A loop behind its `for`. -/
def forStatement : Nat → Parse Stmt
  | 0 => outOfFuel
  | fuel + 1 => do
    let initializer ← readUnless (acceptSymbol .semicolon) do
      if ← accept (·.isKeyword .var) then varDeclaration fuel else expressionStatement fuel
    let condition ← readUnless (acceptSymbol .semicolon) do
      let condition ← exprAt fuel .comma
      expectSymbol .semicolon "';' after loop condition"
      return condition
    let update ← readUnless (nextIs (·.isSymbol .leftBrace)) (exprAt fuel .comma)
    expectSymbol .leftBrace "'\x7b' block after for clauses"
    let body ← blockBody fuel true
    return .for initializer condition update (.block body)

/-- The declarations of a block behind its opening brace, up to and with its closing one. -/
def blockBody : Nat → Bool → Parse (List Stmt)
  | 0, _ => outOfFuel
  | fuel + 1, inLoop => do
    if (← nextIs (·.isSymbol .rightBrace)) || (← atEnd) then
      expectSymbol .rightBrace "'\x7d' after block"
      return []
    else
      let first ← declaration fuel inLoop
      return first :: (← blockBody fuel inLoop)

def declaration : Nat → Bool → Parse Stmt
  | 0, _ => outOfFuel
  | fuel + 1, inLoop => do
    match ← nextKind? with
    | some (.keyword .class) => do
      modify ParseState.advance
      classDeclaration fuel
    | some (.keyword .fun) => do
      modify ParseState.advance
      return .function (← function fuel "function")
    | some (.keyword .var) => do
      modify ParseState.advance
      varDeclaration fuel
    | some (.keyword .const) => do
      modify ParseState.advance
      let name ← expectName "variable name after const"
      expectSymbol .equal "initializer after const declaration"
      let initializer ← exprAt fuel .comma
      expectSymbol .semicolon "';' after const declaration"
      return .const name initializer
    | _ => statement fuel inLoop

/-- A variable declaration behind its `var`. -/
def varDeclaration : Nat → Parse Stmt
  | 0 => outOfFuel
  | fuel + 1 => do
    let name ← expectName "variable name after var"
    let initializer ← readIf (acceptSymbol .equal) (exprAt fuel .comma)
    expectSymbol .semicolon "';' after variable declaration"
    return .var name initializer

/-- Name, parameters and body of a function of the given role. -/
def function : Nat → String → Parse FunctionDecl
  | 0, _ => outOfFuel
  | fuel + 1, role => do
    let name ← expectName (role ++ " name")
    expectSymbol .leftParen ("'(' after " ++ role ++ " name")
    let params ← parameters fuel
    expectSymbol .rightParen "')' after parameters"
    expectSymbol .leftBrace ("'\x7b' before " ++ role ++ " body")
    return ⟨name, params, ← blockBody fuel false⟩

/-- A class behind its `class`. -/
def classDeclaration : Nat → Parse Stmt
  | 0 => outOfFuel
  | fuel + 1 => do
    let name ← expectName "class name"
    let base ← readIf (acceptSymbol .less) do
      let base ← expectName "base class name after '<'"
      return .variable (← freshId) base
    expectSymbol .leftBrace "'\x7b' before class body"
    let members ← members fuel
    expectSymbol .rightBrace "'\x7d' after class body"
    return .class ⟨name, base, members.methods, members.statics, members.getters⟩

/-- The members of a class, up to its closing brace. -/
def members : Nat → Parse Members
  | 0 => outOfFuel
  | fuel + 1 => do
    if (← nextIs (·.isSymbol .rightBrace)) || (← atEnd) then return {}
    else if ← accept (·.isKeyword .class) then
      let decl ← function fuel "static method"
      let others ← members fuel
      return { others with statics := decl :: others.statics }
    else if (← get).rest[1]?.any fun t => t.kind.isSymbol .leftBrace then
      let name ← expectName "getter name"
      expectSymbol .leftBrace "'\x7b' before getter body"
      let body ← blockBody fuel false
      let others ← members fuel
      return { others with getters := ⟨name, [], body⟩ :: others.getters }
    else
      let decl ← function fuel "method"
      let others ← members fuel
      return { others with methods := decl :: others.methods }

end

end LoxLang.Parse
