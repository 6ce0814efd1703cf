import LoxLang.Syntax

/-!
# Straight-line programs

Programs of declarations of variables and constants, expressions, output and blocks, without a
function, a class or a choice. Of their parts this tells which names an expression assigns to
(`Expr.assigned`) and where a name is read in the object of a property assignment whose value
assigns to the name (`Expr.hazards`).
-/

namespace LoxLang

mutual

def Expr.isStraight : Expr → Bool
  | .literal _ | .variable _ _ | .this _ _ | .super _ _ _ => true
  | .grouping inner => inner.isStraight
  | .unary _ right => right.isStraight
  | .binary left _ right => left.isStraight && right.isStraight
  | .assign _ _ value => value.isStraight
  | .call callee _ arguments => callee.isStraight && areStraight arguments
  | .get object _ => object.isStraight
  | .set object _ value => object.isStraight && value.isStraight
  | .logical _ _ _ | .ternary _ _ _ _ | .arrow _ => false

def areStraight : List Expr → Bool
  | [] => true
  | e :: es => e.isStraight && areStraight es

end

mutual

def Stmt.isStraight : Stmt → Bool
  | .expression value | .print value | .println value => value.isStraight
  | .var _ initializer => initializer.all Expr.isStraight
  | .const _ initializer => initializer.isStraight
  | .block body => isStraightBody body
  | .ifElse _ _ _ | .while _ _ | .for _ _ _ _ | .break _ | .continue _ | .assert _ _ _
  | .function _ | .return _ _ | .class _ => false

def isStraightBody : List Stmt → Bool
  | [] => true
  | s :: ss => s.isStraight && isStraightBody ss

end

mutual

/-- The names that an expression assigns to outside of functions. -/
def Expr.assigned : Expr → List String
  | .literal _ | .variable _ _ | .this _ _ | .super _ _ _ | .arrow _ => []
  | .grouping inner => inner.assigned
  | .unary _ right => right.assigned
  | .binary left _ right | .logical left _ right => left.assigned ++ right.assigned
  | .ternary condition _ thenBranch elseBranch =>
    condition.assigned ++ thenBranch.assigned ++ elseBranch.assigned
  | .assign _ name value => value.assigned ++ [name.lexeme]
  | .call callee _ arguments => callee.assigned ++ assignedByEach arguments
  | .get object _ => object.assigned
  | .set object _ value => object.assigned ++ value.assigned

def assignedByEach : List Expr → List String
  | [] => []
  | e :: es => e.assigned ++ assignedByEach es

end

mutual

/-- Where an expression reads one of some names, or reads a name in the object of a property
assignment whose value assigns to it. -/
def Expr.hazards (names : List String) : Expr → List Token
  | .literal _ | .this _ _ | .super _ _ _ | .arrow _ => []
  | .variable _ name => if name.lexeme ∈ names then [name] else []
  | .grouping inner => inner.hazards names
  | .unary _ right => right.hazards names
  | .binary left _ right | .logical left _ right => left.hazards names ++ right.hazards names
  | .ternary condition _ thenBranch elseBranch =>
    condition.hazards names ++ thenBranch.hazards names ++ elseBranch.hazards names
  | .assign _ _ value => value.hazards names
  | .call callee _ arguments => callee.hazards names ++ hazardsOfEach names arguments
  | .get object _ => object.hazards names
  | .set object _ value => object.hazards (value.assigned ++ names) ++ value.hazards names

def hazardsOfEach (names : List String) : List Expr → List Token
  | [] => []
  | e :: es => e.hazards names ++ hazardsOfEach names es

end

mutual

/-- The hazards of a straight-line statement. -/
def Stmt.hazards : Stmt → List Token
  | .expression value | .print value | .println value => value.hazards []
  | .var _ initializer => initializer.elim [] (Expr.hazards [])
  | .const _ initializer => initializer.hazards []
  | .block body => hazardsOfBody body
  | .ifElse _ _ _ | .while _ _ | .for _ _ _ _ | .break _ | .continue _ | .assert _ _ _
  | .function _ | .return _ _ | .class _ => []

def hazardsOfBody : List Stmt → List Token
  | [] => []
  | s :: ss => s.hazards ++ hazardsOfBody ss

end

end LoxLang
