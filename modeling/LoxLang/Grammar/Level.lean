import LoxLang.Syntax

/-!
# Precedence levels

The ladder of expression forms, from the loosest to the tightest, and the operators of each rung.
-/

namespace LoxLang

inductive Level
  | comma
  | assignment
  | ternary
  | or
  | and
  | equality
  | comparison
  | term
  | factor
  | unary
  | call
  | primary
  deriving DecidableEq, Repr

namespace Level

/-- The next tighter level. -/
def tighter : Level → Level
  | comma => assignment
  | assignment => ternary
  | ternary => or
  | or => and
  | and => equality
  | equality => comparison
  | comparison => term
  | term => factor
  | factor => unary
  | unary => call
  | call => primary
  | primary => primary

/-- The operators that join operands of the next tighter level from left to right. -/
def isInfix : Level → TokenKind → Bool
  | comma, .symbol .comma => true
  | or, .keyword .or => true
  | and, .keyword .and => true
  | equality, .symbol .bangEqual | equality, .symbol .equalEqual => true
  | comparison, .symbol .greater | comparison, .symbol .greaterEqual
  | comparison, .symbol .less | comparison, .symbol .lessEqual => true
  | term, .symbol .minus | term, .symbol .plus => true
  | factor, .symbol .star | factor, .symbol .slash | factor, .symbol .percentage => true
  | _, _ => false

/-- The tree of an operator of this level and its operands. -/
def join (level : Level) (left : Expr) (operator : Token) (right : Expr) : Expr :=
  match level with
  | or | and => .logical left operator right
  | _ => .binary left operator right

/-- The level of an infix operator that stands where an operand should begin. A minus begins an
operand. -/
def ofStrayOperator? : TokenKind → Option Level
  | .symbol .bangEqual | .symbol .equalEqual => some equality
  | .symbol .greater | .symbol .greaterEqual | .symbol .less | .symbol .lessEqual =>
    some comparison
  | .symbol .plus => some term
  | .symbol .star | .symbol .slash | .symbol .percentage => some factor
  | _ => none

end Level

namespace TokenKind

def isUnaryOperator : TokenKind → Bool
  | symbol .bang | keyword .not | symbol .minus | keyword .typeof => Bool.true
  | _ => Bool.false

def isAssignment : TokenKind → Bool
  | symbol .equal | symbol .plusEqual | symbol .minusEqual | symbol .starEqual
  | symbol .slashEqual | symbol .percentageEqual => Bool.true
  | _ => Bool.false

/-- The operator that an assignment applies to the old value. -/
def appliedOperator? : TokenKind → Option Symbol
  | symbol .plusEqual => some .plus
  | symbol .minusEqual => some .minus
  | symbol .starEqual => some .star
  | symbol .slashEqual => some .slash
  | symbol .percentageEqual => some .percentage
  | _ => none

/-- The words that begin a declaration or statement and after a fault are read on from. -/
def beginsStatement : TokenKind → Bool
  | keyword .class | keyword .fun | keyword .var | keyword .const | keyword .for | keyword .if
  | keyword .while | keyword .print | keyword .println | keyword .return => Bool.true
  | _ => Bool.false

end TokenKind

end LoxLang
