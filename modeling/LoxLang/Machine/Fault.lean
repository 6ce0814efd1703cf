import LoxLang.Fault
import LoxLang.Machine.Value
import LoxLang.Syntax

/-!
# Run-time faults

What stops a running program, and the token each fault points at.
-/

namespace LoxLang

inductive RunFault
  | undefined (name : String)
  /-- The scope at the distance found by the static analysis does not hold the name. -/
  | unbound (name : String)
  | uninitialized (name : String)
  | constant (name : String)
  | assertion (text : String)
  | baseNotClass (name : String)
  | noInstanceAttribute (name className : String)
  | noClassAttribute (name className : String)
  | noBaseAttribute (name className : String)
  | noAttributes (typeName : String)
  | noFields (typeName : String)
  | superNotInstance (typeName : String)
  | negation (typeName : String)
  | unaryOperator (operator : String)
  | binaryOperator (operator : String)
  /-- Operands of two types. -/
  | mixedOperands (operator left right : String)
  | notArithmetic (operator typeName : String)
  | notOrdered (operator typeName : String)
  | divisionByZero
  | moduloByZero
  | notCallable (display : String)
  | argumentCount (callee : String) (expected given : Nat)
  | tooDeep
  /-- A built-in function refuses its arguments. -/
  | builtin (text : String)
  deriving DecidableEq, Repr

namespace RunFault

def kind : RunFault → FaultKind
  | undefined _ => .name
  | constant _ | noAttributes _ | noFields _ | superNotInstance _ | negation _ | mixedOperands ..
  | notArithmetic .. | notOrdered .. | notCallable _ => .type
  | _ => .runtime

def message : RunFault → String
  | undefined name => "Undefined variable \"" ++ name ++ "\""
  | unbound name => "Internal error: \"" ++ name ++ "\" is not bound at its resolved scope"
  | uninitialized name => "Variable \"" ++ name ++ "\" is not initialized"
  | constant name => "Variable \"" ++ name ++ "\" is declared const, and cannot be modified"
  | assertion text => "Assertion Error: " ++ text
  | baseNotClass name => "Base class \"" ++ name ++ "\" is expected to be a class"
  | noInstanceAttribute name className =>
    "There is no attribute \"" ++ name ++ "\" on an instance of class \"" ++ className ++ "\""
  | noClassAttribute name className =>
    "There is no attribute \"" ++ name ++ "\" on class \"" ++ className ++ "\""
  | noBaseAttribute name className =>
    "There is no attribute \"" ++ name ++ "\" on base class \"" ++ className ++ "\""
  | noAttributes typeName => "Only instances and classes have attributes, got " ++ typeName
  | noFields typeName => "Only instances and classes have fields, got " ++ typeName
  | superNotInstance typeName => "\"super\" is bound to " ++ typeName ++ ", not an instance"
  | negation typeName => "Invalid operand for unary \"-\": " ++ typeName
  | unaryOperator operator => "Invalid unary operator \"" ++ operator ++ "\""
  | binaryOperator operator => "Invalid binary operator \"" ++ operator ++ "\""
  | mixedOperands operator left right =>
    "Operator \"" ++ operator ++ "\" not supported between " ++ left ++ " and " ++ right
  | notArithmetic operator typeName =>
    "Operator \"" ++ operator ++ "\" not valid between " ++ typeName ++ " operands"
  | notOrdered operator typeName =>
    "Operator \"" ++ operator ++ "\" not supported for " ++ typeName ++ " operands"
  | divisionByZero => "Division by zero"
  | moduloByZero => "Modulo by zero"
  | notCallable display =>
    "\"" ++ display ++ "\" is not callable; only functions and classes are"
  | argumentCount callee expected given =>
    "Too " ++ (if given < expected then "few" else "many") ++ " arguments in call to " ++ callee ++
      " (expected " ++ toString expected ++ ", got " ++ toString given ++ ")"
  | tooDeep => "Maximum recursion depth exceeded"
  | builtin text => text

end RunFault

/-- A failure of the device that takes the output. -/
inductive DeviceFault
  | sinkFull
  | flushFailed
  deriving DecidableEq, Repr

def DeviceFault.message : DeviceFault → String
  | sinkFull => "sink full"
  | flushFailed => "flush failed"

/-- Why a running program stops. -/
inductive RunError
  | located (cause : RunFault) (token : Token)
  | device (cause : DeviceFault)
  /-- A watch stops it where a node is about to look its name up in this frame. -/
  | watched (id : NodeId) (name : Token) (here : FrameId)

def RunError.toFault : RunError → Fault
  | located cause token => .located cause.kind cause.message token
  | device cause => .device cause.message
  | watched _ name _ => .located .runtime ("Stopped at \"" ++ name.lexeme ++ "\"") name

end LoxLang
