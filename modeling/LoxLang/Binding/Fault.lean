import LoxLang.Fault

/-!
# Static faults

What the static analysis rejects.
-/

namespace LoxLang

inductive DeclarationKind
  | variable
  | constant
  | parameter
  | function
  | «class»
  deriving DecidableEq, Repr

namespace DeclarationKind

def describe : DeclarationKind → String
  | .variable => "variable"
  | .constant => "const"
  | .parameter => "parameter"
  | .function => "function"
  | .class => "class"

/-- Whether names of this kind may be assigned to. -/
def isMutable : DeclarationKind → Bool
  | .variable | .parameter => true
  | .constant | .function | .class => false

end DeclarationKind

inductive StaticFault
  | redeclared (kind : DeclarationKind) (name : String)
  | ownInitializer (name : String)
  | undefined (name : String)
  | uninitialized (name : String)
  | notAssignable (kind : DeclarationKind) (name : String)
  | jumpOutsideLoop (word : String)
  | returnOutsideFunction
  | valueFromInitializer
  | ownBase (className : String)
  | staticInitializer
  | getterInitializer
  | thisOutsideClass
  | superOutsideClass
  | superWithoutBase
  deriving DecidableEq, Repr

namespace StaticFault

/-- Faults of names are told from words that stand where they have no meaning. -/
def kind : StaticFault → FaultKind
  | redeclared .. | ownInitializer _ | undefined _ | uninitialized _ | notAssignable .. => .binding
  | _ => .grammar

def message : StaticFault → String
  | redeclared kind name =>
    kind.describe ++ " \"" ++ name ++ "\" has already been declared in this scope"
  | ownInitializer name => "Variable \"" ++ name ++ "\" is being used in its own initializer"
  | undefined name =>
    "Access of undefined variable. \"" ++ name ++ "\" was not found in current scope"
  | uninitialized name => "Variable \"" ++ name ++ "\" is not initialized"
  | notAssignable .constant name =>
    "Variable \"" ++ name ++ "\" is declared const, and cannot be modified"
  | notAssignable kind name => kind.describe ++ " \"" ++ name ++ "\" cannot be assigned to"
  | jumpOutsideLoop word => "\"" ++ word ++ "\" statement outside a loop"
  | returnOutsideFunction => "\"return\" statement outside a function"
  | valueFromInitializer => "Cannot return a value inside a constructor"
  | ownBase className => "class " ++ className ++ " inherits from itself"
  | staticInitializer => "init method cannot be static"
  | getterInitializer => "init method cannot be a getter"
  | thisOutsideClass => "\"this\" expression outside a class"
  | superOutsideClass => "\"super\" expression outside a class"
  | superWithoutBase =>
    "\"super\" expression inside class that does not have a base class"

def toFault (cause : StaticFault) (token : Token) : Fault :=
  .located cause.kind cause.message token

end StaticFault

end LoxLang
