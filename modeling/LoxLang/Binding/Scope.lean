import LoxLang.Binding.Fault
import LoxLang.Diagnostic
import LoxLang.NameMap
import LoxLang.ScopeKind
import LoxLang.Settings
import LoxLang.Syntax
import Std.Data.TreeMap

/-!
# Static scopes

What the static analysis knows about the names in each open scope, and the steps by which it opens
and closes scopes, declares names and finds them.
-/

namespace LoxLang

/-- What is known about a name in a scope. -/
structure StaticBinding where
  kind : DeclarationKind
  isMutable : Bool
  /-- Whether a value has been stored in it. -/
  initialized : Bool
  /-- False inside the name's own initializer. -/
  defined : Bool
  used : Bool
  /-- Where it is declared; names that no program declares have no such place. -/
  site : Option Token

namespace StaticBinding

/-- A name that no program declares: it is ready for use and nobody is warned about it. -/
def provided (kind : DeclarationKind) : StaticBinding :=
  { kind, isMutable := false, initialized := true, defined := true, used := true, site := none }

def declared (kind : DeclarationKind) (site : Token) : StaticBinding :=
  { kind, isMutable := kind.isMutable, initialized := false, defined := false, used := false,
    site := some site }

end StaticBinding

structure StaticScope where
  kind : ScopeKind
  names : NameMap StaticBinding := .empty

namespace StaticScope

/-- The global scope before any program: it holds the given functions. -/
def globals (functions : List String) : StaticScope :=
  ⟨.globals, .ofList (functions.map fun name => (name, .provided .function))⟩

def contains (scope : StaticScope) (name : String) : Bool :=
  scope.names.contains name

def modify (scope : StaticScope) (name : String) (change : StaticBinding → StaticBinding) :
    StaticScope :=
  { scope with names := scope.names.modify name change }

/-- Enter a declared binding before the bindings whose site lies behind its own. -/
def insertBySite (entry : String × Token × DeclarationKind) :
    List (String × Token × DeclarationKind) → List (String × Token × DeclarationKind)
  | [] => [entry]
  | other :: rest =>
    if other.2.1.span.start ≤ entry.2.1.span.start then other :: insertBySite entry rest
    else entry :: other :: rest

/-- The declared names that nothing uses, in the order of the source. -/
def unused (scope : StaticScope) : List (String × Token × DeclarationKind) :=
  let found := scope.names.entries.filterMap fun (name, binding) =>
    if binding.used then none else binding.site.map fun site => (name, site, binding.kind)
  found.foldl (fun sorted entry => insertBySite entry sorted) []

end StaticScope

/-- For each node that names a binding, how many scopes out the binding lies. -/
abbrev Distances := Std.TreeMap NodeId Nat

/-- The kind of function around a point. -/
inductive FunctionRole
  | none
  | function
  | initializer
  | method
  deriving DecidableEq, Repr

/-- The kind of class around a point. -/
inductive ClassRole
  | none
  | root
  | derived
  deriving DecidableEq, Repr

/-- What is around a point of a program. -/
structure Surroundings where
  functionRole : FunctionRole := .none
  classRole : ClassRole := .none
  /-- The number of loops of the same function. -/
  loopDepth : Nat := 0
  deriving DecidableEq, Repr

/-- The state of an analysis. -/
structure Analysis where
  /-- The open scopes, the innermost first and the globals last. -/
  scopes : List StaticScope
  around : Surroundings := {}
  distances : Distances := ∅
  log : Log
  /-- Whether a fault has been found. -/
  failed : Bool := false

/-- How a node uses the name it refers to. -/
inductive Access
  | read
  | write
  /-- The names `this` and `super`. -/
  | keyword
  deriving DecidableEq, Repr

namespace Analysis

def fail (a : Analysis) (cause : StaticFault) (token : Token) : Analysis :=
  { a with log := a.log.addFault (cause.toFault token), failed := true }

def warn (a : Analysis) (text : String) (token : Token) : Analysis :=
  let message := "[line " ++ toString token.line ++ "] Warning: " ++ text
  { a with log := a.log.add ⟨.warning, message, some token⟩ }

def openScope (a : Analysis) (kind : ScopeKind) : Analysis :=
  { a with scopes := ⟨kind, .empty⟩ :: a.scopes }

/-- Enter a name into the innermost scope. -/
def enter (a : Analysis) (name : String) (binding : StaticBinding) : Analysis :=
  match a.scopes with
  | [] => a
  | scope :: outer =>
    { a with scopes := { scope with names := scope.names.insert name binding } :: outer }

/-- Change what is known about a name of the innermost scope. -/
def modifyInnermost (a : Analysis) (name : String) (change : StaticBinding → StaticBinding) :
    Analysis :=
  match a.scopes with
  | [] => a
  | scope :: outer => { a with scopes := scope.modify name change :: outer }

def warnUnused (a : Analysis) (entry : String × Token × DeclarationKind) : Analysis :=
  let (name, site, kind) := entry
  a.warn ("-Wunused: Unused " ++ kind.describe ++ " \"" ++ name ++ "\"") site

/-- Close the innermost scope and warn about its unused names. -/
def closeScope (settings : Settings) (a : Analysis) : Analysis :=
  match a.scopes with
  | [] => a
  | scope :: outer =>
    let closed := { a with scopes := outer }
    if settings.warnUnused then scope.unused.foldl warnUnused closed else closed

/-- The binding that a new declaration of the innermost scope hides. -/
def hidden? (name : String) (outer : List StaticScope) : Option StaticBinding :=
  outer.findSome? fun scope => scope.names.find? name

def warnShadow (a : Analysis) (name : Token) (hidden : StaticBinding) : Analysis :=
  let warned := a.warn
    ("-Wshadow: Declaration of \"" ++ name.lexeme ++ "\" shadows previous declaration") name
  match hidden.site with
  | some site =>
    warned.warn ("-Wshadow: \"" ++ name.lexeme ++ "\" previously declared here") site
  | none => warned

/-- Whether the innermost scope has a name. -/
def declares (name : String) (a : Analysis) : Bool :=
  a.scopes.head?.any fun scope => scope.contains name

/-- Check a new declaration against those of the open scopes. -/
def checkDeclaration (settings : Settings) (kind : DeclarationKind) (name : Token)
    (a : Analysis) : Analysis :=
  if a.declares name.lexeme then a.fail (.redeclared kind name.lexeme) name
  else if settings.warnShadow then
    match hidden? name.lexeme a.scopes.tail with
    | some hidden => a.warnShadow name hidden
    | none => a
  else a

/-- Declare a name in the innermost scope. Until it is defined it may not be read. -/
def declare (settings : Settings) (kind : DeclarationKind) (name : Token) (a : Analysis) :
    Analysis :=
  (a.checkDeclaration settings kind name).enter name.lexeme (.declared kind name)

def define (name : Token) (a : Analysis) : Analysis :=
  a.modifyInnermost name.lexeme fun binding => { binding with defined := true }

def markReady (name : Token) (a : Analysis) : Analysis :=
  a.modifyInnermost name.lexeme fun binding => { binding with initialized := true }

/-- Declare a name that has its value from the start. -/
def declareReady (settings : Settings) (kind : DeclarationKind) (name : Token) (a : Analysis) :
    Analysis :=
  (a.declare settings kind name |>.markReady name).define name

/-- The innermost binding of a name and its distance. -/
def findBinding? (name : String) : List StaticScope → Option (Nat × StaticBinding)
  | [] => none
  | scope :: outer =>
    match scope.names.find? name with
    | some binding => some (0, binding)
    | none => (findBinding? name outer).map fun (hops, binding) => (hops + 1, binding)

/-- Change the binding of a name in the scope at a distance. -/
def modifyAt (name : String) (change : StaticBinding → StaticBinding) :
    Nat → List StaticScope → List StaticScope
  | _, [] => []
  | 0, scope :: outer => scope.modify name change :: outer
  | hops + 1, scope :: outer => scope :: modifyAt name change hops outer

/-- What forbids an access to a binding. -/
def problem? (name : String) (access : Access) (binding : StaticBinding) : Option StaticFault :=
  match access with
  | .read => if binding.initialized then none else some (.uninitialized name)
  | .write => if binding.isMutable then none else some (.notAssignable binding.kind name)
  | .keyword => none

/-- Find the binding that a node names and note how far out it lies. The binding counts as used and
as initialized from here on. -/
def refer (id : NodeId) (name : Token) (access : Access) (a : Analysis) : Analysis :=
  match findBinding? name.lexeme a.scopes with
  | none => a.fail (.undefined name.lexeme) name
  | some (hops, binding) =>
    let marked := { a with
      scopes := modifyAt name.lexeme
        (fun binding => { binding with initialized := true, used := true }) hops a.scopes
      distances := a.distances.insert id hops }
    match problem? name.lexeme access binding with
    | some cause => marked.fail cause name
    | none => marked

/-- Whether a name is one of the innermost scope whose initializer is being read. -/
def inOwnInitializer (name : String) (a : Analysis) : Bool :=
  a.scopes.head?.any fun scope => (scope.names.find? name).any fun binding => !binding.defined

end Analysis

end LoxLang
