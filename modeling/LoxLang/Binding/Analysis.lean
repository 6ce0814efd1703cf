import LoxLang.Binding.Scope

/-!
# Static analysis

One walk over a program that opens the scopes the program will open, checks every use of a name and
notes for each node that names a binding how many scopes out it lies. A fault does not stop the
walk.
-/

namespace LoxLang

/-- The name of the method that initializes an instance. -/
def initializerName : String := "init"

namespace Analysis

/-! ## Entering and leaving constructs -/

/-- Inside a function, loops around it do not count. -/
def enterFunction (role : FunctionRole) (a : Analysis) : Analysis :=
  { a with around := { a.around with functionRole := role, loopDepth := 0 } }

def leaveFunction (outside : Surroundings) (a : Analysis) : Analysis :=
  { a with around := { a.around with
      functionRole := outside.functionRole, loopDepth := outside.loopDepth } }

def enterLoop (a : Analysis) : Analysis :=
  { a with around := { a.around with loopDepth := a.around.loopDepth + 1 } }

def leaveLoop (a : Analysis) : Analysis :=
  { a with around := { a.around with loopDepth := a.around.loopDepth - 1 } }

def enterClass (role : ClassRole) (a : Analysis) : Analysis :=
  { a with around := { a.around with classRole := role } }

def leaveClass (outside : Surroundings) (a : Analysis) : Analysis :=
  { a with around := { a.around with classRole := outside.classRole } }

/-! ## Checks -/

def checkJump (keyword : Token) (a : Analysis) : Analysis :=
  if a.around.loopDepth = 0 then a.fail (.jumpOutsideLoop keyword.lexeme) keyword else a

def checkReturn (keyword : Token) (a : Analysis) : Analysis :=
  if a.around.functionRole = .none then a.fail .returnOutsideFunction keyword else a

def checkReturnValue (keyword : Token) (a : Analysis) : Analysis :=
  if a.around.functionRole = .initializer then a.fail .valueFromInitializer keyword else a

def referThis (id : NodeId) (keyword : Token) (a : Analysis) : Analysis :=
  match a.around.classRole with
  | .none => a.fail .thisOutsideClass keyword
  | _ => a.refer id keyword .keyword

def referSuper (id : NodeId) (keyword : Token) (a : Analysis) : Analysis :=
  match a.around.classRole with
  | .none => a.fail .superOutsideClass keyword
  | .root => a.fail .superWithoutBase keyword
  | .derived => a.refer id keyword .keyword

def referVariable (id : NodeId) (name : Token) (a : Analysis) : Analysis :=
  if a.inOwnInitializer name.lexeme then a.fail (.ownInitializer name.lexeme) name
  else a.refer id name .read

def checkOwnBase (name : Token) (base : Expr) (a : Analysis) : Analysis :=
  match base with
  | .variable _ baseName =>
    if baseName.lexeme = name.lexeme then a.fail (.ownBase name.lexeme) name else a
  | _ => a

def checkNoInitializer (name : Token) (cause : StaticFault) (a : Analysis) : Analysis :=
  if name.lexeme = initializerName then a.fail cause name else a

/-- Open the scope in which the methods of a class find their object. -/
def openReceiver (decl : ClassDecl) (a : Analysis) : Analysis :=
  let opened := (a.openScope (.receiver decl)).enter "this" (.provided .constant)
  if decl.base.isSome then opened.enter "super" (.provided .constant) else opened

def methodRole (name : Token) : FunctionRole :=
  if name.lexeme = initializerName then .initializer else .method

def declareParameters (settings : Settings) (params : List Token) (a : Analysis) : Analysis :=
  params.foldl (fun a param => a.declareReady settings .parameter param) a

/-- Open the scope of a function that holds its parameters and the names of its body. -/
def openFunction (settings : Settings) (role : FunctionRole) (params : List Token)
    (body : List Stmt) (a : Analysis) : Analysis :=
  ((a.enterFunction role).openScope (.parameters params body)).declareParameters settings params

def closeFunction (settings : Settings) (outside : Surroundings) (a : Analysis) : Analysis :=
  leaveFunction outside (closeScope settings a)

/-- Declare a class, whose name its base and members may use. -/
def nameClass (settings : Settings) (name : Token) (a : Analysis) : Analysis :=
  (a.enterClass .root).declareReady settings .class name

def closeClass (settings : Settings) (outside : Surroundings) (a : Analysis) : Analysis :=
  leaveClass outside (closeScope settings a)

end Analysis

open Analysis

mutual

def Expr.analyse (settings : Settings) : Expr → Analysis → Analysis
  | .literal _, a => a
  | .grouping inner, a => inner.analyse settings a
  | .unary _ right, a => right.analyse settings a
  | .binary left _ right, a => right.analyse settings (left.analyse settings a)
  | .logical left _ right, a => right.analyse settings (left.analyse settings a)
  | .ternary condition _ thenBranch elseBranch, a =>
    elseBranch.analyse settings (thenBranch.analyse settings (condition.analyse settings a))
  | .variable id name, a => a.referVariable id name
  | .assign id name value, a => (value.analyse settings a).refer id name .write
  | .call callee _ arguments, a => analyseEach settings arguments (callee.analyse settings a)
  | .get object _, a => object.analyse settings a
  | .set object _ value, a => object.analyse settings (value.analyse settings a)
  | .this id keyword, a => a.referThis id keyword
  | .super id keyword _, a => a.referSuper id keyword
  | .arrow decl, a => decl.analyse settings a

def ArrowDecl.analyse (settings : Settings) : ArrowDecl → Analysis → Analysis
  | ⟨_, params, body⟩, a =>
    closeFunction settings a.around
      (analyseBody settings body (a.openFunction settings .function params body))

def analyseEach (settings : Settings) : List Expr → Analysis → Analysis
  | [], a => a
  | e :: es, a => analyseEach settings es (e.analyse settings a)

def analyseOptional (settings : Settings) : Option Expr → Analysis → Analysis
  | none, a => a
  | some e, a => e.analyse settings a

def Stmt.analyse (settings : Settings) : Stmt → Analysis → Analysis
  | .expression value, a => value.analyse settings a
  | .print value, a => value.analyse settings a
  | .println value, a => value.analyse settings a
  | .var name none, a => (a.declare settings .variable name).define name
  | .var name (some initializer), a =>
    ((initializer.analyse settings (a.declare settings .variable name)).markReady name).define name
  | .const name initializer, a =>
    ((initializer.analyse settings (a.declare settings .constant name)).markReady name).define name
  | .block body, a =>
    closeScope settings (analyseBody settings body (a.openScope (.block body)))
  | .ifElse condition thenBranch elseBranch, a =>
    analyseBranch settings elseBranch
      (thenBranch.analyse settings (condition.analyse settings a))
  | .while condition body, a =>
    (body.analyse settings (condition.analyse settings a).enterLoop).leaveLoop
  | .for initializer condition update body, a =>
    closeScope settings (body.analyse settings
      (analyseOptional settings update (analyseOptional settings condition
        (analyseBranch settings initializer
          (a.openScope (.clauses initializer condition update body))))).enterLoop).leaveLoop
  | .break keyword, a => a.checkJump keyword
  | .continue keyword, a => a.checkJump keyword
  | .assert _ condition message, a =>
    analyseOptional settings message (condition.analyse settings a)
  | .function decl, a =>
    decl.analyse settings .function (a.declareReady settings .function decl.name)
  | .return keyword none, a => a.checkReturn keyword
  | .return keyword (some value), a =>
    value.analyse settings ((a.checkReturn keyword).checkReturnValue keyword)
  | .class decl, a => decl.analyse settings a

def analyseBranch (settings : Settings) : Option Stmt → Analysis → Analysis
  | none, a => a
  | some s, a => s.analyse settings a

def analyseBody (settings : Settings) : List Stmt → Analysis → Analysis
  | [], a => a
  | s :: ss, a => analyseBody settings ss (s.analyse settings a)

/-- Parameters and body of a function, in a scope of their own. -/
def FunctionDecl.analyse (settings : Settings) (role : FunctionRole) :
    FunctionDecl → Analysis → Analysis
  | ⟨_, params, body⟩, a =>
    closeFunction settings a.around
      (analyseBody settings body (a.openFunction settings role params body))

/-- Static methods have no `this`. -/
def analyseStatics (settings : Settings) : List FunctionDecl → Analysis → Analysis
  | [], a => a
  | d :: ds, a =>
    analyseStatics settings ds
      (d.analyse settings .method (a.checkNoInitializer d.name .staticInitializer))

def analyseMethods (settings : Settings) : List FunctionDecl → Analysis → Analysis
  | [], a => a
  | d :: ds, a => analyseMethods settings ds (d.analyse settings (methodRole d.name) a)

def analyseGetters (settings : Settings) : List FunctionDecl → Analysis → Analysis
  | [], a => a
  | d :: ds, a =>
    analyseGetters settings ds
      (d.analyse settings .method (a.checkNoInitializer d.name .getterInitializer))

/-- The base of a class; its members have a `super` from here on. -/
def analyseBase (settings : Settings) (name : Token) : Option Expr → Analysis → Analysis
  | none, a => a
  | some base, a =>
    base.analyse settings ((a.checkOwnBase name base).enterClass .derived)

/-- A class. Its static methods lie outside the scope of its object. -/
def ClassDecl.analyse (settings : Settings) : ClassDecl → Analysis → Analysis
  | ⟨name, base, methods, statics, getters⟩, a =>
    let outer := analyseStatics settings statics
      (analyseBase settings name base (a.nameClass settings name))
    closeClass settings a.around (analyseGetters settings getters (analyseMethods settings methods
      (outer.openReceiver ⟨name, base, methods, statics, getters⟩)))

end

/-- Forget the globals whose name fails the test. -/
def StaticScope.retain (globals : StaticScope) (keep : String → Bool) : StaticScope :=
  { globals with names := globals.names.retain keep }

/-- What the analysis keeps from one program to the next. -/
structure Resolver where
  /-- The open scopes, the globals last. Between programs there is no other. -/
  scopes : List StaticScope
  around : Surroundings := {}

/-- What the analysis of a program gives. -/
structure BindingResult where
  /-- The resolver afterwards; a rejected program leaves the globals as they were. -/
  resolver : Resolver
  /-- Where the named bindings lie, unless the program is rejected. -/
  distances : Option Distances
  log : Log

namespace Resolver

/-- A resolver that has seen no program. -/
def ofGlobals (globals : StaticScope) : Resolver := { scopes := [globals] }

def globals (r : Resolver) : StaticScope :=
  r.scopes.getLast?.getD ⟨.globals, .empty⟩

/-- Change the outermost of some scopes. -/
def changeLast (change : StaticScope → StaticScope) : List StaticScope → List StaticScope
  | [] => []
  | [scope] => [change scope]
  | scope :: outer => scope :: changeLast change outer

def changeGlobals (change : StaticScope → StaticScope) (r : Resolver) : Resolver :=
  { r with scopes := changeLast change r.scopes }

/-- The analysis of a program before its first statement. -/
def opening (log : Log) (r : Resolver) : Analysis :=
  { scopes := r.scopes, around := r.around, log }

/-- Analyse a program whose globals are those of earlier programs. -/
def resolve (settings : Settings) (log : Log) (program : List Stmt) (r : Resolver) :
    BindingResult :=
  let final := analyseBody settings program (r.opening log)
  let after : Resolver := ⟨final.scopes, final.around⟩
  if final.failed then
    { resolver := after.changeGlobals fun _ => r.globals, distances := none, log := final.log }
  else { resolver := after, distances := some final.distances, log := final.log }

/-- Forget the globals whose name fails the test. -/
def retain (keep : String → Bool) (r : Resolver) : Resolver :=
  r.changeGlobals fun globals => globals.retain keep

end Resolver

/-- The global scope afterwards. -/
def BindingResult.globals (result : BindingResult) : StaticScope :=
  result.resolver.globals

/-- Analyse a program over given globals. -/
def analyseProgram (settings : Settings) (globals : StaticScope) (log : Log)
    (program : List Stmt) : BindingResult :=
  (Resolver.ofGlobals globals).resolve settings log program

end LoxLang
