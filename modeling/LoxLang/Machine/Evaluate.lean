import LoxLang.Binding.Scope
import LoxLang.Machine.State

/-!
# Evaluation

The execution of statements and the evaluation of expressions. The first argument of each function
bounds the depth of the evaluation, and the second says how nodes look their names up: by the
distance of the binding; a node without a distance names a global.
-/

namespace LoxLang

/-- How a statement ends. -/
inductive Signal
  | completed
  | broke
  | continued
  | returned (value : Value)
  deriving DecidableEq

namespace Signal

/-- The value of a call whose body ends like this. -/
def callValue : Signal → Value
  | returned value => value
  | _ => .nil

end Signal

/-- How the nodes of a running program look their names up. -/
structure Lookup where
  distances : Distances
  /-- Whether the run stops where a node is about to look its name up. -/
  stopsAt : NodeId → Token → Machine → Bool := fun _ _ _ => false

namespace Eval

/-! ## Names -/

/-- Stop here if a watch asks for it. -/
def watch (lookup : Lookup) (id : NodeId) (name : Token) : Eval Unit := do
  let m ← get
  if lookup.stopsAt id name m then stop (.watched id name m.here)

def readName (lookup : Lookup) (id : NodeId) (name : Token) : Eval Value := do
  watch lookup id name
  ask fun m =>
    match lookup.distances[id]? with
    | some distance => m.store.getAt m.here distance name
    | none => m.store.get globalFrame name

def writeName (lookup : Lookup) (id : NodeId) (name : Token) (value : Value) : Eval Unit := do
  watch lookup id name
  let frame ← ask fun m =>
    match lookup.distances[id]? with
    | some distance => m.store.writableAt m.here distance name
    | none => m.store.writable globalFrame name
  changeStore fun s => s.store frame name.lexeme value

/-! ## Functions and classes -/

/-- The frame of a call: the parameters with their arguments. -/
def parameterFrame (params : List Token) (body : List Stmt) (args : List Value)
    (outer : FrameId) : Frame :=
  let names := (params.zip args).foldl
    (fun names (param, arg) => names.insert param.lexeme ⟨some arg, false⟩) NameMap.empty
  ⟨.parameters params body, names, some outer⟩

def declareFunction (decl : FunctionDecl) : Eval Unit := do
  let frame := (← get).here
  let id ← updateStore fun s => s.addFunction ⟨decl, frame, false⟩
  declare decl.name.lexeme (some (Store.functionValue id)) true

/-- The functions of a class by name; a later one replaces an earlier one of its name. -/
def closures (frame : FrameId) (decls : List FunctionDecl) (hasInitializer : Bool) :
    NameMap Closure :=
  .ofList (decls.map fun decl =>
    (decl.name.lexeme, ⟨decl, frame, hasInitializer && decl.name.lexeme == "init"⟩))

/-- Make function objects of the static methods. -/
def addStatics (frame : FrameId) (decls : List FunctionDecl) (s : Store) :
    NameMap FunctionId × Store :=
  decls.foldl (fun (statics, s) decl =>
    let (id, s) := s.addFunction ⟨decl, frame, false⟩
    (statics.insert decl.name.lexeme id, s)) (.empty, s)

def declareClass (decl : ClassDecl) (base : Option ClassId) : Eval Unit := do
  let frame := (← get).here
  let id ← updateStore fun s =>
    let (statics, s) := addStatics frame decl.statics s
    s.addClass
      { name := decl.name.lexeme
        decl
        base
        methods := closures frame decl.methods true
        getters := closures frame decl.getters false
        statics }
  declare decl.name.lexeme (some (.callable (.class id))) true

/-- The class that a value is, as the base of another one. -/
def asBaseClass (decl : ClassDecl) (base : Expr) (value : Value) : Eval ClassId := do
  match ← inspect fun s => s.asClass? value with
  | some id => return id
  | none =>
    let place := match base with
      | .variable _ name => name
      | _ => decl.name
    fail (.baseNotClass place.lexeme) place

/-- Find an attribute of an object and bind it. -/
def instanceAttribute? (id : InstanceId) (name : String) : Eval (Option Attribute) :=
  updateStore fun s => s.attribute? id name

/-- Check that a value can be called with so many arguments. -/
def checkCall (callee : Value) (paren : Token) (given : Nat) : Eval Callable := do
  match callee with
  | .callable c =>
    let expected ← inspect fun s => s.arity c
    if given = expected then return c
    else
      let display ← inspect fun s => s.displayCallable c
      fail (.argumentCount display expected given) paren
  | other =>
    let display ← inspect fun s => s.display other
    fail (.notCallable display) paren

def callNative (id : NativeId) (args : List Value) (paren : Token) : Eval Value := do
  match ← inspect fun s => s.native? id with
  | some native =>
    let m ← get
    let (result, host) := native.builtin.call m.store.display m.host args
    set { m with host }
    match result with
    | .ok value => return value
    | .error text => fail (.builtin text) paren
  | none => return .nil

/-- The object that an initializer hands back. -/
def initializedObject (bound : Closure) : Eval Value :=
  ask fun m => m.store.getAt bound.frame 0 (.synthetic (.keyword .this) "this" bound.decl.name)

def literalValue : Literal → Value
  | .number value => .ofNumeral value
  | .string contents => .str contents
  | .bool b => .bool b
  | .nil => .nil

/-- Whether the left operand of `or` or `and` already decides the result. -/
def decides (operator : Token) (left : Value) : Bool :=
  if operator.kind.isKeyword .or then left.isTruthy else !left.isTruthy

/-! ## Expressions and statements -/

mutual

def evaluate : Nat → Lookup → Expr → Eval Value
  | 0, _, _ => outOfFuel
  | fuel + 1, lookup, expr =>
    match expr with
    | .literal value => return literalValue value
    | .grouping inner => evaluate fuel lookup inner
    | .unary operator right => do
      let value ← evaluate fuel lookup right
      match UnaryOperator.ofKind? operator.kind with
      | some op => computed (value.applyUnary op) operator
      | none => fail (.unaryOperator operator.lexeme) operator
    | .binary left operator right => do
      let leftValue ← evaluate fuel lookup left
      let rightValue ← evaluate fuel lookup right
      if operator.kind.isSymbol .comma then return rightValue
      else computed (Value.applyBinary operator leftValue rightValue) operator
    | .logical left operator right => do
      let leftValue ← evaluate fuel lookup left
      if decides operator leftValue then return leftValue else evaluate fuel lookup right
    | .ternary condition _ thenBranch elseBranch => do
      if (← evaluate fuel lookup condition).isTruthy then evaluate fuel lookup thenBranch
      else evaluate fuel lookup elseBranch
    | .variable id name => readName lookup id name
    | .assign id name value => do
      let value ← evaluate fuel lookup value
      writeName lookup id name value
      return value
    | .call callee paren arguments => do
      let callee ← evaluate fuel lookup callee
      let args ← evaluateEach fuel lookup arguments
      invoke fuel lookup callee paren args
    | .get object name => do
      match ← evaluate fuel lookup object with
      | .instance id => do
        match ← instanceAttribute? id name.lexeme with
        | some found => attributeValue fuel lookup found name
        | none =>
          let className ← inspect fun s => s.instanceClassName id
          fail (.noInstanceAttribute name.lexeme className) name
      | .callable (.class id) => do
        match ← inspect fun s => s.classAttribute? id name.lexeme with
        | some value => return value
        | none =>
          let className ← inspect fun s => s.className id
          fail (.noClassAttribute name.lexeme className) name
      | other => fail (.noAttributes other.typeName) name
    | .set object name value => do
      match ← evaluate fuel lookup object with
      | .instance id => do
        let value ← evaluate fuel lookup value
        changeStore fun s => s.setInstanceField id name.lexeme value
        return value
      | .callable (.class id) => do
        let value ← evaluate fuel lookup value
        changeStore fun s => s.setClassField id name.lexeme value
        return value
      | other => fail (.noFields other.typeName) name
    | .this id keyword => readName lookup id keyword
    | .super id keyword method => do
      match ← readName lookup id keyword with
      | .instance base => do
        match ← instanceAttribute? base method.lexeme with
        | some found => attributeValue fuel lookup found method
        | none =>
          let className ← inspect fun s => s.instanceClassName base
          fail (.noBaseAttribute method.lexeme className) method
      | other => fail (.superNotInstance other.typeName) keyword
    | .arrow decl => do
      let frame := (← get).here
      let id ← updateStore fun s => s.addArrow ⟨decl, frame⟩
      return .callable (.arrow id)

/-- The values of expressions, from left to right. -/
def evaluateEach : Nat → Lookup → List Expr → Eval (List Value)
  | 0, _, _ => outOfFuel
  | _ + 1, _, [] => return []
  | fuel + 1, lookup, e :: es => do
    let value ← evaluate fuel lookup e
    return value :: (← evaluateEach fuel lookup es)

/-- The value of an attribute; a getter is called. -/
def attributeValue : Nat → Lookup → Attribute → Token → Eval Value
  | 0, _, _, _ => outOfFuel
  | fuel + 1, lookup, found, name =>
    match found with
    | .value value => return value
    | .getter bound => callFunction fuel lookup bound [] name

/-- Call a value. -/
def invoke : Nat → Lookup → Value → Token → List Value → Eval Value
  | 0, _, _, _, _ => outOfFuel
  | fuel + 1, lookup, callee, paren, args => do
    match ← checkCall callee paren args.length with
    | .native id => callNative id args paren
    | .function id => do
      match ← inspect fun s => s.function? id with
      | some closure => callFunction fuel lookup closure args paren
      | none => return .nil
    | .arrow id => do
      match ← inspect fun s => s.arrow? id with
      | some ⟨decl, frame⟩ => do
        let signal ← callBody fuel lookup frame decl.params decl.body args paren
        return signal.callValue
      | none => return .nil
    | .class id => do
      match ← inspect fun s => s.class? id with
      | some _ => do
        let object ← updateStore fun s => s.instantiate id
        construct fuel lookup object args paren
        return .instance object
      | none => return .nil

/-- Run the nearest initializer of a new object. -/
def construct : Nat → Lookup → InstanceId → List Value → Token → Eval Unit
  | 0, _, _, _, _ => outOfFuel
  | fuel + 1, lookup, object, args, paren => do
    match ← inspect fun s => s.initializer? object with
    | some (portion, closure) => do
      let bound ← updateStore fun s => s.bind closure portion
      discard (callFunction fuel lookup bound args paren)
    | none => return ()

/-- Call a function, method or getter. -/
def callFunction : Nat → Lookup → Closure → List Value → Token → Eval Value
  | 0, _, _, _, _ => outOfFuel
  | fuel + 1, lookup, closure, args, place => do
    let signal ←
      callBody fuel lookup closure.frame closure.decl.params closure.decl.body args place
    if closure.isInitializer then initializedObject closure else return signal.callValue

/-- Execute a function body in a frame that holds the arguments. -/
def callBody : Nat → Lookup → FrameId → List Token → List Stmt → List Value → Token → Eval Signal
  | 0, _, _, _, _, _, _ => outOfFuel
  | fuel + 1, lookup, outer, params, body, args, place => do
    let frame ← updateStore fun s => s.addFrame (parameterFrame params body args outer)
    counted place (within frame (executeEach fuel lookup body))

def execute : Nat → Lookup → Stmt → Eval Signal
  | 0, _, _ => outOfFuel
  | fuel + 1, lookup, stmt =>
    match stmt with
    | .expression value => do
      discard (evaluate fuel lookup value)
      return .completed
    | .print value => do
      let value ← evaluate fuel lookup value
      write (← inspect fun s => s.display value)
      return .completed
    | .println value => do
      let value ← evaluate fuel lookup value
      write (← inspect fun s => s.display value ++ "\n")
      return .completed
    | .var name none => do
      declare name.lexeme none false
      return .completed
    | .var name (some initializer) => do
      let value ← evaluate fuel lookup initializer
      declare name.lexeme (some value) false
      return .completed
    | .const name initializer => do
      let value ← evaluate fuel lookup initializer
      declare name.lexeme (some value) true
      return .completed
    | .block body => do
      let frame ← openFrame (.block body)
      within frame (executeEach fuel lookup body)
    | .ifElse condition thenBranch elseBranch => do
      if (← evaluate fuel lookup condition).isTruthy then execute fuel lookup thenBranch
      else match elseBranch with
        | some elseBranch => execute fuel lookup elseBranch
        | none => return .completed
    | .while condition body => whileLoop fuel lookup condition body
    | .for initializer condition update body => do
      let frame ← openFrame (.clauses initializer condition update body)
      within frame do
        match initializer with
        | some initializer => discard (execute fuel lookup initializer)
        | none => pure ()
        forLoop fuel lookup condition update body
    | .break _ => return .broke
    | .continue _ => return .continued
    | .assert keyword condition message => do
      if (← evaluate fuel lookup condition).isTruthy then return .completed
      else
        let text ← match message with
          | some message => do
            let value ← evaluate fuel lookup message
            inspect fun s => s.display value
          | none => pure ""
        fail (.assertion text) keyword
    | .function decl => do
      declareFunction decl
      return .completed
    | .return _ none => return .returned .nil
    | .return _ (some value) => return .returned (← evaluate fuel lookup value)
    | .class decl => do
      let base ← match decl.base with
        | some base => do
          let value ← evaluate fuel lookup base
          some <$> asBaseClass decl base value
        | none => pure none
      declareClass decl base
      return .completed

/-- Execute statements until one does not complete. -/
def executeEach : Nat → Lookup → List Stmt → Eval Signal
  | 0, _, _ => outOfFuel
  | _ + 1, _, [] => return .completed
  | fuel + 1, lookup, s :: ss => do
    match ← execute fuel lookup s with
    | .completed => executeEach fuel lookup ss
    | signal => return signal

def whileLoop : Nat → Lookup → Expr → Stmt → Eval Signal
  | 0, _, _, _ => outOfFuel
  | fuel + 1, lookup, condition, body => do
    if (← evaluate fuel lookup condition).isTruthy then
      match ← execute fuel lookup body with
      | .broke => return .completed
      | .returned value => return .returned value
      | _ => whileLoop fuel lookup condition body
    else return .completed

/-- The rounds of a `for` behind its initializer. -/
def forLoop : Nat → Lookup → Option Expr → Option Expr → Stmt → Eval Signal
  | 0, _, _, _, _ => outOfFuel
  | fuel + 1, lookup, condition, update, body => do
    let goesOn ← match condition with
      | some condition => Value.isTruthy <$> evaluate fuel lookup condition
      | none => pure true
    if goesOn then
      match ← execute fuel lookup body with
      | .broke => return .completed
      | .returned value => return .returned value
      | _ =>
        match update with
        | some update => discard (evaluate fuel lookup update)
        | none => pure ()
        forLoop fuel lookup condition update body
    else return .completed

end

end Eval

/-- A bound on the depth of an evaluation that no execution comes near. -/
def evaluationDepth : Nat := 1000000000000000

namespace Machine

/-- Execute one statement. -/
def execute (distances : Distances) (stmt : Stmt) : Eval Signal :=
  Eval.execute evaluationDepth { distances } stmt

/-- Execute a program up to its first fault and see that its output is passed on. The current frame
is the global one afterwards. The first argument bounds the depth of each evaluation. -/
def interpret (bound : Nat) (lookup : Lookup) (m : Machine) :
    List Stmt → Except Halt Unit × Machine
  | [] =>
    if m.sink.failFlush then (.error (.error (.device .flushFailed)), m) else (.ok (), m)
  | stmt :: rest =>
    match Eval.execute bound lookup stmt m with
    | .ok _ after => after.interpret bound lookup rest
    | .error halt after => (.error halt, { after with here := globalFrame })

end Machine

/-- A point of a run at which a node is about to look its name up: the node, the current frame and
the store. -/
structure Look where
  id : NodeId
  name : Token
  here : FrameId
  store : Store

/-- The first point of a run of a program at which a watch stops it. -/
def Machine.look? (bound : Nat) (lookup : Lookup) (m : Machine) (program : List Stmt) : Option Look :=
  match m.interpret bound lookup program with
  | (.error (.error (.watched id name here)), after) => some ⟨id, name, here, after.store⟩
  | _ => none

end LoxLang
