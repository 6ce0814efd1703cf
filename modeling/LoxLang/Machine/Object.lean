import LoxLang.Machine.Store

/-!
# Objects

Classes and their instances: chains of base classes, the search for an attribute, the binding of a
method to its object, and the texts of values.
-/

namespace LoxLang

/-- What the search for an attribute of an instance finds first. -/
inductive Member
  | value (value : Value)
  | getter (closure : Closure)
  | method (closure : Closure)

/-- An attribute of an instance. A getter is bound and waits to be called. -/
inductive Attribute
  | value (value : Value)
  | getter (bound : Closure)

namespace Store

/-! ## Chains -/

/-- A class and the classes it derives from, the root last. The first argument bounds their
number. -/
def classesFrom (s : Store) : Nat → ClassId → List ClassId
  | 0, _ => []
  | fuel + 1, id =>
    id :: match (s.class? id).bind ClassObject.base with
      | some base => s.classesFrom fuel base
      | none => []

/-- A class and the classes it derives from. A base class is older than a class, so its age bounds
the chain. -/
def classChain (s : Store) (id : ClassId) : List ClassId :=
  s.classesFrom (id.index + 1) id

def portionsFrom (s : Store) : Nat → InstanceId → List InstanceId
  | 0, _ => []
  | fuel + 1, id =>
    id :: match (s.portion? id).bind Portion.base with
      | some base => s.portionsFrom fuel base
      | none => []

/-- A portion of an object and its base portions, the root last. -/
def portionChain (s : Store) (id : InstanceId) : List InstanceId :=
  s.portionsFrom (id.index + 1) id

/-- Make the portions of a new object, one for each class of the chain, the root first. -/
def buildPortions (s : Store) : List ClassId → Option InstanceId × Store
  | [] => (none, s)
  | classId :: bases =>
    let (base, s) := s.buildPortions bases
    let (id, s) := s.addPortion { classId, base }
    (some id, s)

/-- Make an instance of a class, without running an initializer. -/
def instantiate (s : Store) (classId : ClassId) : InstanceId × Store :=
  let (base, s) := s.buildPortions (s.classChain classId).tail
  s.addPortion { classId, base }

/-- The class that a portion belongs to. -/
def classOf? (s : Store) (id : InstanceId) : Option ClassObject :=
  (s.portion? id).bind fun portion => s.class? portion.classId

def className (s : Store) (id : ClassId) : String :=
  (s.class? id).elim "" ClassObject.name

def instanceClassName (s : Store) (id : InstanceId) : String :=
  (s.classOf? id).elim "" ClassObject.name

/-- The class that a value is. -/
def asClass? (s : Store) : Value → Option ClassId
  | .callable (.class id) => if (s.class? id).isSome then some id else none
  | _ => none

/-! ## Attributes -/

/-- A static method as a value. -/
def functionValue (id : FunctionId) : Value :=
  .callable (.function id)

/-- An attribute of a class itself: a field or a static method. -/
def ClassObject.attribute? (object : ClassObject) (name : String) : Option Value :=
  object.fields.find? name <|> (object.statics.find? name).map functionValue

/-- An attribute of a class or the nearest of its base classes that has it. -/
def classAttribute? (s : Store) (id : ClassId) (name : String) : Option Value :=
  (s.classChain id).findSome? fun id =>
    (s.class? id).bind fun object => ClassObject.attribute? object name

/-- A member of one portion: a field, a getter or method of its class, or an attribute of the class
itself. -/
def portionMember? (s : Store) (id : InstanceId) (name : String) : Option Member :=
  (s.portion? id).bind fun portion =>
    (portion.fields.find? name).map Member.value <|>
      (s.class? portion.classId).bind fun object =>
        (object.getters.find? name).map Member.getter <|>
        (object.methods.find? name).map Member.method <|>
        (ClassObject.attribute? object name).map Member.value

/-- The nearest portion of an object that has a member of this name, with the member. -/
def member? (s : Store) (id : InstanceId) (name : String) : Option (InstanceId × Member) :=
  (s.portionChain id).findSome? fun portion =>
    (s.portionMember? portion name).map fun member => (portion, member)

def setInstanceField (s : Store) (id : InstanceId) (name : String) (value : Value) : Store :=
  { s with instances := s.instances.modify id.index fun portion =>
      { portion with fields := portion.fields.insert name value } }

def setClassField (s : Store) (id : ClassId) (name : String) (value : Value) : Store :=
  { s with classes := s.classes.modify id.index fun object =>
      { object with fields := object.fields.insert name value } }

/-- The names that a method finds around its parameters: `this` and, in a derived class, `super`. -/
def receiverNames (id : InstanceId) (base : Option InstanceId) : NameMap Slot :=
  let this := NameMap.empty.insert "this" ⟨some (.instance id), true⟩
  match base with
  | some base => this.insert "super" ⟨some (.instance base), true⟩
  | none => this

/-- A method with a frame of its own for the object it works on. -/
def bind (s : Store) (closure : Closure) (id : InstanceId) : Closure × Store :=
  let base := (s.portion? id).bind Portion.base
  let kind := .receiver ((s.classOf? id).elim default ClassObject.decl)
  let (frame, s) := s.addFrame ⟨kind, receiverNames id base, some closure.frame⟩
  ({ closure with frame }, s)

/-- A member as an attribute: getters and methods are bound to the portion they are found in. -/
def realize (s : Store) (id : InstanceId) : Member → Attribute × Store
  | .value value => (.value value, s)
  | .getter closure =>
    let (bound, s) := s.bind closure id
    (.getter bound, s)
  | .method closure =>
    let (bound, s) := s.bind closure id
    let (function, s) := s.addFunction bound
    (.value (functionValue function), s)

/-- Find an attribute of an object and bind it. -/
def attribute? (s : Store) (id : InstanceId) (name : String) : Option Attribute × Store :=
  match s.member? id name with
  | some (portion, member) =>
    let (found, s) := s.realize portion member
    (some found, s)
  | none => (none, s)

/-! ## Initializers -/

/-- The initializer of a class itself. -/
def initializerOf? (s : Store) (id : ClassId) : Option Closure :=
  (s.class? id).bind fun object => object.methods.find? "init"

/-- The nearest portion whose class has an initializer, with the initializer. -/
def initializer? (s : Store) (id : InstanceId) : Option (InstanceId × Closure) :=
  (s.portionChain id).findSome? fun portion =>
    (s.portion? portion).bind fun p =>
      (s.initializerOf? p.classId).map fun closure => (portion, closure)

/-! ## Callables -/

def arity (s : Store) : Callable → Nat
  | .native id => (s.native? id).elim 0 fun native => native.builtin.arity
  | .function id => (s.function? id).elim 0 fun closure => closure.decl.params.length
  | .arrow id => (s.arrow? id).elim 0 fun closure => closure.decl.params.length
  | .class id =>
    ((s.classChain id).findSome? s.initializerOf?).elim 0 fun closure =>
      closure.decl.params.length

def displayCallable (s : Store) : Callable → String
  | .native id => "<native function " ++ (s.native? id).elim "" Native.name ++ ">"
  | .function id =>
    "<function " ++ (s.function? id).elim "" (fun closure => closure.decl.name.lexeme) ++ ">"
  | .arrow _ => "<arrow function>"
  | .class id => "<class " ++ s.className id ++ ">"

/-- The text of a value, as `print` writes it. -/
def display (s : Store) : Value → String
  | .nil => "nil"
  | .bool b => if b then "true" else "false"
  | .int n => Number.intText n
  | .float x => Number.FloatFormat.display.write x
  | .str text => text
  | .callable c => s.displayCallable c
  | .instance id => "<" ++ s.instanceClassName id ++ " instance>"

end Store

end LoxLang
