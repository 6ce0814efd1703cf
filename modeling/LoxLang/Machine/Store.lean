import LoxLang.Machine.Builtin
import LoxLang.Machine.Fault
import LoxLang.NameMap
import LoxLang.ScopeKind
import LoxLang.Syntax

/-!
# The store

Everything in a running program that is shared and has an identity: frames of names, functions,
classes and instances. Nothing is ever removed, and each thing refers only to older ones as its
outer frame, its base class or its base portion.
-/

namespace LoxLang

/-- The contents of a name. -/
structure Slot where
  /-- There is none before the first assignment. -/
  value : Option Value
  isConst : Bool
  deriving DecidableEq

/-- The value in a slot that a program reads. -/
def Slot.read (slot : Slot) (name : Token) : Except RunError Value :=
  match slot.value with
  | some value => .ok value
  | none => .error (.located (.uninitialized name.lexeme) name)

/-- Whether a program may write to a slot. -/
def Slot.checkWrite (slot : Slot) (name : Token) : Except RunError Unit :=
  if slot.isConst then .error (.located (.constant name.lexeme) name) else .ok ()

/-- The names of one scope while the program runs. -/
structure Frame where
  kind : ScopeKind
  names : NameMap Slot := .empty
  /-- The frame around it; the globals have none. -/
  outer : Option FrameId

/-- A function with the frame it was declared in. -/
structure Closure where
  decl : FunctionDecl
  frame : FrameId
  /-- Whether a call gives back the object instead of the value of the body. -/
  isInitializer : Bool

structure ArrowClosure where
  decl : ArrowDecl
  frame : FrameId

structure ClassObject where
  name : String
  /-- The declaration it comes from. -/
  decl : ClassDecl := default
  base : Option ClassId := none
  methods : NameMap Closure := .empty
  getters : NameMap Closure := .empty
  statics : NameMap FunctionId := .empty
  /-- Fields that belong to the class itself. -/
  fields : NameMap Value := .empty

/-- The part of an object that belongs to one class of its chain. An object is known by the part of
its own class. -/
structure Portion where
  classId : ClassId
  fields : NameMap Value := .empty
  base : Option InstanceId := none

structure Store where
  frames : Array Frame := #[]
  natives : Array Native := #[]
  functions : Array Closure := #[]
  arrows : Array ArrowClosure := #[]
  classes : Array ClassObject := #[]
  instances : Array Portion := #[]

namespace Store

instance : Inhabited Store := ⟨{}⟩

def frame? (s : Store) (id : FrameId) : Option Frame :=
  s.frames[id.index]?

def native? (s : Store) (id : NativeId) : Option Native :=
  s.natives[id.index]?

def function? (s : Store) (id : FunctionId) : Option Closure :=
  s.functions[id.index]?

def arrow? (s : Store) (id : ArrowId) : Option ArrowClosure :=
  s.arrows[id.index]?

def class? (s : Store) (id : ClassId) : Option ClassObject :=
  s.classes[id.index]?

def portion? (s : Store) (id : InstanceId) : Option Portion :=
  s.instances[id.index]?

/-! ## Adding to the store -/

def addFrame (s : Store) (frame : Frame) : FrameId × Store :=
  (⟨s.frames.size⟩, { s with frames := s.frames.push frame })

def addNative (s : Store) (native : Native) : NativeId × Store :=
  (⟨s.natives.size⟩, { s with natives := s.natives.push native })

def addFunction (s : Store) (closure : Closure) : FunctionId × Store :=
  (⟨s.functions.size⟩, { s with functions := s.functions.push closure })

def addArrow (s : Store) (closure : ArrowClosure) : ArrowId × Store :=
  (⟨s.arrows.size⟩, { s with arrows := s.arrows.push closure })

def addClass (s : Store) (object : ClassObject) : ClassId × Store :=
  (⟨s.classes.size⟩, { s with classes := s.classes.push object })

def addPortion (s : Store) (portion : Portion) : InstanceId × Store :=
  (⟨s.instances.size⟩, { s with instances := s.instances.push portion })

/-! ## Names -/

/-- Bind a name in a frame, whatever was bound there. -/
def declare (s : Store) (id : FrameId) (name : String) (value : Option Value) (isConst : Bool) :
    Store :=
  { s with frames := s.frames.modify id.index fun frame =>
      { frame with names := frame.names.insert name ⟨value, isConst⟩ } }

/-- Put a value into a name of a frame. -/
def store (s : Store) (id : FrameId) (name : String) (value : Value) : Store :=
  { s with frames := s.frames.modify id.index fun frame =>
      { frame with names := frame.names.modify name fun slot => { slot with value := some value } } }

def slot? (s : Store) (id : FrameId) (name : String) : Option Slot :=
  (s.frame? id).bind fun frame => frame.names.find? name

def isDeclared (s : Store) (id : FrameId) (name : String) : Bool :=
  (s.slot? id name).isSome

/-- The frame around a frame. -/
def outer? (s : Store) (id : FrameId) : Option FrameId :=
  (s.frame? id).bind Frame.outer

/-- The frame so many steps further out. -/
def ancestor? (s : Store) (id : FrameId) : Nat → Option FrameId
  | 0 => some id
  | distance + 1 => (s.outer? id).bind fun outer => s.ancestor? outer distance

/-- The nearest frame that binds a name, on the way out. The first argument bounds the way. -/
def ownerWithin (s : Store) (name : String) : Nat → FrameId → Option FrameId
  | 0, _ => none
  | fuel + 1, id =>
    if s.isDeclared id name then some id
    else (s.outer? id).bind (s.ownerWithin name fuel)

/-- The nearest frame that binds a name. Outer frames are older, so the age of a frame bounds the
way out. -/
def owner? (s : Store) (id : FrameId) (name : String) : Option FrameId :=
  s.ownerWithin name (id.index + 1) id

def undefinedError (name : Token) : RunError :=
  .located (.undefined name.lexeme) name

def unboundError (name : Token) : RunError :=
  .located (.unbound name.lexeme) name

/-- The frame that a plain search from a frame finds, with its slot. -/
def search (s : Store) (id : FrameId) (name : Token) : Except RunError (FrameId × Slot) :=
  match s.owner? id name.lexeme with
  | some owner =>
    match s.slot? owner name.lexeme with
    | some slot => .ok (owner, slot)
    | none => .error (undefinedError name)
  | none => .error (undefinedError name)

/-- The frame at a distance, with its slot for a name. No other frame is asked. -/
def searchAt (s : Store) (id : FrameId) (distance : Nat) (name : Token) :
    Except RunError (FrameId × Slot) :=
  match s.ancestor? id distance with
  | some owner =>
    match s.slot? owner name.lexeme with
    | some slot => .ok (owner, slot)
    | none => .error (unboundError name)
  | none => .error (unboundError name)

/-- Read a name, searching outward. -/
def get (s : Store) (id : FrameId) (name : Token) : Except RunError Value := do
  (← s.search id name).2.read name

/-- Read a name of the frame at a distance. -/
def getAt (s : Store) (id : FrameId) (distance : Nat) (name : Token) : Except RunError Value := do
  (← s.searchAt id distance name).2.read name

/-- The frame in which a plain search may write a name. -/
def writable (s : Store) (id : FrameId) (name : Token) : Except RunError FrameId := do
  let (owner, slot) ← s.search id name
  slot.checkWrite name
  return owner

/-- The frame at a distance, if the name may be written there. -/
def writableAt (s : Store) (id : FrameId) (distance : Nat) (name : Token) :
    Except RunError FrameId := do
  let (owner, slot) ← s.searchAt id distance name
  slot.checkWrite name
  return owner

/-- Write a name, searching outward. -/
def assign (s : Store) (id : FrameId) (name : Token) (value : Value) : Except RunError Store := do
  return s.store (← s.writable id name) name.lexeme value

/-- Write a name of the frame at a distance. -/
def assignAt (s : Store) (id : FrameId) (distance : Nat) (name : Token) (value : Value) :
    Except RunError Store := do
  return s.store (← s.writableAt id distance name) name.lexeme value

end Store

end LoxLang
