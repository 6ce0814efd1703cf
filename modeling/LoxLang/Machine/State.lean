import LoxLang.Machine.Object
import LoxLang.Machine.Operator

/-!
# Machines

The state of a running program and the single steps that read and change it.
-/

namespace LoxLang

/-- The device that takes the output. -/
structure Sink where
  /-- What has been written and not been collected yet. -/
  text : String := ""
  /-- The number of bytes that still fit; there may be no limit. -/
  room : Option Nat := none
  failFlush : Bool := false

namespace Sink

/-- The text of the longest beginning of at most `room` bytes; a replacement character stands for
a part of a character. -/
def fitting : Nat → List Char → List Char
  | _, [] => []
  | 0, _ => []
  | room + 1, c :: cs =>
    if room + 1 < c.utf8Size then ['\uFFFD'] else c :: fitting (room + 1 - c.utf8Size) cs

/-- Write a text, or as much of it as fits, and tell whether all of it did. -/
def write (sink : Sink) (text : String) : Bool × Sink :=
  match sink.room with
  | none => (true, { sink with text := sink.text ++ text })
  | some room =>
    if text.utf8ByteSize ≤ room then
      (true, { sink with text := sink.text ++ text, room := some (room - text.utf8ByteSize) })
    else
      (false, { sink with
        text := sink.text ++ String.ofList (fitting room text.toList), room := some 0 })

end Sink

structure Machine where
  store : Store
  /-- The frame in which names are declared now. -/
  here : FrameId
  /-- The number of function bodies that are being executed. -/
  depth : Nat
  host : Host
  sink : Sink

/-- The most function bodies that may be executed inside one another. -/
def maxDepth : Nat := 1000

/-- The frame of the globals. -/
def globalFrame : FrameId := ⟨0⟩

/-- Why an evaluation stops. -/
inductive Halt
  | error (error : RunError)
  /-- The bound on the depth of the evaluation is too small. -/
  | outOfFuel

/-- A step of an evaluation. The machine is kept where it stops. -/
abbrev Eval := EStateM Halt Machine

namespace Machine

/-- Bind a built-in function. -/
def bindNative (s : Store) (native : Native) : Store :=
  let (id, s) := s.addNative native
  s.declare globalFrame native.name (some (.callable (.native id))) true

/-- A machine that has executed nothing. Of two functions of one name the later is bound. -/
def start (natives : List Native) (host : Host) (sink : Sink) : Machine :=
  let (_, globals) := Store.addFrame {} ⟨.globals, .empty, none⟩
  { store := natives.foldl bindNative globals, here := globalFrame, depth := 0, host, sink }

def isGlobal (m : Machine) (name : String) : Bool :=
  m.store.isDeclared globalFrame name

/-- Take the collected output. -/
def collect (m : Machine) : String × Machine :=
  (m.sink.text, { m with sink := { m.sink with text := "" } })

end Machine

namespace Eval

variable {α : Type}

def outOfFuel : Eval α :=
  throw .outOfFuel

def stop (error : RunError) : Eval α :=
  throw (.error error)

def fail (cause : RunFault) (token : Token) : Eval α :=
  stop (.located cause token)

/-- Ask the machine something that may fail. -/
def ask (question : Machine → Except RunError α) : Eval α := fun m =>
  match question m with
  | .ok a => .ok a m
  | .error error => .error (.error error) m

/-- Ask the store. -/
def inspect (question : Store → α) : Eval α := fun m =>
  .ok (question m.store) m

def changeStore (change : Store → Store) : Eval Unit :=
  modify fun m => { m with store := change m.store }

/-- Change the store and take something from it. -/
def updateStore (update : Store → α × Store) : Eval α :=
  modifyGet fun m =>
    let (a, store) := update m.store
    (a, { m with store })

/-- The result of an operator at its token. -/
def computed (result : Computed) (operator : Token) : Eval Value :=
  match result with
  | .ok value => return value
  | .error cause => fail cause operator

/-- Do something with another frame as the current one, and come back. -/
def within (frame : FrameId) (act : Eval α) : Eval α := fun m =>
  let previous := m.here
  match act { m with here := frame } with
  | .ok a after => .ok a { after with here := previous }
  | .error halt after => .error halt { after with here := previous }

/-- Count a function body while it is executed. -/
def counted (place : Token) (act : Eval α) : Eval α := fun m =>
  if maxDepth ≤ m.depth then .error (.error (.located .tooDeep place)) m
  else
    match act { m with depth := m.depth + 1 } with
    | .ok a after => .ok a { after with depth := after.depth - 1 }
    | .error halt after => .error halt { after with depth := after.depth - 1 }

/-- Open a frame inside the current one. -/
def openFrame (kind : ScopeKind) : Eval FrameId :=
  modifyGet fun m =>
    let outer := m.here
    let (id, store) := m.store.addFrame ⟨kind, .empty, some outer⟩
    (id, { m with store })

/-- Bind a name in the current frame. -/
def declare (name : String) (value : Option Value) (isConst : Bool) : Eval Unit :=
  modify fun m =>
    let frame := m.here
    { m with store := m.store.declare frame name value isConst }

/-- Let the device write a text and pass it on. -/
def write (text : String) : Eval Unit := do
  let complete ← modifyGet fun m =>
    let (complete, sink) := m.sink.write text
    (complete, { m with sink })
  if complete then
    if (← get).sink.failFlush then stop (.device .flushFailed)
  else stop (.device .sinkFull)

end Eval

end LoxLang
