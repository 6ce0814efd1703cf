import LoxLang.Machine.Value
import LoxLang.Number.Reading

/-!
# Built-in functions

The functions that every program can use. Two of them reach outside: one reads the clock and one a
line of input.
-/

namespace LoxLang

inductive Builtin
  | clock
  | input
  | len
  | floor
  | parseInt
  | parseFloat
  | toString
  deriving DecidableEq, Repr

/-- A clock: what it shows each time that it is read, and what it shows ever after. -/
structure Clock where
  last : Float
  readings : List Float := []

namespace Clock

/-- A clock that stands still. -/
instance : Coe Float Clock := ⟨fun time => { last := time }⟩

def read (clock : Clock) : Float × Clock :=
  match clock.readings with
  | [] => (clock.last, clock)
  | time :: readings => (time, { clock with readings })

end Clock

/-- What is outside of a program: a clock, and the lines of input to come. -/
structure Host where
  clock : Clock
  lines : List String := []

namespace Builtin

/-- All built-in functions, in the order of their declaration. -/
def all : List Builtin :=
  [clock, input, len, floor, parseInt, parseFloat, .toString]

def name : Builtin → String
  | clock => "clock"
  | input => "input"
  | len => "len"
  | floor => "floor"
  | parseInt => "parse_int"
  | parseFloat => "parse_float"
  | .toString => "to_string"

def ofName? (name : String) : Option Builtin :=
  all.find? fun builtin => builtin.name == name

def arity : Builtin → Nat
  | clock | input => 0
  | _ => 1

/-- The number of characters of a string. -/
def length : Option Value → Except String Value
  | some (.str s) => .ok (.int (Int64.ofNat s.length))
  | _ => .error "len function only works with str"

/-- The greatest integer that is not above a number; a float where no 64-bit integer is it. -/
def floorOf : Option Value → Except String Value
  | some (.int n) => .ok (.int n)
  | some (.float x) =>
    match (Number.floor? x).bind Number.fit? with
    | some n => .ok (.int n)
    | none => .ok (.float x)
  | _ => .error "floor function only works with numeric values"

/-- The integer of a text, a number without its fraction, or a truth value as one or zero. -/
def intOf : Option Value → Option Int64
  | some (.str s) => Number.int64? (Text.trim s.toList)
  | some (.int n) => some n
  | some (.float x) => (Number.truncate? x).map Number.clamp
  | some (.bool b) => some (if b then 1 else 0)
  | _ => none

/-- The float of a text or number, or of a truth value. -/
def floatOf : Option Value → Option Float
  | some (.str s) => Number.float? (Text.trim s.toList)
  | some (.int n) => some (Number.ofInt64 n)
  | some (.float x) => some x
  | some (.bool b) => some (if b then 1.0 else 0.0)
  | _ => none

/-- The next line of input, `nil` behind the last. -/
def nextLine (host : Host) : Value × Host :=
  match host.lines with
  | [] => (.nil, host)
  | line :: rest => (.str line, { host with lines := rest })

/-- Call a function with its arguments. `display` is the text of a value. -/
def call (builtin : Builtin) (display : Value → String) (host : Host) (args : List Value) :
    Except String Value × Host :=
  match builtin with
  | clock =>
    let (time, after) := host.clock.read
    (.ok (.float time), { host with clock := after })
  | input =>
    let (line, after) := nextLine host
    (.ok line, after)
  | len => (length args.head?, host)
  | floor => (floorOf args.head?, host)
  | parseInt => (.ok ((intOf args.head?).elim .nil .int), host)
  | parseFloat => (.ok ((floatOf args.head?).elim .nil .float), host)
  | .toString => (.ok (.str (args.head?.elim "" display)), host)

end Builtin

/-- A built-in function under the name it is bound to. -/
structure Native where
  name : String
  builtin : Builtin
  deriving DecidableEq, Repr

def Builtin.toNative (builtin : Builtin) : Native :=
  ⟨builtin.name, builtin⟩

/-- The functions that every program starts with. -/
def standardNatives : List Native :=
  Builtin.all.map Builtin.toNative

end LoxLang
