import LoxLang.Number.FloatText

/-!
# Tokens

The words of a program: their kinds, the place each came from and the line that shows one.
-/

namespace LoxLang

/-- Punctuation and operators. -/
inductive Symbol
  | leftParen | rightParen | leftBrace | rightBrace
  | comma | dot | colon | questionMark | semicolon
  | minus | minusEqual | plus | plusEqual
  | slash | slashEqual | star | starEqual | percentage | percentageEqual
  | bang | bangEqual | equal | equalEqual | arrow
  | greater | greaterEqual | less | lessEqual
  deriving DecidableEq, Repr

inductive Keyword
  | and | assert | break | «class» | const | continue | else | false | fun | for | if | nil | not
  | or | print | println | return | super | this | true | typeof | var | while
  deriving DecidableEq, Repr

namespace Symbol

def text : Symbol → String
  | leftParen => "(" | rightParen => ")" | leftBrace => "\x7b" | rightBrace => "\x7d"
  | comma => "," | dot => "." | colon => ":" | questionMark => "?" | semicolon => ";"
  | minus => "-" | minusEqual => "-=" | plus => "+" | plusEqual => "+="
  | slash => "/" | slashEqual => "/=" | star => "*" | starEqual => "*="
  | percentage => "%" | percentageEqual => "%="
  | bang => "!" | bangEqual => "!=" | equal => "=" | equalEqual => "==" | arrow => "=>"
  | greater => ">" | greaterEqual => ">=" | less => "<" | lessEqual => "<="

def name : Symbol → String
  | leftParen => "LEFT_PAREN" | rightParen => "RIGHT_PAREN"
  | leftBrace => "LEFT_BRACE" | rightBrace => "RIGHT_BRACE"
  | comma => "COMMA" | dot => "DOT" | colon => "COLON" | questionMark => "QUESTION_MARK"
  | semicolon => "SEMICOLON"
  | minus => "MINUS" | minusEqual => "MINUS_EQUAL" | plus => "PLUS" | plusEqual => "PLUS_EQUAL"
  | slash => "SLASH" | slashEqual => "SLASH_EQUAL" | star => "STAR" | starEqual => "STAR_EQUAL"
  | percentage => "PERCENTAGE" | percentageEqual => "PERCENTAGE_EQUAL"
  | bang => "BANG" | bangEqual => "BANG_EQUAL" | equal => "EQUAL" | equalEqual => "EQUAL_EQUAL"
  | arrow => "ARROW"
  | greater => "GREATER" | greaterEqual => "GREATER_EQUAL" | less => "LESS"
  | lessEqual => "LESS_EQUAL"

/-- The symbol written with one character. -/
def ofChar? : Char → Option Symbol
  | '(' => some leftParen | ')' => some rightParen
  | '{' => some leftBrace | '}' => some rightBrace
  | ',' => some comma | '.' => some dot | ':' => some colon | '?' => some questionMark
  | ';' => some semicolon
  | '-' => some minus | '+' => some plus | '/' => some slash | '*' => some star
  | '%' => some percentage | '!' => some bang | '=' => some equal
  | '>' => some greater | '<' => some less
  | _ => none

/-- The symbol written with two characters. -/
def ofPair? : Char → Char → Option Symbol
  | '-', '=' => some minusEqual | '+', '=' => some plusEqual | '/', '=' => some slashEqual
  | '*', '=' => some starEqual | '%', '=' => some percentageEqual
  | '!', '=' => some bangEqual | '=', '=' => some equalEqual | '=', '>' => some arrow
  | '>', '=' => some greaterEqual | '<', '=' => some lessEqual
  | _, _ => none

end Symbol

namespace Keyword

def all : List Keyword :=
  [and, assert, .break, .class, const, .continue, .else, .false, .fun, .for, .if, nil, not,
   or, print, println, .return, super, this, .true, typeof, var, .while]

def text : Keyword → String
  | and => "and" | assert => "assert" | .break => "break" | .class => "class"
  | const => "const" | .continue => "continue" | .else => "else" | .false => "false"
  | .fun => "fun" | .for => "for" | .if => "if" | nil => "nil" | not => "not" | or => "or"
  | print => "print" | println => "println" | .return => "return" | super => "super"
  | this => "this" | .true => "true" | typeof => "typeof" | var => "var" | .while => "while"

def name : Keyword → String
  | and => "AND" | assert => "ASSERT" | .break => "BREAK" | .class => "CLASS"
  | const => "CONST" | .continue => "CONTINUE" | .else => "ELSE" | .false => "FALSE"
  | .fun => "FUN" | .for => "FOR" | .if => "IF" | nil => "NIL" | not => "NOT" | or => "OR"
  | print => "PRINT" | println => "PRINTLN" | .return => "RETURN" | super => "SUPER"
  | this => "THIS" | .true => "TRUE" | typeof => "TYPEOF" | var => "VAR" | .while => "WHILE"

def ofText? (word : String) : Option Keyword :=
  all.find? fun keyword => keyword.text == word

theorem mem_all (keyword : Keyword) : keyword ∈ all := by
  cases keyword <;> decide

end Keyword

/-- The value of a numeric literal. -/
inductive Numeral
  | int (n : Int64)
  | float (x : Float)

def Numeral.display : Numeral → String
  | .int n => Number.intText n
  | .float x => Number.FloatFormat.display.write x

inductive TokenKind
  | symbol (symbol : Symbol)
  | keyword (keyword : Keyword)
  | identifier
  /-- The text between the quotes, as it stands. -/
  | string (contents : String)
  | number (value : Numeral)
  /-- A malformed piece of text; only error reports point at it. -/
  | unknown
  /-- The end of the source. -/
  | eof

namespace TokenKind

def name : TokenKind → String
  | symbol s => s.name
  | keyword k => k.name
  | identifier => "IDENTIFIER"
  | string _ => "STRING"
  | number _ => "NUMBER"
  | unknown => "UNKNOWN"
  | eof => "EOF"

def isSymbol (s : Symbol) : TokenKind → Bool
  | symbol t => s = t
  | _ => Bool.false

def isKeyword (k : Keyword) : TokenKind → Bool
  | keyword l => k = l
  | _ => Bool.false

def isIdentifier : TokenKind → Bool
  | identifier => Bool.true
  | _ => Bool.false

def isEof : TokenKind → Bool
  | eof => Bool.true
  | _ => Bool.false

end TokenKind

/-- The bytes of a source from `start` up to, and without, `stop`. -/
structure Span where
  start : Nat
  stop : Nat
  deriving DecidableEq, Repr

structure Token where
  kind : TokenKind
  lexeme : String
  /-- The line on which the token ends, counted from one. -/
  line : Nat
  span : Span

namespace Token

instance : Inhabited Token := ⟨⟨.identifier, "", 1, ⟨0, 0⟩⟩⟩

/-- A token that no text spells, placed where `place` stands. -/
def synthetic (kind : TokenKind) (lexeme : String) (place : Token) : Token :=
  { place with kind, lexeme }

/-- An identifier alone in a source of its own. -/
def ofName (lexeme : String) (line : Nat) : Token :=
  ⟨.identifier, lexeme, line, ⟨0, lexeme.utf8ByteSize⟩⟩

/-- Kind, lexeme and literal value, `null` where there is none. -/
def display (token : Token) : String :=
  let value := match token.kind with
    | .string contents => contents
    | .number n => n.display
    | _ => "null"
  token.kind.name ++ " " ++ token.lexeme ++ " " ++ value

end Token

end LoxLang
