import LoxLang.Fault
import LoxLang.Text.Utf8
import LoxLang.Token.Lexeme

/-!
# Scanning

A source as a sequence of tokens and lexical faults that ends with one end token. After a fault the
text is skipped up to the next line feed or brace, so that one malformed run gives one fault.
-/

namespace LoxLang

/-- What scanning finds in a source. -/
inductive Scanned
  | token (token : Token)
  /-- A malformed piece, under an `unknown` token. -/
  | fault (fault : LexicalFault) (token : Token)

namespace Scanned

def token? : Scanned → Option Token
  | token t => some t
  | fault _ _ => none

/-- Where scanning takes up again after a fault. -/
def isResumePoint (c : Char) : Bool :=
  c = '\n' || c = '{' || c = '}'

/-- Scan a text that starts at a byte offset on a line. The first argument bounds the number of
pieces. -/
def ofChars : Nat → Nat → Nat → List Char → List Scanned
  | _, offset, line, [] => [token ⟨.eof, "", line, ⟨offset, offset⟩⟩]
  | 0, offset, line, _ :: _ => [token ⟨.eof, "", line, ⟨offset, offset⟩⟩]
  | fuel + 1, offset, line, c :: cs =>
    let lexeme := Lexeme.read c cs
    let stop := offset + Text.byteLength lexeme.taken
    let lastLine := line + Text.lineFeeds lexeme.taken
    let asToken (kind : TokenKind) : Token :=
      ⟨kind, String.ofList lexeme.taken, lastLine, ⟨offset, stop⟩⟩
    match lexeme.kind with
    | .skipped => ofChars fuel stop lastLine lexeme.rest
    | .token kind => token (asToken kind) :: ofChars fuel stop lastLine lexeme.rest
    | .malformed cause =>
      let passed := lexeme.rest.takeWhile fun c => !isResumePoint c
      fault cause (asToken .unknown) ::
        ofChars fuel (stop + Text.byteLength passed) lastLine
          (lexeme.rest.dropWhile fun c => !isResumePoint c)

/-- Scan a whole source. Every piece takes a character, so the length of the source bounds their
number. -/
def ofSource (source : String) : List Scanned :=
  let cs := source.toList
  ofChars cs.length 0 1 cs

end Scanned

def LexicalFault.toFault (cause : LexicalFault) (token : Token) : Fault :=
  .located .lexical cause.message token

/-- The tokens and the faults of a source, each in order. -/
def scan (source : String) : List Token × List Fault :=
  let items := Scanned.ofSource source
  (items.filterMap Scanned.token?,
    items.filterMap fun
      | .token _ => none
      | .fault cause token => some (cause.toFault token))

end LoxLang
