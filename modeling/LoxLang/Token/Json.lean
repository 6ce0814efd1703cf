import LoxLang.Json.Writing
import LoxLang.Token

/-!
# Tokens as JSON

A token is an object of its kind, its lexeme, its line and its span. A literal's kind holds its
value.
-/

namespace LoxLang

def Numeral.toJson : Numeral → Json
  | .int n => .number (Number.intText n).toList
  | .float x => .number (Number.FloatFormat.json.write x).toList

def TokenKind.toJson : TokenKind → Json
  | .string contents => .ofMembers [("STRING", .ofString contents)]
  | .number value => .ofMembers [("NUMBER", value.toJson)]
  | kind => .ofString kind.name

def Span.toJson (span : Span) : Json :=
  .ofMembers [("start", .ofNat span.start), ("end", .ofNat span.stop)]

def Token.toJson (token : Token) : Json :=
  .ofMembers [("token_type", token.kind.toJson), ("lexeme", .ofString token.lexeme),
    ("line", .ofNat token.line), ("span", token.span.toJson)]

end LoxLang
