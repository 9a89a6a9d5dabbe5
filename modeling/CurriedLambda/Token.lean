/-!
Tokens of curried-lambda source. There are fifteen kinds, each with a numeric code,
a name for records and a wording for messages. A token is a kind, its text and the
place where it starts; its range is measured in characters, never in bytes.
-/
namespace CurriedLambda

inductive Kind
  | identifier
  | whitespace
  | newline
  | closeBracket
  | openBracket
  | lambda
  | integer
  | float
  | minus
  | plus
  | times
  | divide
  | greater
  | semicolon
  | invalid
  deriving DecidableEq

namespace Kind

/-- Every kind once, in the order of the codes. -/
def all : List Kind :=
  [identifier, whitespace, newline, closeBracket, openBracket, lambda, integer, float,
    minus, plus, times, divide, greater, semicolon, invalid]

/-- The stable number of a kind in tables and records. -/
def code : Kind → UInt8
  | identifier => 0
  | whitespace => 1
  | newline => 2
  | closeBracket => 3
  | openBracket => 4
  | lambda => 5
  | integer => 6
  | float => 7
  | minus => 8
  | plus => 9
  | times => 10
  | divide => 11
  | greater => 12
  | semicolon => 13
  | invalid => 14

/-- The name of a kind in tables and records. -/
def name : Kind → String
  | identifier => "Identifier"
  | whitespace => "Whitespace"
  | newline => "NewLine"
  | closeBracket => "CloseBracket"
  | openBracket => "OpenBracket"
  | lambda => "LambdaIntroducer"
  | integer => "Integer"
  | float => "Float"
  | minus => "SignMinus"
  | plus => "SignPlus"
  | times => "SignMultiply"
  | divide => "SignDivide"
  | greater => "SignMore"
  | semicolon => "EndOfExpression"
  | invalid => "InvalidCharacter"

/-- What messages call a token of this kind. -/
def wording : Kind → String
  | identifier => "identifier"
  | whitespace => "whitespace"
  | newline => "newline"
  | closeBracket => "`)`"
  | openBracket => "`(`"
  | lambda => "`\\`"
  | integer => "integer"
  | float => "float"
  | minus => "`-`"
  | plus => "`+`"
  | times => "`*`"
  | divide => "`/`"
  | greater => "`>`"
  | semicolon => "`;`"
  | invalid => "invalid character"

def ofName? (name : String) : Option Kind :=
  all.find? (·.name = name)

def isOperator : Kind → Bool
  | plus | minus | times | divide => true
  | _ => false

/-- The kinds that separate tokens and mean nothing to the grammar. -/
def isLayout : Kind → Bool
  | whitespace | newline => true
  | _ => false

/-- The kinds whose tokens differ in their text, which messages therefore quote. -/
def isQuoted : Kind → Bool
  | identifier | integer | float | invalid => true
  | _ => false

theorem ofName?_name (kind : Kind) : ofName? kind.name = some kind := by
  cases kind <;> decide

end Kind

/-- The text need not fit the kind: only the lexer promises that it does. -/
structure Token where
  kind : Kind
  text : String
  start : Nat
  deriving DecidableEq

namespace Token

def length (token : Token) : Nat := token.text.length

/-- The offset just past the token. -/
def stop (token : Token) : Nat := token.start + token.length

def position (token : Token) : String :=
  toString token.start ++ ": " ++ toString token.stop

/-- What messages call the token. -/
def describe (token : Token) : String :=
  if token.kind.isQuoted then token.kind.wording ++ " `" ++ token.text ++ "`"
  else token.kind.wording

end Token

end CurriedLambda
