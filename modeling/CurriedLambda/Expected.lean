import CurriedLambda.Token

/-!
What the grammar can ask for at one place: a set of token kinds, and its wording in
messages, which lists the kinds in a fixed order.
-/
namespace CurriedLambda

inductive Expected
  | openBracket
  | lambda
  | parameter
  | arrow
  | operand
  | operator
  | operatorOrClose
  | number
  | semicolon
  deriving DecidableEq

/-- Joins alternatives by commas, and the last two by "or". -/
def alternatives : List String → String
  | [] => ""
  | [last] => last
  | [first, last] => first ++ " or " ++ last
  | first :: rest => first ++ ", " ++ alternatives rest

namespace Expected

/-- A minus starts the arrow that ends a parameter list. -/
def kinds : Expected → List Kind
  | openBracket => [.openBracket]
  | lambda => [.lambda]
  | parameter => [.identifier, .minus]
  | arrow => [.greater]
  | operand => [.identifier, .integer, .float]
  | operator => [.plus, .minus, .times, .divide]
  | operatorOrClose => [.plus, .minus, .times, .divide, .closeBracket]
  | number => [.integer, .float]
  | semicolon => [.semicolon]

def accepts (expected : Expected) (kind : Kind) : Bool :=
  kind ∈ expected.kinds

def wording (expected : Expected) : String :=
  alternatives (expected.kinds.map Kind.wording)

end Expected

end CurriedLambda
