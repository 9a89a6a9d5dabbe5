import CurriedLambda.Diagnostic
import CurriedLambda.Expected

/-!
The problems that checking can find, each with the tokens it is about. Code, message
and range of the diagnostic follow from the problem.
-/
namespace CurriedLambda

inductive Problem
  /-- Not what was expected. The tokens from `found` up to the next fitting one are
  skipped; `skipped` is empty if none fits before the tokens end. -/
  | unexpected (expected : Expected) (found : Token) (skipped : List Token)
  /-- The tokens end inside an expression, `last` being the last of all but white space. -/
  | exhausted (expected : Expected) (last : Option Token)
  | unknownName (reference : Token)
  | unusedParameter (parameter : Token)
  /-- A closing bracket without a partner. -/
  | unmatchedClose (bracket : Token)
  /-- A closing bracket where an operand should start. -/
  | misplacedClose (bracket : Token)
  deriving DecidableEq

namespace Problem

def code : Problem → Code
  | unexpected .. => .unexpectedToken
  | exhausted .. => .unexpectedEnd
  | unknownName _ => .unknownName
  | unusedParameter _ => .unusedParameter
  | unmatchedClose _ => .unmatchedClose
  | misplacedClose _ => .misplacedClose

/-- One line for each skipped token, each after a line break. -/
def skippedLines : List Token → String
  | [] => ""
  | token :: rest =>
    "\n  skipped " ++ token.describe ++ " at " ++ toString token.start ++ skippedLines rest

def message : Problem → String
  | unexpected expected found skipped =>
    "expected " ++ expected.wording ++ ", found " ++ found.describe ++ skippedLines skipped
  | exhausted expected _ => "expected " ++ expected.wording ++ ", found nothing"
  | unknownName reference =>
    "name `" ++ reference.text ++ "` does not exist in current context"
  | unusedParameter parameter => "unused parameter named `" ++ parameter.text ++ "`"
  | unmatchedClose _ => "closing bracket without matching opening bracket"
  | misplacedClose _ => "closing bracket misplaced"

def span : Problem → Span
  | unexpected _ found skipped => .between found.start (skipped.getLastD found).stop
  | exhausted _ none => .ofLength 0 1
  | exhausted _ (some token)
  | unknownName token
  | unusedParameter token
  | unmatchedClose token
  | misplacedClose token => token.span

def toDiagnostic (problem : Problem) : Diagnostic :=
  ⟨problem.code, problem.message, problem.span⟩

end Problem

end CurriedLambda
