import CurriedLambda.Diagnostic

/-!
Failures of the surroundings, as opposed to problems in a source text: something could
not be brought in or not be put out.
-/
namespace CurriedLambda

inductive Direction
  | importing
  | exporting
  deriving DecidableEq

def Direction.name : Direction → String
  | importing => "Import"
  | exporting => "Export"

structure Failure where
  direction : Direction
  code : Code
  details : Option String
  deriving DecidableEq

namespace Failure

/-- A failure of the operating system, with the text that the system has for it. -/
def ofSystem (text : String) : Failure :=
  ⟨.importing, .io, some text⟩

/-- Details that are empty still show their colon. -/
def render (failure : Failure) : String :=
  let details := match failure.details with
    | some text => ": " ++ text
    | none => ""
  failure.direction.name ++ "Error\x7b" ++ failure.code.name ++ details ++ "\x7d"

end Failure

end CurriedLambda
