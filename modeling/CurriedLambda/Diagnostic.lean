import CurriedLambda.Token

/-!
Diagnostics: a code, a message and a range of the source. A range is never empty, so
that it can always be shown, and it is cut down to fit when the text it is shown in is
shorter than the one it was found in.
-/
namespace CurriedLambda

inductive Code
  | unexpectedToken
  | unexpectedEnd
  | unknownName
  | unusedParameter
  | unmatchedClose
  | misplacedClose
  | io
  | json
  deriving DecidableEq

namespace Code

def all : List Code :=
  [unexpectedToken, unexpectedEnd, unknownName, unusedParameter, unmatchedClose,
    misplacedClose, io, json]

def name : Code → String
  | unexpectedToken => "unexpected_token"
  | unexpectedEnd => "unexpected_eof"
  | unknownName => "unknown_name"
  | unusedParameter => "unused_parameter"
  | unmatchedClose => "unmatched_close_bracket"
  | misplacedClose => "misplaced_close_bracket"
  | io => "io"
  | json => "json_serialization"

def ofName? (name : String) : Option Code :=
  all.find? (·.name = name)

theorem ofName?_name (code : Code) : ofName? code.name = some code := by
  cases code <;> decide

end Code

/-- A range that holds at least one character. -/
structure Span where
  start : Nat
  length : Nat
  length_pos : 0 < length
  deriving DecidableEq

namespace Span

/-- The range of `length` characters from `start` on, or of one if there are none. -/
def ofLength (start length : Nat) : Span :=
  ⟨start, max length 1, by omega⟩

/-- The range from `start` up to `stop`, or of one character if it is empty. -/
def between (start stop : Nat) : Span :=
  ofLength start (stop - start)

/-- The offset just past the range. -/
def stop (span : Span) : Nat := span.start + span.length

/-- Start and length of the part of the range that lies in a text of `size` characters. -/
def clamp (span : Span) (size : Nat) : Nat × Nat :=
  let start := min span.start size
  (start, min span.stop size - start)

end Span

/-- The range of a token, or of one character if the token has none. -/
def Token.span (token : Token) : Span :=
  .ofLength token.start token.length

structure Diagnostic where
  code : Code
  message : String
  span : Span
  deriving DecidableEq

def Diagnostic.render (diagnostic : Diagnostic) : String :=
  "Error: " ++ diagnostic.message ++ ", Position: " ++ toString diagnostic.span.start ++
    "-" ++ toString diagnostic.span.stop

end CurriedLambda
