/-!
Places in a text, counted in characters: the line and column of an offset, and the part
of a text that a range covers. Offsets and ranges may lie past the end of the text, as
they do when the text has been shortened since they were computed.
-/
namespace CurriedLambda

/-- A line and a column, both counted from 1. -/
structure LineColumn where
  line : Nat
  column : Nat
  deriving DecidableEq

/-- The place just after a character that stands here. -/
def LineColumn.after (place : LineColumn) (c : Char) : LineColumn :=
  if c = '\n' then ⟨place.line + 1, 1⟩ else ⟨place.line, place.column + 1⟩

/-- The place of the character at `offset`, or of the end of the text. -/
def lineColumn (text : String) (offset : Nat) : LineColumn :=
  (text.toList.take offset).foldl LineColumn.after ⟨1, 1⟩

/-- At most `length` characters of `text`, from the one at `start` on. -/
def excerpt (text : String) (start length : Nat) : String :=
  String.ofList ((text.toList.drop start).take length)

end CurriedLambda
