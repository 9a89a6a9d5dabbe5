import CurriedLambda.Json.Value

/-!
The lexemes of JSON text. White space between them is dropped; every lexeme is as long
as it can be, and text that spells none makes the whole text unreadable.
-/
namespace CurriedLambda.Json

inductive Lexeme
  | openObject
  | closeObject
  | openArray
  | closeArray
  | colon
  | comma
  | text (content : List CodePoint)
  /-- A numeral or a literal name. -/
  | atom (value : Json)

namespace Lexeme

def isSpace (c : Char) : Bool :=
  c = ' ' || c = '\t' || c = '\n' || c = '\r'

/-- Reads one lexeme from text that starts with one. -/
def read : List Char → Option (Lexeme × List Char)
  | '\x7b' :: rest => some (openObject, rest)
  | '\x7d' :: rest => some (closeObject, rest)
  | '[' :: rest => some (openArray, rest)
  | ']' :: rest => some (closeArray, rest)
  | ':' :: rest => some (colon, rest)
  | ',' :: rest => some (comma, rest)
  | '"' :: rest =>
    (unquote rest).map fun (content, after) => (text (CodePoint.joinPairs content), after)
  | 'n' :: 'u' :: 'l' :: 'l' :: rest => some (atom .null, rest)
  | 't' :: 'r' :: 'u' :: 'e' :: rest => some (atom (.bool true), rest)
  | 'f' :: 'a' :: 'l' :: 's' :: 'e' :: rest => some (atom (.bool false), rest)
  | chars => (Numeral.read chars).map fun (numeral, after) => (atom (.number numeral), after)

theorem length_read {chars after : List Char} {lexeme : Lexeme}
    (h : read chars = some (lexeme, after)) : after.length < chars.length := by
  unfold read at h
  split at h
  case h_7 =>
    obtain ⟨⟨_, _⟩, hread, h⟩ := Option.map_eq_some_iff.mp h
    cases h
    exact Nat.lt_succ_of_lt (length_unquote hread)
  case h_11 =>
    obtain ⟨⟨_, _⟩, hread, h⟩ := Option.map_eq_some_iff.mp h
    cases h
    exact Numeral.length_read hread
  all_goals
    cases h
    simp only [List.length_cons]
    omega

/-- Reads all the lexemes of a text. -/
def readAll : List Char → Option (List Lexeme)
  | [] => some []
  | c :: rest =>
    if isSpace c then readAll rest
    else
      match _h : read (c :: rest) with
      | none => none
      | some (lexeme, after) => (readAll after).map (lexeme :: ·)
termination_by chars => chars.length
decreasing_by
  · simp
  · exact length_read _h

end Lexeme

end CurriedLambda.Json
