import CurriedLambda.Json.Numeral
import CurriedLambda.Json.Quoted

/-!
JSON values. The members of an object keep their order, and a key may repeat. A value
is rendered with two spaces for each level of nesting and one element or member a line;
lists without any stay on their line.
-/
namespace CurriedLambda

inductive Json
  | null
  | bool (value : Bool)
  | number (numeral : Json.Numeral)
  | string (content : List Json.CodePoint)
  | array (elements : List Json)
  | object (members : List (List Json.CodePoint × Json))

namespace Json

def text (text : String) : Json := string (CodePoint.ofString text)

def natural (n : Nat) : Json := number (.ofNat n)

/-- An object whose keys are texts. -/
def record (fields : List (String × Json)) : Json :=
  object (fields.map fun (key, value) => (CodePoint.ofString key, value))

def text? : Json → Option String
  | string content => CodePoint.toString? content
  | _ => none

/-- The number of a plain natural numeral. -/
def natural? : Json → Option Nat
  | number numeral => numeral.toNat?
  | _ => none

def elements? : Json → Option (List Json)
  | array elements => some elements
  | _ => none

/-- A line break and the indentation after it. -/
def lineBreak (depth : Nat) : List Char :=
  '\n' :: List.replicate (2 * depth) ' '

mutual

/-- The text of a value whose line is indented to `depth`. -/
def layout (depth : Nat) : Json → List Char
  | null => "null".toList
  | bool true => "true".toList
  | bool false => "false".toList
  | number numeral => numeral.render
  | string content => quote content
  | array [] => "[]".toList
  | array (first :: rest) =>
    '[' :: lineBreak (depth + 1) ++ first.layout (depth + 1) ++ layoutElements (depth + 1) rest ++
      lineBreak depth ++ [']']
  | object [] => ['\x7b', '\x7d']
  | object ((key, value) :: rest) =>
    '\x7b' :: lineBreak (depth + 1) ++ quote key ++ ':' :: ' ' :: value.layout (depth + 1) ++
      layoutMembers (depth + 1) rest ++ lineBreak depth ++ ['\x7d']
termination_by structural json => json

/-- The elements after the first. -/
def layoutElements (depth : Nat) : List Json → List Char
  | [] => []
  | element :: rest =>
    ',' :: lineBreak depth ++ element.layout depth ++ layoutElements depth rest
termination_by structural elements => elements

/-- The members after the first. -/
def layoutMembers (depth : Nat) : List (List CodePoint × Json) → List Char
  | [] => []
  | (key, value) :: rest =>
    ',' :: lineBreak depth ++ quote key ++ ':' :: ' ' :: value.layout depth ++
      layoutMembers depth rest
termination_by structural members => members

end

/-- The text of a value, without a line break at the end. -/
def render (json : Json) : String :=
  String.ofList (json.layout 0)

end Json

end CurriedLambda
