import CurriedLambda.Json.Reading
import CurriedLambda.Report

/-!
Loading a report from JSON text. The fields of a record are the members of an object in
any order, where other members are passed over, or the elements of an array in the order
of the fields. A field must not occur twice, and only the tokens of a report may be left
out.
-/
namespace CurriedLambda

namespace Json

def below? (bound : Nat) (json : Json) : Option { n : Nat // n < bound } := do
  let n ← json.natural?
  if h : n < bound then some ⟨n, h⟩ else none

def byte? (json : Json) : Option UInt8 :=
  (json.below? UInt8.size).map fun n => UInt8.ofNatLT n.val n.property

def word? (json : Json) : Option UInt64 :=
  (json.below? UInt64.size).map fun n => UInt64.ofNatLT n.val n.property

/-- The members of an object with the text of their keys, if every key is a text. -/
def named? (members : List (List CodePoint × Json)) : Option (List (String × Json)) :=
  members.mapM fun (key, value) => (CodePoint.toString? key).map fun name => (name, value)

/-- The values of all members of this name. -/
def valuesOf (members : List (String × Json)) (name : String) : List Json :=
  (members.filter fun member => member.1 = name).map Prod.snd

/-- The value of the member of this name, if there is exactly one. -/
def valueOf? (members : List (String × Json)) (name : String) : Option Json :=
  match valuesOf members name with
  | [value] => some value
  | _ => none

/-- The values of the fields of a record. -/
def fields? (names : List String) : Json → Option (List Json)
  | object members => do
    let members ← named? members
    names.mapM (valueOf? members)
  | array elements => if elements.length = names.length then some elements else none
  | _ => none

end Json

def TokenRecord.ofJson? (json : Json) : Option TokenRecord := do
  match ← json.fields? fieldNames with
  | [code, kind, text, start, length] =>
    return ⟨← code.byte?, ← kind.text?, ← text.text?, ← start.word?, ← length.word?⟩
  | _ => none

def DiagnosticRecord.ofJson? (json : Json) : Option DiagnosticRecord := do
  match ← json.fields? fieldNames with
  | [code, message, start, length, line, column] =>
    return ⟨← code.text?, ← message.text?, ← start.word?, ← length.word?, ← line.word?,
      ← column.word?⟩
  | _ => none

namespace Report

/-- The report with these field values, where the tokens may be left out. -/
def ofFields? (tokens : Option Json) (diagnostics : Json) : Option Report := do
  let tokens ← match tokens with
    | none => some []
    | some json => (← json.elements?).mapM TokenRecord.ofJson?
  return ⟨tokens, ← (← diagnostics.elements?).mapM DiagnosticRecord.ofJson?⟩

def ofJson? : Json → Option Report
  | .object members => do
    let members ← Json.named? members
    let diagnostics ← Json.valueOf? members "diagnostics"
    match Json.valuesOf members "tokens" with
    | [] => ofFields? none diagnostics
    | [tokens] => ofFields? (some tokens) diagnostics
    | _ => none
  | .array [tokens, diagnostics] => ofFields? (some tokens) diagnostics
  | _ => none

/-- The report that a JSON text spells. -/
def load (text : String) : Option Report := do
  ofJson? (← Json.parse text)

end Report

end CurriedLambda
