import CurriedLambda.Report

/-!
The schema of reports, in the vocabulary of JSON Schema that it needs: types, properties
and the names of those required, items, integer bounds, and references to definitions.
Integers have no lower bound but zero.
-/
namespace CurriedLambda

inductive Schema
  /-- What the definition of this name says. -/
  | definition (name : String)
  | string
  | integer (format : String) (maximum : Option Nat)
  | array (items : Schema)
  | object (properties : List (String × Schema)) (required : List String)
  | described (description : String) (schema : Schema)

namespace Schema

mutual

/-- The keywords of a schema, in the order in which they are written. -/
def keywords : Schema → List (String × Json)
  | definition name => [("$ref", .text ("#/$defs/" ++ name))]
  | string => [("type", .text "string")]
  | integer format maximum =>
    [("type", .text "integer"), ("format", .text format), ("minimum", .natural 0)] ++
      maximum.toList.map fun n => ("maximum", .natural n)
  | array items => [("type", .text "array"), ("items", .record items.keywords)]
  | object properties required =>
    [("type", .text "object"), ("properties", .record (propertyList properties)),
      ("required", .array (required.map .text))]
  | described description schema => ("description", .text description) :: schema.keywords
termination_by structural schema => schema

def propertyList : List (String × Schema) → List (String × Json)
  | [] => []
  | (name, schema) :: rest => (name, .record schema.keywords) :: propertyList rest
termination_by structural properties => properties

end

def toJson (schema : Schema) : Json :=
  .record schema.keywords

/-- An integer of one byte. -/
def byte : Schema := integer "uint8" (some 255)

/-- A natural number. -/
def natural : Schema := integer "uint" none

end Schema

def TokenRecord.schema : Schema :=
  .object (fieldNames.zip [.byte, .string, .string, .natural, .natural]) fieldNames

def DiagnosticRecord.schema : Schema :=
  .object
    (fieldNames.zip
      [.string, .string, .natural, .natural,
        .described "1-based line of `start`." .natural,
        .described "1-based column of `start`, in characters." .natural])
    fieldNames

namespace Report

/-- The definitions that the schema of a report refers to. -/
def definitions : List (String × Schema) :=
  [("TokenRecord", TokenRecord.schema), ("DiagnosticRecord", DiagnosticRecord.schema)]

def schema : Schema :=
  .object
    [("tokens", .array (.definition "TokenRecord")),
      ("diagnostics", .array (.definition "DiagnosticRecord"))]
    ["diagnostics"]

/-- The published schema document. -/
def schemaDocument : Json :=
  .record <|
    [("$schema", .text "https://json-schema.org/draft/2020-12/schema"),
      ("title", .text "Report")] ++
    schema.keywords ++
    [("$defs", .record (Schema.propertyList definitions))]

end Report

end CurriedLambda
