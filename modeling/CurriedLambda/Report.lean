import CurriedLambda.Checker
import CurriedLambda.Json.Value
import CurriedLambda.TextRange

/-!
Reports: what lexing and checking found in a text, as records that stand on their own.
A record has numbers of fixed width and names in place of kinds and codes. Reports are
put out as JSON, without the token list if it is empty.
-/
namespace CurriedLambda

structure TokenRecord where
  code : UInt8
  kind : String
  text : String
  start : UInt64
  length : UInt64
  deriving DecidableEq

structure DiagnosticRecord where
  code : String
  message : String
  start : UInt64
  length : UInt64
  line : UInt64
  column : UInt64
  deriving DecidableEq

structure Report where
  tokens : List TokenRecord
  diagnostics : List DiagnosticRecord
  deriving DecidableEq

def Token.toRecord (token : Token) : TokenRecord where
  code := token.kind.code
  kind := token.kind.name
  text := token.text
  start := token.start.toUInt64
  length := token.length.toUInt64

/-- The record of a diagnostic, with its place in `text`. -/
def Diagnostic.toRecord (text : String) (diagnostic : Diagnostic) : DiagnosticRecord :=
  let place := lineColumn text diagnostic.span.start
  { code := diagnostic.code.name
    message := diagnostic.message
    start := diagnostic.span.start.toUInt64
    length := diagnostic.span.length.toUInt64
    line := place.line.toUInt64
    column := place.column.toUInt64 }

namespace TokenRecord

def fieldNames : List String := ["code", "kind", "text", "start", "length"]

def toJson (token : TokenRecord) : Json :=
  .record (fieldNames.zip
    [.natural token.code.toNat, .text token.kind, .text token.text,
      .natural token.start.toNat, .natural token.length.toNat])

end TokenRecord

namespace DiagnosticRecord

def fieldNames : List String := ["code", "message", "start", "length", "line", "column"]

def toJson (diagnostic : DiagnosticRecord) : Json :=
  .record (fieldNames.zip
    [.text diagnostic.code, .text diagnostic.message, .natural diagnostic.start.toNat,
      .natural diagnostic.length.toNat, .natural diagnostic.line.toNat,
      .natural diagnostic.column.toNat])

end DiagnosticRecord

namespace Report

/-- The report of tokens and diagnostics that were found in `text`. -/
def ofParts (text : String) (tokens : List Token) (diagnostics : List Diagnostic) : Report :=
  ⟨tokens.map Token.toRecord, diagnostics.map (Diagnostic.toRecord text)⟩

/-- The tokens and diagnostics of a text. -/
def ofText (text : String) : Report :=
  let tokens := tokenize text
  ofParts text tokens (diagnose tokens)

/-- The diagnostics of a text. -/
def diagnosticsOnly (text : String) : Report :=
  { ofText text with tokens := [] }

def toJson (report : Report) : Json :=
  let diagnostics := ("diagnostics", .array (report.diagnostics.map DiagnosticRecord.toJson))
  .record <|
    if report.tokens = [] then [diagnostics]
    else [("tokens", .array (report.tokens.map TokenRecord.toJson)), diagnostics]

def render (report : Report) : String :=
  report.toJson.render

end Report

end CurriedLambda
