import CurriedLambda.Blank
import CurriedLambda.Checker
import CurriedLambda.TextRange

/-!
Listings for people: a table of tokens in aligned columns, and a list of diagnostics that
quotes the source. Column widths are counted in characters.
-/
namespace CurriedLambda

namespace Listing

def padLeft (width : Nat) (text : String) : String :=
  String.ofList (List.replicate (width - text.length) ' ') ++ text

def padRight (width : Nat) (text : String) : String :=
  text ++ String.ofList (List.replicate (width - text.length) ' ')

def row (code kind text position : String) : String :=
  padLeft 4 code ++ "  " ++ padRight 16 kind ++ "  " ++ padRight 12 text ++ "  " ++ position ++
    "\n"

/-- A newline is shown as a backslash and the letter, other tokens by their text. -/
def tokenRow (token : Token) : String :=
  row (toString token.kind.code.toNat) token.kind.name
    (if token.kind = .newline then "\\n" else token.text) token.position

/-- The lines of a text. A line feed ends a line, with the carriage return before it if
there is one; the last line need not end. -/
def lines : List Char → List (List Char)
  | [] => []
  | '\n' :: rest => [] :: lines rest
  | '\r' :: '\n' :: rest => [] :: lines rest
  | c :: rest =>
    match lines rest with
    | [] => [[c]]
    | line :: more => (c :: line) :: more

/-- A line of a message after the first. -/
def detail (line : List Char) : String :=
  "    " ++ String.ofList (line.dropWhile isBlank) ++ "\n"

/-- The quoted source, unless it is blank or runs over more than one line. -/
def quotation (snippet : String) : String :=
  if snippet.toList.all isBlank || snippet.toList.contains '\n' then ""
  else "    | " ++ snippet ++ "\n"

/-- A diagnostic as lines: where and what, the rest of the message, the quoted source. -/
def diagnosticBlock (source : String) (diagnostic : Diagnostic) : String :=
  let place := lineColumn source diagnostic.span.start
  let message := lines diagnostic.message.toList
  let (start, length) := diagnostic.span.clamp source.length
  toString place.line ++ ":" ++ toString place.column ++ ": " ++ diagnostic.code.name ++ ": " ++
    String.ofList (message.headD []) ++ "\n" ++ String.join (message.tail.map detail) ++
    quotation (excerpt source start length)

theorem diagnosticBlock_ne_empty (source : String) (diagnostic : Diagnostic) :
    diagnosticBlock source diagnostic ≠ "" := by
  simp [diagnosticBlock]

end Listing

/-- The table of tokens, under a line of column heads. -/
def tokenTable (tokens : List Token) : String :=
  Listing.row "code" "kind" "text" "position" ++ String.join (tokens.map Listing.tokenRow)

/-- The diagnostics of a source text, one after the other. -/
def diagnosticList (source : String) (diagnostics : List Diagnostic) : String :=
  String.join (diagnostics.map (Listing.diagnosticBlock source))

/-- The list is empty only if there is nothing to list. -/
theorem diagnosticList_eq_empty_iff {source : String} {diagnostics : List Diagnostic} :
    diagnosticList source diagnostics = "" ↔ diagnostics = [] := by
  cases diagnostics with
  | nil => simp [diagnosticList]
  | cons diagnostic rest =>
    simp [diagnosticList, Listing.diagnosticBlock_ne_empty source diagnostic]

end CurriedLambda
