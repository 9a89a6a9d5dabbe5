import CurriedLambda.Token

/-!
Lexing. A lexeme is a sign, a number, an identifier or a single character that fits
nothing else; spaces, tabs and carriage returns separate lexemes and belong to none.
A lexer reads one lexeme at a time and keeps two counters beside the characters still
to come: how many characters and how many bytes of the text it has passed. Tokens
start at the first and are cut from the text at the second.
-/
namespace CurriedLambda

def isGap (c : Char) : Bool :=
  c = ' ' || c = '\t' || c = '\r'

/-- The characters that end an identifier. -/
def isReserved (c : Char) : Bool :=
  c ∈ [' ', '\n', '\\', '-', '+', '/', '(', ')', '\t', '\r', '>', ';']

/-- The kind of a character that is a lexeme of its own wherever it starts one. -/
def signKind? : Char → Option Kind
  | ';' => some .semicolon
  | '(' => some .openBracket
  | ')' => some .closeBracket
  | '\\' => some .lambda
  | '>' => some .greater
  | '-' => some .minus
  | '+' => some .plus
  | '*' => some .times
  | '/' => some .divide
  | '\n' => some .newline
  | _ => none

/-- What follows the first digit of a number: digits, then at most one point and digits. -/
def numberTail (rest : List Char) : Kind × List Char :=
  let digits := rest.takeWhile Char.isDigit
  match rest.dropWhile Char.isDigit with
  | '.' :: fraction => (.float, digits ++ '.' :: fraction.takeWhile Char.isDigit)
  | _ => (.integer, digits)

/-- The kind of the lexeme that starts with `c`, and the part of it in `rest`. -/
def lexemeTail (c : Char) (rest : List Char) : Kind × List Char :=
  match signKind? c with
  | some kind => (kind, [])
  | none =>
    if c.isDigit then numberTail rest
    else if c.isAlpha then (.identifier, rest.takeWhile fun d => !isReserved d)
    else (.invalid, [])

/-- The number of bytes that characters take in UTF-8. -/
def utf8Length : List Char → Nat
  | [] => 0
  | c :: rest => c.utf8Size + utf8Length rest

structure Lexer where
  text : String
  /-- The characters still to come. -/
  rest : List Char
  /-- The number of characters passed. -/
  position : Nat
  /-- The number of bytes passed. -/
  offset : Nat

namespace Lexer

def ofText (text : String) : Lexer :=
  ⟨text, text.toList, 0, 0⟩

/-- Passes `count` characters, or as many as there are. -/
def advance (lexer : Lexer) (count : Nat) : Lexer :=
  let passed := lexer.rest.take count
  { lexer with
    rest := lexer.rest.drop count
    position := lexer.position + passed.length
    offset := lexer.offset + utf8Length passed }

def skipGap (lexer : Lexer) : Lexer :=
  lexer.advance (lexer.rest.takeWhile isGap).length

/-- The text between two states of a lexer. -/
def textUntil (lexer after : Lexer) : String :=
  String.Pos.Raw.extract lexer.text ⟨lexer.offset⟩ ⟨after.offset⟩

/-- The next token, if there is one, and the lexer after it. -/
def next (lexer : Lexer) : Option Token × Lexer :=
  let lexer := lexer.skipGap
  match lexer.rest with
  | [] => (none, lexer)
  | c :: rest =>
    let (kind, tail) := lexemeTail c rest
    let after := lexer.advance (tail.length + 1)
    (some ⟨kind, lexer.textUntil after, lexer.position⟩, after)

theorem rest_next_lt {lexer after : Lexer} {token : Token}
    (h : lexer.next = (some token, after)) : after.rest.length < lexer.rest.length := by
  have hskip : lexer.skipGap.rest.length ≤ lexer.rest.length := by
    simp [skipGap, advance]
  unfold next at h
  generalize lexer.skipGap = skipped at h hskip
  cases hrest : skipped.rest with
  | nil => simp [hrest] at h
  | cons c rest =>
    simp only [hrest, Prod.mk.injEq] at h
    rw [← h.2]
    simp only [advance, hrest, List.length_drop, List.length_cons] at hskip ⊢
    omega

/-- The token after the next `count` ones. -/
def nth (lexer : Lexer) : Nat → Option Token × Lexer
  | 0 => lexer.next
  | count + 1 =>
    match lexer.next with
    | (none, after) => (none, after)
    | (some _, after) => after.nth count

/-- All the tokens still to come. -/
def toList (lexer : Lexer) : List Token :=
  match _h : lexer.next with
  | (none, _) => []
  | (some token, after) => token :: after.toList
termination_by lexer.rest.length
decreasing_by exact rest_next_lt _h

/-- The lexer after all the tokens still to come. -/
def exhaust (lexer : Lexer) : Lexer :=
  lexer.advance lexer.rest.length

end Lexer

/-- Splits a text into tokens. What fits no rule is a token too, so this never fails. -/
def tokenize (text : String) : List Token :=
  (Lexer.ofText text).toList

end CurriedLambda
