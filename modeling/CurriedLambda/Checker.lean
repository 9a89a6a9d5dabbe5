import CurriedLambda.Brackets
import CurriedLambda.Lexer

/-!
Checking tokens against the grammar, one token at a time and without building a tree.

    program    = (";" | expression)*
    expression = "(" "\" identifier* "-" ">" body ")" argument* ";"
    body       = operand (operator operand)+
    operand    = "("* (identifier | number) ")"*
    argument   = ("+" | "-")? number

There is one argument for each parameter, and the brackets of a body balance. A token
that does not fit starts a recovery: tokens are skipped until one fits what is expected.
-/
namespace CurriedLambda

/-- Where in the grammar a check stands. -/
inductive Phase
  /-- Between expressions. -/
  | item
  /-- After the bracket of an expression. -/
  | lambda
  | parameter
  /-- After the minus of the arrow. -/
  | arrow
  /-- Before an operand, where `first` says whether it is the first of the body. -/
  | operand (first : Bool)
  /-- Before an operand, after an opening bracket. -/
  | group (first : Bool)
  /-- After an operand. -/
  | operator (first : Bool)
  /-- Before an argument that `further` ones follow; `signed` if its sign is read. -/
  | argument (further : Nat) (signed : Bool)
  | terminator
  deriving DecidableEq

namespace Phase

/-- What has to come next, apart from the tokens that are optional here. -/
def expected : Phase → Expected
  | item => .openBracket
  | lambda => .lambda
  | parameter => .parameter
  | arrow => .arrow
  | operand _ | group _ => .operand
  | operator true => .operator
  | operator false => .operatorOrClose
  | argument _ _ => .number
  | terminator => .semicolon

/-- The phase in which `count` arguments are still to come. -/
def arguments : Nat → Phase
  | 0 => terminator
  | further + 1 => argument further false

end Phase

structure Checker where
  phase : Phase
  /-- The parameters of the current expression, in the order of declaration. -/
  parameters : List Token
  /-- The names read as operands in the current expression, latest first. -/
  references : List Token
  brackets : Brackets
  /-- The tokens skipped so far by the recovery under way, if any. -/
  skipped : List Token
  deriving DecidableEq

namespace Checker

/-- The state between expressions. -/
def between (brackets : Brackets) : Checker :=
  ⟨.item, [], [], brackets.leave, []⟩

def initial : Checker :=
  between ⟨[], 0⟩

def expected (checker : Checker) : Expected :=
  checker.phase.expected

/-- Whether a list of tokens has one with this text. -/
def names (tokens : List Token) (text : String) : Bool :=
  tokens.any (·.text = text)

/-- The parameters that no operand names. -/
def unused (checker : Checker) : List Token :=
  checker.parameters.filter fun parameter => !names checker.references parameter.text

/-- Reads a token that is optional here: a semicolon or closing bracket between
expressions, brackets before an operand, the bracket of a group after one, or a sign. A
closing bracket before an operand closes nothing. -/
def absorb (checker : Checker) (token : Token) : Option (Checker × List Problem) :=
  match checker.phase, token.kind with
  | .item, .semicolon => some (checker, [])
  | .item, .closeBracket =>
    let (brackets, problems) := checker.brackets.close token
    some ({ checker with brackets }, problems)
  | .operand _, .closeBracket =>
    some (checker, [.unmatchedClose token, .misplacedClose token])
  | .operand first, .openBracket
  | .group first, .openBracket =>
    some ({ checker with phase := .group first, brackets := checker.brackets.push token }, [])
  | .operator _, .closeBracket =>
    if checker.brackets.groupOpen then
      let (brackets, problems) := checker.brackets.close token
      some ({ checker with brackets }, problems)
    else none
  | .argument further false, .plus
  | .argument further false, .minus =>
    some ({ checker with phase := .argument further true }, [])
  | _, _ => none

/-- Reads a token of the expected kinds. -/
def take (checker : Checker) (token : Token) : Checker × List Problem :=
  match checker.phase with
  | .item => (⟨.lambda, [], [], checker.brackets.enter token, []⟩, [])
  | .lambda => ({ checker with phase := .parameter }, [])
  | .parameter =>
    if token.kind = .identifier then
      ({ checker with parameters := checker.parameters ++ [token] }, [])
    else ({ checker with phase := .arrow }, [])
  | .arrow => ({ checker with phase := .operand true }, [])
  | .operand first | .group first =>
    if token.kind = .identifier then
      ({ checker with phase := .operator first, references := token :: checker.references },
        if names checker.parameters token.text then [] else [.unknownName token])
    else ({ checker with phase := .operator first }, [])
  | .operator _ =>
    if token.kind = .closeBracket then
      let (brackets, problems) := checker.brackets.close token
      ({ checker with phase := .arguments checker.parameters.length, brackets }, problems)
    else ({ checker with phase := .operand false }, [])
  | .argument further _ => ({ checker with phase := .arguments further }, [])
  | .terminator => (between checker.brackets, checker.unused.map .unusedParameter)

/-- The problems of a recovery that skips these tokens. -/
def skipping (checker : Checker) : List Problem :=
  match checker.skipped with
  | [] => []
  | found :: _ => [.unexpected checker.expected found checker.skipped]

/-- Reads a token of the expected kinds, which ends a recovery, or skips the token. -/
def meet (checker : Checker) (token : Token) : Checker × List Problem :=
  if checker.expected.accepts token.kind then
    let (brackets, unmatched) := checker.brackets.skip checker.skipped
    let (after, problems) := { checker with brackets, skipped := [] }.take token
    (after, checker.skipping ++ unmatched ++ problems)
  else ({ checker with skipped := checker.skipped ++ [token] }, [])

/-- Reads one token. Layout is passed over, and optional tokens do not end a recovery. -/
def feed (checker : Checker) (token : Token) : Checker × List Problem :=
  if token.kind.isLayout then (checker, [])
  else if checker.skipped = [] then (checker.absorb token).getD (checker.meet token)
  else checker.meet token

/-- Reads tokens in order. -/
def feedAll (checker : Checker) : List Token → Checker × List Problem
  | [] => (checker, [])
  | token :: rest =>
    let (next, problems) := checker.feed token
    let (after, more) := next.feedAll rest
    (after, problems ++ more)

/-- The problems that show when the tokens end. A recovery that met no fitting token
reports only where it began, and the end of the tokens inside an expression is reported
at the last of them. -/
def finish (checker : Checker) (last : Option Token) : List Problem :=
  match checker.skipped with
  | found :: _ =>
    .unexpected checker.expected found [] :: (checker.brackets.skip checker.skipped).2
  | [] => if checker.phase = .item then [] else [.exhausted checker.expected last]

end Checker

/-- The problems of a token list, in the order in which they are found. -/
def problems (tokens : List Token) : List Problem :=
  let (checker, found) := Checker.initial.feedAll tokens
  found ++ checker.finish (tokens.filter (·.kind ≠ .whitespace)).getLast?

/-- The diagnostics of a token list. There are none if the tokens fit the grammar, every
name is declared and every parameter is used. -/
def diagnose (tokens : List Token) : List Diagnostic :=
  (problems tokens).map Problem.toDiagnostic

/-- The diagnostics of a text. -/
def check (text : String) : List Diagnostic :=
  diagnose (tokenize text)

end CurriedLambda
