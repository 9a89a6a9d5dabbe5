import CurriedLambda.Problem

/-!
The stack of open brackets during a check. The lowest `base` places belong to what
surrounds the current expression; its own bracket and the groups of its body lie above.
Brackets among skipped tokens still count: a closing one closes the innermost open
bracket, and an opening one opens no group of the body, so it is filed at the base.
-/
namespace CurriedLambda

structure Brackets where
  /-- The open brackets, innermost first. -/
  opened : List Token
  base : Nat
  deriving DecidableEq

namespace Brackets

def push (brackets : Brackets) (bracket : Token) : Brackets :=
  { brackets with opened := bracket :: brackets.opened }

/-- Opens the bracket of a new expression: all that is open before surrounds it. -/
def enter (brackets : Brackets) (bracket : Token) : Brackets :=
  ⟨bracket :: brackets.opened, brackets.opened.length⟩

/-- Leaves an expression: what is still open waits for closing brackets between
expressions. -/
def leave (brackets : Brackets) : Brackets :=
  { brackets with base := 0 }

/-- Whether something is open above the bracket of the current expression. -/
def groupOpen (brackets : Brackets) : Bool :=
  brackets.base + 1 < brackets.opened.length

/-- Closes the innermost open bracket; without one, the closing bracket is a problem. -/
def close (brackets : Brackets) (bracket : Token) : Brackets × List Problem :=
  match brackets.opened with
  | [] => (brackets, [.unmatchedClose bracket])
  | _ :: outer => ({ brackets with opened := outer }, [])

/-- Files a bracket above the base and raises the base over it. If fewer brackets are
open than the base says, it goes on top of them. -/
def file (brackets : Brackets) (bracket : Token) : Brackets :=
  let place := min brackets.base brackets.opened.length
  ⟨brackets.opened.insertIdx (brackets.opened.length - place) bracket, place + 1⟩

/-- Accounts for the brackets among skipped tokens. -/
def skip (brackets : Brackets) : List Token → Brackets × List Problem
  | [] => (brackets, [])
  | token :: rest =>
    match token.kind with
    | .openBracket => (brackets.file token).skip rest
    | .closeBracket =>
      let (closed, problems) := brackets.close token
      let (after, more) := closed.skip rest
      (after, problems ++ more)
    | _ => brackets.skip rest

end Brackets

end CurriedLambda
