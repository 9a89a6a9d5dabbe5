/-!
JSON strings. Between its quotes a string stands for code points: characters, and
surrogates that an escape names without the other half of a pair. Only quotes,
backslashes and the characters below the space are written escaped, by a letter where
there is one and in hexadecimal otherwise. Reading knows every escape.
-/
namespace CurriedLambda.Json

inductive CodePoint
  | scalar (c : Char)
  /-- The surrogate at `0xD800 + index`, which is no character. -/
  | surrogate (index : Fin 0x800)
  deriving DecidableEq

namespace CodePoint

def ofString (text : String) : List CodePoint :=
  text.toList.map scalar

/-- The characters, unless there is a surrogate among the code points. -/
def characters? : List CodePoint → Option (List Char)
  | [] => some []
  | scalar c :: rest => (characters? rest).map (c :: ·)
  | surrogate _ :: _ => none

def toString? (content : List CodePoint) : Option String :=
  (characters? content).map String.ofList

theorem toString?_ofString (text : String) : toString? (ofString text) = some text := by
  have h : ∀ cs : List Char, characters? (cs.map scalar) = some cs := by
    intro cs
    induction cs with
    | nil => rfl
    | cons c cs ih => simp [characters?, ih]
  simp [toString?, ofString, h]

/-- The code point of a number below `0x10000`. -/
def ofUnit (unit : Nat) : CodePoint :=
  if h : 0xD800 ≤ unit ∧ unit < 0xE000 then surrogate ⟨unit - 0xD800, by omega⟩
  else scalar (Char.ofNat unit)

/-- Makes one character of a high surrogate and a low one right after it. -/
def joinPairs : List CodePoint → List CodePoint
  | surrogate high :: surrogate low :: rest =>
    if high.val < 0x400 ∧ 0x400 ≤ low.val then
      scalar (Char.ofNat (0x10000 + high.val * 0x400 + (low.val - 0x400))) :: joinPairs rest
    else surrogate high :: joinPairs (surrogate low :: rest)
  | point :: rest => point :: joinPairs rest
  | [] => []

end CodePoint

/-- Four hexadecimal digits. -/
def hexDigits (n : Nat) : List Char :=
  [Nat.digitChar (n / 0x1000 % 16), Nat.digitChar (n / 0x100 % 16),
    Nat.digitChar (n / 0x10 % 16), Nat.digitChar (n % 16)]

def escapeChar (c : Char) : List Char :=
  match c with
  | '"' => ['\\', '"']
  | '\\' => ['\\', '\\']
  | '\x08' => ['\\', 'b']
  | '\x0c' => ['\\', 'f']
  | '\n' => ['\\', 'n']
  | '\r' => ['\\', 'r']
  | '\t' => ['\\', 't']
  | _ => if c.toNat < 0x20 then '\\' :: 'u' :: hexDigits c.toNat else [c]

def CodePoint.escape : CodePoint → List Char
  | scalar c => escapeChar c
  | surrogate index => '\\' :: 'u' :: hexDigits (0xD800 + index.val)

/-- A string as it is written, quotes included. -/
def quote (content : List CodePoint) : List Char :=
  '"' :: content.flatMap CodePoint.escape ++ ['"']

def hexValue? (c : Char) : Option Nat :=
  if c.isDigit then some (c.toNat - '0'.toNat)
  else if 'a' ≤ c ∧ c ≤ 'f' then some (c.toNat - 'a'.toNat + 10)
  else if 'A' ≤ c ∧ c ≤ 'F' then some (c.toNat - 'A'.toNat + 10)
  else none

/-- The number that four hexadecimal digits spell. -/
def unit? (a b c d : Char) : Option Nat := do
  return (((← hexValue? a) * 16 + (← hexValue? b)) * 16 + (← hexValue? c)) * 16 + (← hexValue? d)

/-- The character that a letter after a backslash stands for. -/
def escaped? : Char → Option Char
  | '"' => some '"'
  | '\\' => some '\\'
  | '/' => some '/'
  | 'b' => some '\x08'
  | 'f' => some '\x0c'
  | 'n' => some '\n'
  | 'r' => some '\r'
  | 't' => some '\t'
  | _ => none

/-- Reads up to the closing quote: the code points, each escape by itself, and what comes
after the quote. -/
def unquote : List Char → Option (List CodePoint × List Char)
  | [] => none
  | '"' :: rest => some ([], rest)
  | '\\' :: 'u' :: a :: b :: c :: d :: rest => do
    let unit ← unit? a b c d
    let (content, after) ← unquote rest
    return (.ofUnit unit :: content, after)
  | '\\' :: letter :: rest => do
    let c ← escaped? letter
    let (content, after) ← unquote rest
    return (.scalar c :: content, after)
  | c :: rest =>
    if c.toNat < 0x20 then none
    else do
      let (content, after) ← unquote rest
      return (.scalar c :: content, after)

theorem length_unquote {chars after : List Char} {content : List CodePoint}
    (h : unquote chars = some (content, after)) : after.length < chars.length := by
  fun_induction unquote chars generalizing content after with
  | case1 => simp at h
  | case2 => simp_all
  | case3 a b c d rest ih
  | case4 letter rest _ ih =>
    simp only [Option.bind_eq_bind, Option.bind_eq_some_iff] at h
    obtain ⟨_, _, ⟨_, _⟩, hrest, h⟩ := h
    cases h
    have := ih hrest
    simp only [List.length_cons]
    omega
  | case5 => simp at h
  | case6 c rest _ _ _ _ ih =>
    simp only [Option.bind_eq_bind, Option.bind_eq_some_iff] at h
    obtain ⟨⟨_, _⟩, hrest, h⟩ := h
    cases h
    have := ih hrest
    simp only [List.length_cons]
    omega

end CurriedLambda.Json
