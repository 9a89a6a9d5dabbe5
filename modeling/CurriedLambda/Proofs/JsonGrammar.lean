import CurriedLambda.Json.Value

/-!
The grammar of JSON text. White space may stand between lexemes, every character of a
string may be written in several ways, and so may the exponent of a number. Strings hold
characters only, so that half a surrogate pair is spelled by nothing.
-/
namespace CurriedLambda.Json

/-- White space between lexemes. -/
def IsGap (chars : List Char) : Prop :=
  ∀ c ∈ chars, c = ' ' ∨ c = '\t' ∨ c = '\n' ∨ c = '\r'

theorem isGap_nil : IsGap [] :=
  List.forall_mem_nil _

/-- A hexadecimal digit of either case. -/
def IsHexDigit (c : Char) (value : Nat) : Prop :=
  "0123456789abcdef".toList[value]? = some c ∨ "0123456789ABCDEF".toList[value]? = some c

/-- Four hexadecimal digits. -/
inductive SpellsUnit : List Char → Nat → Prop
  | digits {a b c d : Char} {i j k l : Nat} (ha : IsHexDigit a i) (hb : IsHexDigit b j)
      (hc : IsHexDigit c k) (hd : IsHexDigit d l) :
      SpellsUnit [a, b, c, d] (((i * 16 + j) * 16 + k) * 16 + l)

/-- The letters after a backslash, each with the character that both stand for. -/
def letterEscapes : List (Char × Char) :=
  [('"', '"'), ('\\', '\\'), ('/', '/'), ('b', '\x08'), ('f', '\x0c'), ('n', '\n'), ('r', '\r'),
    ('t', '\t')]

/-- What stands between the quotes of a string, with the characters of the string. -/
inductive SpellsChars : List Char → List Char → Prop
  | nil : SpellsChars [] []
  | raw {c : Char} {chars content : List Char} (hquote : c ≠ '"') (hbackslash : c ≠ '\\')
      (hcontrol : 0x20 ≤ c.toNat) (h : SpellsChars chars content) :
      SpellsChars (c :: chars) (c :: content)
  | letter {letter c : Char} {chars content : List Char} (hletter : (letter, c) ∈ letterEscapes)
      (h : SpellsChars chars content) : SpellsChars ('\\' :: letter :: chars) (c :: content)
  | unit {c : Char} {digits chars content : List Char} (hunit : SpellsUnit digits c.toNat)
      (h : SpellsChars chars content) :
      SpellsChars ('\\' :: 'u' :: digits ++ chars) (c :: content)
  | pair {c : Char} {high low : Nat} {first second chars content : List Char}
      (hfirst : SpellsUnit first (0xD800 + high)) (hsecond : SpellsUnit second (0xDC00 + low))
      (hhigh : high < 0x400) (hlow : low < 0x400)
      (hc : c.toNat = 0x10000 + high * 0x400 + low) (h : SpellsChars chars content) :
      SpellsChars ('\\' :: 'u' :: first ++ '\\' :: 'u' :: second ++ chars) (c :: content)

/-- Characters that need no escape. -/
theorem SpellsChars.plain {chars : List Char}
    (h : ∀ c ∈ chars, c ≠ '"' ∧ c ≠ '\\' ∧ 0x20 ≤ c.toNat) : SpellsChars chars chars := by
  induction chars with
  | nil => exact .nil
  | cons c rest ih =>
    obtain ⟨hquote, hbackslash, hcontrol⟩ := h c List.mem_cons_self
    exact .raw hquote hbackslash hcontrol (ih fun other hother => h other (.tail c hother))

/-- One digit or more. -/
def IsDigits (chars : List Char) : Prop :=
  chars ≠ [] ∧ ∀ c ∈ chars, c.isDigit = true

namespace Numeral

inductive SpellsFraction : List Char → List Char → Prop
  | absent : SpellsFraction [] []
  | point {digits : List Char} (hdigits : IsDigits digits) :
      SpellsFraction ('.' :: digits) digits

inductive SpellsExponent : List Char → Option Int → Prop
  | absent : SpellsExponent [] none
  | unsigned {letter : Char} {digits : List Char} (hletter : letter = 'e' ∨ letter = 'E')
      (hdigits : IsDigits digits) :
      SpellsExponent (letter :: digits) (some (Nat.ofDigitChars 10 digits 0))
  | plus {letter : Char} {digits : List Char} (hletter : letter = 'e' ∨ letter = 'E')
      (hdigits : IsDigits digits) :
      SpellsExponent (letter :: '+' :: digits) (some (Nat.ofDigitChars 10 digits 0))
  | minus {letter : Char} {digits : List Char} (hletter : letter = 'e' ∨ letter = 'E')
      (hdigits : IsDigits digits) :
      SpellsExponent (letter :: '-' :: digits) (some (-(Nat.ofDigitChars 10 digits 0 : Int)))

/-- A sign, a whole part without leading zeros, a fraction and an exponent. -/
inductive Spells : List Char → Numeral → Prop
  | parts {fractionChars fraction exponentChars : List Char} {exponent : Option Int}
      (negative : Bool) (whole : Nat) (hfraction : SpellsFraction fractionChars fraction)
      (hexponent : SpellsExponent exponentChars exponent) :
      Spells ((if negative then ['-'] else []) ++ Nat.toDigits 10 whole ++ fractionChars ++
        exponentChars) ⟨negative, whole, fraction, exponent⟩

end Numeral

/-- What the rules of the grammar are about. -/
inductive Phrase
  | value (json : Json)
  /-- A value with white space around it. -/
  | spaced (json : Json)
  /-- One element or more, with commas between them. -/
  | elements (elements : List Json)
  | member (name : String) (json : Json)
  /-- One member or more, with commas between them. -/
  | members (fields : List (String × Json))

inductive Spells : List Char → Phrase → Prop
  | null : Spells ['n', 'u', 'l', 'l'] (.value .null)
  | boolTrue : Spells ['t', 'r', 'u', 'e'] (.value (.bool true))
  | boolFalse : Spells ['f', 'a', 'l', 's', 'e'] (.value (.bool false))
  | number {chars : List Char} {numeral : Numeral} (h : numeral.Spells chars) :
      Spells chars (.value (.number numeral))
  | text {chars : List Char} {content : String} (h : SpellsChars chars content.toList) :
      Spells ('"' :: chars ++ ['"']) (.value (.text content))
  | emptyArray {gap : List Char} (hgap : IsGap gap) :
      Spells ('[' :: gap ++ [']']) (.value (.array []))
  | array {chars : List Char} {elements : List Json} (h : Spells chars (.elements elements)) :
      Spells ('[' :: chars ++ [']']) (.value (.array elements))
  | emptyObject {gap : List Char} (hgap : IsGap gap) :
      Spells ('\x7b' :: gap ++ ['\x7d']) (.value (.record []))
  | object {chars : List Char} {fields : List (String × Json)}
      (h : Spells chars (.members fields)) :
      Spells ('\x7b' :: chars ++ ['\x7d']) (.value (.record fields))
  | spaced {before chars after : List Char} {json : Json} (hbefore : IsGap before)
      (h : Spells chars (.value json)) (hafter : IsGap after) :
      Spells (before ++ chars ++ after) (.spaced json)
  | lastElement {chars : List Char} {json : Json} (h : Spells chars (.spaced json)) :
      Spells chars (.elements [json])
  | element {chars others : List Char} {json : Json} {rest : List Json}
      (h : Spells chars (.spaced json)) (hrest : Spells others (.elements rest)) :
      Spells (chars ++ ',' :: others) (.elements (json :: rest))
  | member {before key after chars : List Char} {name : String} {json : Json}
      (hbefore : IsGap before) (hkey : SpellsChars key name.toList) (hafter : IsGap after)
      (h : Spells chars (.spaced json)) :
      Spells (before ++ '"' :: key ++ '"' :: after ++ ':' :: chars) (.member name json)
  | lastMember {chars : List Char} {name : String} {json : Json}
      (h : Spells chars (.member name json)) : Spells chars (.members [(name, json)])
  | members {chars others : List Char} {name : String} {json : Json}
      {rest : List (String × Json)} (h : Spells chars (.member name json))
      (hrest : Spells others (.members rest)) :
      Spells (chars ++ ',' :: others) (.members ((name, json) :: rest))

/-- The text is JSON and spells this value. -/
def SpelledBy (json : Json) (text : String) : Prop :=
  Spells text.toList (.spaced json)

end CurriedLambda.Json
