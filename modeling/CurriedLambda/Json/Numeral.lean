/-!
JSON numbers as they are written: a sign, a whole part without leading zeros, the digits
after a point, and an exponent. A numeral for a natural number has a whole part only.
-/
namespace CurriedLambda.Json

structure Numeral where
  negative : Bool
  whole : Nat
  /-- The digits after the point; none if there is no point. -/
  fraction : List Char
  exponent : Option Int
  deriving DecidableEq

namespace Numeral

def ofNat (n : Nat) : Numeral :=
  ⟨false, n, [], none⟩

/-- The number of a numeral that is nothing but digits. -/
def toNat? (numeral : Numeral) : Option Nat :=
  if numeral = ofNat numeral.whole then some numeral.whole else none

theorem toNat?_ofNat (n : Nat) : (ofNat n).toNat? = some n := by
  simp [toNat?, ofNat]

def render (numeral : Numeral) : List Char :=
  (if numeral.negative then ['-'] else []) ++ Nat.toDigits 10 numeral.whole ++
    (if numeral.fraction = [] then [] else '.' :: numeral.fraction) ++
    match numeral.exponent with
    | none => []
    | some exponent =>
      'e' :: (if exponent < 0 then ['-'] else []) ++ Nat.toDigits 10 exponent.natAbs

/-- Reads one digit or more. -/
def readDigits (chars : List Char) : Option (List Char × List Char) :=
  match chars.takeWhile Char.isDigit with
  | [] => none
  | digits => some (digits, chars.dropWhile Char.isDigit)

def readMinus : List Char → Bool × List Char
  | '-' :: rest => (true, rest)
  | chars => (false, chars)

/-- Reads a whole part. A zero ends it. -/
def readWhole : List Char → Option (Nat × List Char)
  | '0' :: rest => some (0, rest)
  | chars => do
    let (digits, rest) ← readDigits chars
    return (Nat.ofDigitChars 10 digits 0, rest)

def readFraction : List Char → Option (List Char × List Char)
  | '.' :: rest => readDigits rest
  | chars => some ([], chars)

def readSign : List Char → Bool × List Char
  | '+' :: rest => (false, rest)
  | chars => readMinus chars

def readExponent : List Char → Option (Option Int × List Char)
  | 'e' :: rest
  | 'E' :: rest => do
    let (negative, unsigned) := readSign rest
    let (digits, after) ← readDigits unsigned
    let size : Int := Nat.ofDigitChars 10 digits 0
    return (some (if negative then -size else size), after)
  | chars => some (none, chars)

/-- Reads the longest numeral, which must not stop short of the digits that a minus, a
point or an exponent calls for. -/
def read (chars : List Char) : Option (Numeral × List Char) := do
  let (negative, chars) := readMinus chars
  let (whole, chars) ← readWhole chars
  let (fraction, chars) ← readFraction chars
  let (exponent, chars) ← readExponent chars
  return (⟨negative, whole, fraction, exponent⟩, chars)

private theorem length_readDigits {chars digits after : List Char}
    (h : readDigits chars = some (digits, after)) : after.length < chars.length := by
  have hsplit := congrArg List.length
    (List.takeWhile_append_dropWhile (p := Char.isDigit) (l := chars))
  rw [List.length_append] at hsplit
  unfold readDigits at h
  split at h
  · simp at h
  · next hne =>
    cases h
    have := List.length_pos_iff.mpr hne
    omega

private theorem length_readMinus (chars : List Char) :
    (readMinus chars).2.length ≤ chars.length := by
  unfold readMinus
  split <;> simp

private theorem length_readSign (chars : List Char) :
    (readSign chars).2.length ≤ chars.length := by
  unfold readSign
  split
  · simp
  · exact length_readMinus chars

private theorem length_readWhole {chars after : List Char} {whole : Nat}
    (h : readWhole chars = some (whole, after)) : after.length < chars.length := by
  unfold readWhole at h
  split at h
  · cases h
    simp
  · simp only [Option.bind_eq_bind, Option.bind_eq_some_iff] at h
    obtain ⟨⟨_, _⟩, hdigits, h⟩ := h
    cases h
    exact length_readDigits hdigits

private theorem length_readFraction {chars fraction after : List Char}
    (h : readFraction chars = some (fraction, after)) : after.length ≤ chars.length := by
  unfold readFraction at h
  split at h
  · have := length_readDigits h
    simp only [List.length_cons]
    omega
  · cases h
    exact Nat.le_refl _

private theorem length_readExponent {chars after : List Char} {exponent : Option Int}
    (h : readExponent chars = some (exponent, after)) : after.length ≤ chars.length := by
  have hsign : ∀ rest : List Char, (do
      let (digits, after) ← readDigits (readSign rest).2
      let size : Int := Nat.ofDigitChars 10 digits 0
      return (some (if (readSign rest).1 then -size else size), after)) = some (exponent, after) →
      after.length ≤ rest.length := by
    intro rest h
    simp only [Option.bind_eq_bind, Option.bind_eq_some_iff] at h
    obtain ⟨⟨_, _⟩, hdigits, h⟩ := h
    cases h
    have := length_readDigits hdigits
    have := length_readSign rest
    dsimp only
    omega
  unfold readExponent at h
  split at h
  · exact Nat.le_succ_of_le (hsign _ h)
  · exact Nat.le_succ_of_le (hsign _ h)
  · cases h
    exact Nat.le_refl _

theorem length_read {chars after : List Char} {numeral : Numeral}
    (h : read chars = some (numeral, after)) : after.length < chars.length := by
  simp only [read, Option.bind_eq_bind, Option.bind_eq_some_iff] at h
  obtain ⟨⟨_, _⟩, hwhole, ⟨_, _⟩, hfraction, ⟨_, _⟩, hexponent, h⟩ := h
  cases h
  have := length_readMinus chars
  have := length_readWhole hwhole
  have := length_readFraction hfraction
  have := length_readExponent hexponent
  dsimp only at *
  omega

end Numeral

end CurriedLambda.Json
