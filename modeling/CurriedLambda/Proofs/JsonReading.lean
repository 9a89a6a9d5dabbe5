import CurriedLambda.Json.Reading
import CurriedLambda.Proofs.JsonGrammar
import CurriedLambda.Proofs.Lexemes

/-!
Reading JSON text. A reader of characters is the builder fed with the lexemes that they
spell. Wherever a value may start, the characters that spell one are read as this value,
by induction on how the grammar derives them; so a text is read as the value it spells,
whatever white space and escapes it has.
-/
namespace CurriedLambda.Json

section Strings

theorem hexValue?_of_isHexDigit {c : Char} {value : Nat} (h : IsHexDigit c value) :
    hexValue? c = some value ∧ value < 16 := by
  have hlower : ∀ i : Fin 16, hexValue? ("0123456789abcdef".toList[i]) = some i.val := by decide
  have hupper : ∀ i : Fin 16, hexValue? ("0123456789ABCDEF".toList[i]) = some i.val := by decide
  rcases h with h | h
  · obtain ⟨hlt, rfl⟩ := List.getElem?_eq_some_iff.mp h
    exact ⟨hlower ⟨value, hlt⟩, hlt⟩
  · obtain ⟨hlt, rfl⟩ := List.getElem?_eq_some_iff.mp h
    exact ⟨hupper ⟨value, hlt⟩, hlt⟩

/-- An escaped unit is read by itself. -/
theorem unquote_unit {digits : List Char} {unit : Nat} (h : SpellsUnit digits unit)
    (chars : List Char) :
    unit < 0x10000 ∧ unquote ('\\' :: 'u' :: digits ++ chars) =
      (unquote chars).map fun (content, after) => (.ofUnit unit :: content, after) := by
  obtain ⟨ha, hb, hc, hd⟩ := h
  obtain ⟨ha, hi⟩ := hexValue?_of_isHexDigit ha
  obtain ⟨hb, hj⟩ := hexValue?_of_isHexDigit hb
  obtain ⟨hc, hk⟩ := hexValue?_of_isHexDigit hc
  obtain ⟨hd, hl⟩ := hexValue?_of_isHexDigit hd
  refine ⟨by omega, ?_⟩
  simp only [List.cons_append, List.nil_append, unquote, unit?, ha, hb, hc, hd]
  cases unquote chars <;> rfl

theorem unquote_letter {letter c : Char} (h : escaped? letter = some c) (chars : List Char) :
    unquote ('\\' :: letter :: chars) =
      (unquote chars).map fun (content, after) => (.scalar c :: content, after) := by
  have hletter : letter ≠ 'u' := by
    rintro rfl
    simp [escaped?] at h
  rw [unquote]
  · cases unquote chars <;> simp [h]
  · rintro _ _ _ _ _ rfl
    exact absurd rfl hletter

theorem unquote_raw {c : Char} (hquote : c ≠ '"') (hbackslash : c ≠ '\\')
    (hcontrol : ¬ c.toNat < 0x20) (chars : List Char) :
    unquote (c :: chars) =
      (unquote chars).map fun (content, after) => (.scalar c :: content, after) := by
  rw [unquote]
  · rw [if_neg hcontrol]
    cases unquote chars <;> rfl
  · exact hquote
  all_goals simp [hbackslash]

theorem escaped?_of_mem {letter c : Char} (h : (letter, c) ∈ letterEscapes) :
    escaped? letter = some c := by
  have hall : ∀ pair ∈ letterEscapes, escaped? pair.1 = some pair.2 := by decide
  exact hall _ h

/-- A character is no surrogate. -/
theorem ofUnit_toNat (c : Char) : CodePoint.ofUnit c.toNat = .scalar c := by
  have hvalid : c.toNat < 0xD800 ∨ 0xDFFF < c.toNat ∧ c.toNat < 0x110000 := c.valid
  rw [CodePoint.ofUnit, dif_neg (by omega), Char.ofNat_toNat]

theorem ofUnit_surrogate (index : Fin 0x800) :
    CodePoint.ofUnit (0xD800 + index.val) = .surrogate index := by
  have hindex := index.isLt
  rw [CodePoint.ofUnit, dif_pos (by omega)]
  exact congrArg CodePoint.surrogate (Fin.ext (Nat.add_sub_cancel_left ..))

/-- Two surrogates that make a pair are joined. -/
theorem joinPairs_pair {c : Char} {high low : Nat} (hhigh : high < 0x400) (hlow : low < 0x400)
    (hc : c.toNat = 0x10000 + high * 0x400 + low) (points : List CodePoint) :
    CodePoint.joinPairs (.ofUnit (0xD800 + high) :: .ofUnit (0xDC00 + low) :: points) =
      .scalar c :: CodePoint.joinPairs points := by
  have hfirst := ofUnit_surrogate ⟨high, by omega⟩
  have hsecond := ofUnit_surrogate ⟨0x400 + low, by omega⟩
  rw [← Nat.add_assoc] at hsecond
  rw [hfirst, hsecond, CodePoint.joinPairs, if_pos ⟨hhigh, Nat.le_add_right ..⟩,
    Nat.add_sub_cancel_left, ← hc, Char.ofNat_toNat]

/-- The characters of a string are read, whichever way each of them is written. -/
theorem unquote_spells {chars content : List Char} (h : SpellsChars chars content)
    (rest : List Char) :
    ∃ points, unquote (chars ++ '"' :: rest) = some (points, rest) ∧
      CodePoint.joinPairs points = content.map .scalar := by
  induction h with
  | nil => exact ⟨[], by simp [unquote], rfl⟩
  | raw hquote hbackslash hcontrol _ ih =>
    obtain ⟨points, hread, hjoin⟩ := ih
    rw [List.cons_append, unquote_raw hquote hbackslash (by omega), hread]
    exact ⟨_, rfl, congrArg (_ :: ·) hjoin⟩
  | letter hletter _ ih =>
    obtain ⟨points, hread, hjoin⟩ := ih
    rw [List.cons_append, List.cons_append, unquote_letter (escaped?_of_mem hletter), hread]
    exact ⟨_, rfl, congrArg (_ :: ·) hjoin⟩
  | @unit c _ _ _ hunit _ ih =>
    obtain ⟨points, hread, hjoin⟩ := ih
    rw [List.append_assoc, (unquote_unit hunit _).2, hread, ofUnit_toNat]
    exact ⟨_, rfl, congrArg (_ :: ·) hjoin⟩
  | pair hfirst hsecond hhigh hlow hc _ ih =>
    obtain ⟨points, hread, hjoin⟩ := ih
    rw [List.append_assoc, List.append_assoc, (unquote_unit hfirst _).2,
      (unquote_unit hsecond _).2, hread]
    exact ⟨_, rfl, by rw [joinPairs_pair hhigh hlow hc, hjoin, List.map_cons]⟩

theorem read_text {chars : List Char} {content : String} (h : SpellsChars chars content.toList)
    (rest : List Char) :
    Lexeme.read ('"' :: (chars ++ '"' :: rest)) =
      some (.text (CodePoint.ofString content), rest) := by
  obtain ⟨points, hread, hjoin⟩ := unquote_spells h rest
  simp only [Lexeme.read, hread, Option.map_some, hjoin, CodePoint.ofString]

end Strings

/-- No numeral goes on with these characters. -/
def EndsNumeral (rest : List Char) : Prop :=
  ∀ c ∈ rest.head?, c.isDigit = false ∧ c ≠ '.' ∧ c ≠ 'e' ∧ c ≠ 'E'

namespace Numeral

variable {rest : List Char}

theorem readDigits_append {digits : List Char} (hdigits : IsDigits digits)
    (hrest : ∀ c ∈ rest.head?, c.isDigit = false) :
    readDigits (digits ++ rest) = some (digits, rest) := by
  obtain ⟨htake, hdrop⟩ := Lexeme.takeWhile_append_of_head hdigits.2 hrest
  rw [readDigits, htake, hdrop]
  split
  · exact absurd rfl hdigits.1
  · rfl

theorem isDigits_toDigits (n : Nat) : IsDigits (Nat.toDigits 10 n) :=
  ⟨Nat.toDigits_ne_nil, fun _ hc => Nat.isDigit_of_mem_toDigits (by decide) (by decide) hc⟩

/-- A number is written with a digit first, which is a zero for zero only. -/
theorem toDigits_eq_cons (n : Nat) :
    ∃ c digits, Nat.toDigits 10 n = c :: digits ∧ c.isDigit = true ∧ (0 < n → c ≠ '0') := by
  induction n using Nat.strong_induction_on with
  | h n ih =>
    rw [Nat.toDigits_eq_if (by decide)]
    split
    · rename_i hn
      have hzero : ∀ m < 10, 0 < m → Nat.digitChar m ≠ '0' := by decide
      exact ⟨_, [], rfl, by simpa [Nat.isDigit_digitChar] using hn, hzero n hn⟩
    · obtain ⟨c, digits, heq, hc, hzero⟩ := ih (n / 10) (by omega)
      rw [heq]
      exact ⟨c, _, rfl, hc, fun _ => hzero (by omega)⟩

theorem readWhole_toDigits (n : Nat) (hrest : ∀ c ∈ rest.head?, c.isDigit = false) :
    readWhole (Nat.toDigits 10 n ++ rest) = some (n, rest) := by
  obtain rfl | hn := Nat.eq_zero_or_pos n
  · rw [Nat.toDigits_zero]
    rfl
  · obtain ⟨c, digits, heq, -, hzero⟩ := toDigits_eq_cons n
    rw [readWhole, readDigits_append (isDigits_toDigits n) hrest]
    · simp [Nat.ofDigitChars_toDigits]
    · rw [heq]
      exact fun _ h => hzero hn (List.cons.inj h).1

/-- Digits have no sign. -/
theorem readSign_digits {digits : List Char} (hdigits : IsDigits digits) :
    readSign (digits ++ rest) = (false, digits ++ rest) := by
  obtain ⟨c, more, rfl⟩ := List.exists_cons_of_ne_nil hdigits.1
  have hc : c.isDigit = true := hdigits.2 c List.mem_cons_self
  rw [List.cons_append, readSign, readMinus]
  all_goals
    rintro _ h
    simp [(List.cons.inj h).1] at hc

theorem readExponent_append {chars : List Char} {exponent : Option Int}
    (h : SpellsExponent chars exponent) (hrest : EndsNumeral rest) :
    readExponent (chars ++ rest) = some (exponent, rest) := by
  have hends : ∀ c ∈ rest.head?, c.isDigit = false := fun c hc => (hrest c hc).1
  cases h with
  | absent =>
    rw [List.nil_append, readExponent]
    · rintro others rfl
      exact (hrest 'e' rfl).2.2.1 rfl
    · rintro others rfl
      exact (hrest 'E' rfl).2.2.2 rfl
  | unsigned hletter hdigits =>
    have hread := readDigits_append hdigits hends
    rcases hletter with rfl | rfl <;> simp [readExponent, readSign_digits hdigits, hread]
  | plus hletter hdigits | minus hletter hdigits =>
    have hread := readDigits_append hdigits hends
    rcases hletter with rfl | rfl <;> simp [readExponent, readSign, readMinus, hread]

/-- What follows a fraction does not go on with it. -/
theorem SpellsExponent.ends {chars : List Char} {exponent : Option Int}
    (h : SpellsExponent chars exponent) (hrest : EndsNumeral rest) :
    ∀ c ∈ (chars ++ rest).head?, c.isDigit = false ∧ c ≠ '.' := by
  intro c hc
  cases h with
  | absent => exact ⟨(hrest c hc).1, (hrest c hc).2.1⟩
  | unsigned hletter | plus hletter | minus hletter =>
    obtain rfl := Option.some.inj hc
    rcases hletter with rfl | rfl <;> exact ⟨rfl, by decide⟩

theorem readFraction_append {chars fraction : List Char} (h : SpellsFraction chars fraction)
    (hrest : ∀ c ∈ rest.head?, c.isDigit = false ∧ c ≠ '.') :
    readFraction (chars ++ rest) = some (fraction, rest) := by
  cases h with
  | absent =>
    rw [List.nil_append, readFraction]
    rintro others rfl
    exact (hrest '.' rfl).2 rfl
  | point hdigits => exact readDigits_append hdigits fun c hc => (hrest c hc).1

theorem SpellsFraction.ends {chars fraction : List Char} (h : SpellsFraction chars fraction)
    (hrest : ∀ c ∈ rest.head?, c.isDigit = false ∧ c ≠ '.') :
    ∀ c ∈ (chars ++ rest).head?, c.isDigit = false := by
  intro c hc
  cases h with
  | absent => exact (hrest c hc).1
  | point =>
    obtain rfl := Option.some.inj hc
    rfl

theorem readMinus_toDigits (negative : Bool) (n : Nat) :
    readMinus ((if negative then ['-'] else []) ++ (Nat.toDigits 10 n ++ rest)) =
      (negative, Nat.toDigits 10 n ++ rest) := by
  cases negative with
  | true => rfl
  | false =>
    obtain ⟨c, digits, heq, hc, -⟩ := toDigits_eq_cons n
    simp only [Bool.false_eq_true, if_false, List.nil_append]
    rw [heq, List.cons_append, readMinus]
    rintro _ h
    simp [(List.cons.inj h).1] at hc

theorem read_append {chars : List Char} {numeral : Numeral} (h : numeral.Spells chars)
    (hrest : EndsNumeral rest) : read (chars ++ rest) = some (numeral, rest) := by
  obtain ⟨negative, whole, hfraction, hexponent⟩ := h
  have hends := hexponent.ends hrest
  simp [read, readMinus_toDigits, readWhole_toDigits whole (hfraction.ends hends),
    readFraction_append hfraction hends, readExponent_append hexponent hrest]

theorem Spells.head {chars : List Char} {numeral : Numeral} (h : numeral.Spells chars) :
    ∃ c more, chars = c :: more ∧ (c = '-' ∨ c.isDigit = true) := by
  obtain ⟨negative, whole, -, -⟩ := h
  cases negative with
  | true => exact ⟨'-', _, rfl, .inl rfl⟩
  | false =>
    obtain ⟨c, digits, heq, hc, -⟩ := toDigits_eq_cons whole
    rw [heq]
    exact ⟨c, _, rfl, .inr hc⟩

end Numeral

/-- What starts with a minus or a digit is a numeral. -/
theorem read_eq_numeral {c : Char} (hc : c = '-' ∨ c.isDigit = true) (chars : List Char) :
    Lexeme.read (c :: chars) =
      (Numeral.read (c :: chars)).map fun (numeral, after) => (.atom (.number numeral), after) := by
  unfold Lexeme.read
  split
  case h_11 => rfl
  all_goals
    obtain rfl := (List.cons.inj ‹_›).1
    simp at hc

theorem read_number {chars rest : List Char} {numeral : Numeral} (h : numeral.Spells chars)
    (hrest : EndsNumeral rest) :
    Lexeme.read (chars ++ rest) = some (.atom (.number numeral), rest) := by
  have hread := Numeral.read_append h hrest
  obtain ⟨c, more, rfl, hc⟩ := h.head
  rw [List.cons_append] at hread ⊢
  rw [read_eq_numeral hc, hread]
  rfl

/-- No lexeme starts with a space. -/
theorem isSpace_of_read {c : Char} {chars : List Char} {result : Lexeme × List Char}
    (h : Lexeme.read (c :: chars) = some result) : Lexeme.isSpace c = false := by
  by_contra hspace
  simp only [Lexeme.isSpace, Bool.not_eq_false, Bool.or_eq_true, decide_eq_true_eq] at hspace
  rcases hspace with ((rfl | rfl) | rfl) | rfl <;>
    simp [Lexeme.read, Numeral.read, Numeral.readMinus, Numeral.readWhole, Numeral.readDigits] at h

namespace Builder

variable {builder next : Builder} {frames : List Frame} {rest : List Char}

/-- The builder after the lexemes that characters spell. -/
def readChars (builder : Builder) (chars : List Char) : Option Builder :=
  (Lexeme.readAll chars).bind builder.steps

theorem readChars_nil (builder : Builder) : builder.readChars [] = some builder := by
  simp [readChars, Lexeme.readAll, steps]

theorem readChars_space {c : Char} (hc : Lexeme.isSpace c = true) (chars : List Char) :
    builder.readChars (c :: chars) = builder.readChars chars := by
  rw [readChars, Lexeme.readAll, if_pos hc]
  rfl

theorem readChars_gap {gap : List Char} (hgap : IsGap gap) (chars : List Char) :
    builder.readChars (gap ++ chars) = builder.readChars chars := by
  induction gap with
  | nil => rfl
  | cons c gap ih =>
    have hc : Lexeme.isSpace c = true := by
      simpa [Lexeme.isSpace, or_assoc] using hgap c List.mem_cons_self
    rw [List.cons_append, readChars_space hc, ih fun d hd => hgap d (List.mem_cons_of_mem c hd)]

/-- A lexeme is a step of the builder. -/
theorem readChars_lexeme (lexeme : Lexeme) {chars : List Char}
    (hread : Lexeme.read chars = some (lexeme, rest)) (hstep : builder.step lexeme = some next) :
    builder.readChars chars = next.readChars rest := by
  cases chars with
  | nil => exact absurd (Lexeme.length_read hread) (Nat.not_lt_zero _)
  | cons c chars =>
    have hc : ¬ Lexeme.isSpace c = true := by simp [isSpace_of_read hread]
    have hall : Lexeme.readAll (c :: chars) = (Lexeme.readAll rest).map (lexeme :: ·) := by
      rw [Lexeme.readAll, if_neg hc]
      split
      · simp_all
      · simp_all
    rw [readChars, hall, readChars]
    cases Lexeme.readAll rest with
    | none => rfl
    | some lexemes => simp [steps, hstep]

/-- A value may start here, inside these frames. -/
def Awaits (builder : Builder) (frames : List Frame) : Prop :=
  ∀ lexeme, lexeme ≠ .closeArray → builder.step lexeme = start frames lexeme

theorem awaits_value (frames : List Frame) : (⟨frames, .value⟩ : Builder).Awaits frames :=
  fun _ _ => rfl

theorem awaits_firstElement (frames : List Frame) :
    (⟨frames, .firstElement⟩ : Builder).Awaits (.array [] :: frames) := by
  intro lexeme hlexeme
  cases lexeme with
  | closeArray => exact absurd rfl hlexeme
  | _ => rfl

/-- A member may start here, after these ones and inside these frames. -/
def AwaitsMember (builder : Builder) (frames : List Frame)
    (members : List (List CodePoint × Json)) : Prop :=
  ∀ key, builder.step (.text key) = some ⟨frames, .colon members key⟩

end Builder

/-- The builder that has read these characters has read this value. -/
def IsReadFrom (json : Json) (chars : List Char) : Prop :=
  ∀ (builder : Builder) (frames : List Frame) (rest : List Char),
    builder.Awaits frames → EndsNumeral rest →
      builder.readChars (chars ++ rest) = (⟨frames, .complete json⟩ : Builder).readChars rest

/-- The same for all that the grammar has rules for. The elements and the members are read
up to the bracket that ends them. -/
def Phrase.IsReadFrom : Phrase → List Char → Prop
  | value json, chars
  | spaced json, chars => json.IsReadFrom chars
  | elements list, chars =>
    ∀ (builder : Builder) (frames : List Frame) (read : List Json) (rest : List Char),
      builder.Awaits (.array read :: frames) →
        builder.readChars (chars ++ ']' :: rest) =
          (⟨frames, .complete (.array (read.reverse ++ list))⟩ : Builder).readChars rest
  | member name json, chars =>
    ∀ (builder : Builder) (frames : List Frame) (read : List (List CodePoint × Json))
      (rest : List Char), builder.AwaitsMember frames read → EndsNumeral rest →
        builder.readChars (chars ++ rest) =
          (⟨.object read (CodePoint.ofString name) :: frames, .complete json⟩ :
            Builder).readChars rest
  | members fields, chars =>
    ∀ (builder : Builder) (frames : List Frame) (read : List (List CodePoint × Json))
      (rest : List Char), builder.AwaitsMember frames read →
        builder.readChars (chars ++ '\x7d' :: rest) =
          (⟨frames, .complete (.object (read.reverse ++
            fields.map fun (name, json) => (CodePoint.ofString name, json)))⟩ :
              Builder).readChars rest

theorem endsNumeral_cons {c : Char} (hdigit : c.isDigit = false) (hpoint : c ≠ '.')
    (hlower : c ≠ 'e') (hupper : c ≠ 'E') (rest : List Char) : EndsNumeral (c :: rest) := by
  intro d hd
  obtain rfl := Option.some.inj hd
  exact ⟨hdigit, hpoint, hlower, hupper⟩

theorem endsNumeral_gap {gap rest : List Char} (hgap : IsGap gap) (hrest : EndsNumeral rest) :
    EndsNumeral (gap ++ rest) := by
  cases gap with
  | nil => exact hrest
  | cons c gap =>
    rcases hgap c List.mem_cons_self with rfl | rfl | rfl | rfl <;>
      exact endsNumeral_cons (by decide) (by decide) (by decide) (by decide) _

/-- What the grammar derives is read, wherever it may stand. -/
theorem Spells.isReadFrom {chars : List Char} {phrase : Phrase} (h : Spells chars phrase) :
    phrase.IsReadFrom chars := by
  induction h with
  | null | boolTrue | boolFalse =>
    intro builder frames rest hawaits _
    exact Builder.readChars_lexeme _ rfl (hawaits _ (by simp))
  | number hnumeral =>
    intro builder frames rest hawaits hrest
    exact Builder.readChars_lexeme _ (read_number hnumeral hrest) (hawaits _ (by simp))
  | text hchars =>
    intro builder frames rest hawaits _
    rw [List.cons_append, List.cons_append, List.append_assoc]
    exact Builder.readChars_lexeme _ (read_text hchars rest) (hawaits _ (by simp))
  | emptyArray hgap =>
    intro builder frames rest hawaits _
    rw [List.cons_append, List.cons_append, List.append_assoc,
      Builder.readChars_lexeme .openArray rfl (hawaits _ (by simp)), Builder.readChars_gap hgap]
    exact Builder.readChars_lexeme .closeArray rfl rfl
  | array _ ih =>
    intro builder frames rest hawaits _
    rw [List.cons_append, List.cons_append, List.append_assoc,
      Builder.readChars_lexeme .openArray rfl (hawaits _ (by simp))]
    exact ih _ frames [] rest (Builder.awaits_firstElement frames)
  | emptyObject hgap =>
    intro builder frames rest hawaits _
    rw [List.cons_append, List.cons_append, List.append_assoc,
      Builder.readChars_lexeme .openObject rfl (hawaits _ (by simp)), Builder.readChars_gap hgap]
    exact Builder.readChars_lexeme .closeObject rfl rfl
  | object _ ih =>
    intro builder frames rest hawaits _
    rw [List.cons_append, List.cons_append, List.append_assoc,
      Builder.readChars_lexeme .openObject rfl (hawaits _ (by simp))]
    exact ih _ frames [] rest fun _ => rfl
  | spaced hbefore _ hafter ih =>
    intro builder frames rest hawaits hrest
    rw [List.append_assoc, List.append_assoc, Builder.readChars_gap hbefore,
      ih builder frames _ hawaits (endsNumeral_gap hafter hrest), Builder.readChars_gap hafter]
  | lastElement _ ih =>
    intro builder frames read rest hawaits
    rw [ih builder _ _ hawaits (endsNumeral_cons rfl (by decide) (by decide) (by decide) rest),
      Builder.readChars_lexeme .closeArray rfl rfl, List.reverse_cons]
  | element _ _ ih ihrest =>
    intro builder frames read rest hawaits
    rw [List.append_assoc, List.cons_append,
      ih builder _ _ hawaits (endsNumeral_cons rfl (by decide) (by decide) (by decide) _),
      Builder.readChars_lexeme .comma rfl rfl, ihrest _ frames _ rest (Builder.awaits_value _),
      List.reverse_cons, List.append_assoc, List.singleton_append]
  | member hbefore hkey hafter _ ih =>
    intro builder frames read rest hawaits hrest
    simp only [List.append_assoc, List.cons_append]
    rw [Builder.readChars_gap hbefore,
      Builder.readChars_lexeme _ (read_text hkey _) (hawaits _), Builder.readChars_gap hafter,
      Builder.readChars_lexeme .colon rfl rfl]
    exact ih _ _ rest (Builder.awaits_value _) hrest
  | lastMember _ ih =>
    intro builder frames read rest hawaits
    rw [ih builder frames read _ hawaits
        (endsNumeral_cons rfl (by decide) (by decide) (by decide) rest),
      Builder.readChars_lexeme .closeObject rfl rfl, List.reverse_cons]
    rfl
  | members _ _ ih ihrest =>
    intro builder frames read rest hawaits
    rw [List.append_assoc, List.cons_append,
      ih builder frames read _ hawaits
        (endsNumeral_cons rfl (by decide) (by decide) (by decide) _),
      Builder.readChars_lexeme .comma rfl rfl, ihrest _ frames _ rest fun _ => rfl,
      List.reverse_cons, List.append_assoc, List.singleton_append]
    rfl

/-- A JSON text is read as the value that it spells. -/
theorem parse_of_spelledBy {json : Json} {text : String} (h : json.SpelledBy text) :
    parse text = some json := by
  have hread := Spells.isReadFrom h Builder.initial [] [] (Builder.awaits_value []) nofun
  rw [List.append_nil, Builder.readChars_nil, Builder.readChars] at hread
  obtain ⟨lexemes, hlexemes, hsteps⟩ := Option.bind_eq_some_iff.mp hread
  simp [parse, hlexemes, hsteps, Builder.result?]

end CurriedLambda.Json
