import CurriedLambda.Lexer
import Mathlib.Data.List.TakeWhile

/-!
The shapes of lexemes. Each kind of token has a set of lexemes, and a lexeme that could
go on is maximal where it ends. Between them, shape and maximality leave no choice: from
each character that is no gap exactly one lexeme starts, whatever the characters after
it, and it is the one that the lexer cuts off.
-/
namespace CurriedLambda

namespace Lexeme

def IsSpace (c : Char) : Prop := c = ' ' ∨ c = '\t' ∨ c = '\r'

def IsDigit (c : Char) : Prop := '0' ≤ c ∧ c ≤ '9'

def IsLetter (c : Char) : Prop := 'a' ≤ c ∧ c ≤ 'z' ∨ 'A' ≤ c ∧ c ≤ 'Z'

/-- The characters that no identifier goes on with. -/
def IsStop (c : Char) : Prop :=
  c = ' ' ∨ c = '\n' ∨ c = '\\' ∨ c = '-' ∨ c = '+' ∨ c = '/' ∨ c = '(' ∨ c = ')' ∨
    c = '\t' ∨ c = '\r' ∨ c = '>' ∨ c = ';'

/-- The characters that are lexemes by themselves. -/
def IsSign (c : Char) : Prop :=
  c = ';' ∨ c = '(' ∨ c = ')' ∨ c = '\\' ∨ c = '>' ∨ c = '-' ∨ c = '+' ∨ c = '*' ∨
    c = '/' ∨ c = '\n'

/-- The lexemes of each kind. White space is never a lexeme. -/
def HasShape : Kind → List Char → Prop
  | .identifier, lexeme => ∃ first rest, lexeme = first :: rest ∧ IsLetter first ∧
      ∀ c ∈ rest, ¬ IsStop c
  | .whitespace, _ => False
  | .newline, lexeme => lexeme = ['\n']
  | .closeBracket, lexeme => lexeme = [')']
  | .openBracket, lexeme => lexeme = ['(']
  | .lambda, lexeme => lexeme = ['\\']
  | .integer, lexeme => lexeme ≠ [] ∧ ∀ c ∈ lexeme, IsDigit c
  | .float, lexeme => ∃ whole fraction, lexeme = whole ++ '.' :: fraction ∧ whole ≠ [] ∧
      (∀ c ∈ whole, IsDigit c) ∧ ∀ c ∈ fraction, IsDigit c
  | .minus, lexeme => lexeme = ['-']
  | .plus, lexeme => lexeme = ['+']
  | .times, lexeme => lexeme = ['*']
  | .divide, lexeme => lexeme = ['/']
  | .greater, lexeme => lexeme = ['>']
  | .semicolon, lexeme => lexeme = [';']
  | .invalid, lexeme => ∃ c, lexeme = [c] ∧ ¬ IsSign c ∧ ¬ IsDigit c ∧ ¬ IsLetter c ∧ ¬ IsSpace c

/-- The characters with which a lexeme of a kind would go on. -/
def GoesOn : Kind → Char → Prop
  | .identifier, c => ¬ IsStop c
  | .integer, c => IsDigit c ∨ c = '.'
  | .float, c => IsDigit c
  | _, _ => False

/-- Whether a lexeme is as long as it can be where these characters follow. -/
def IsMaximal (kind : Kind) (rest : List Char) : Prop :=
  ∀ c ∈ rest.head?, ¬ GoesOn kind c

theorem isGap_iff (c : Char) : isGap c = true ↔ IsSpace c := by
  simp [isGap, IsSpace, or_assoc]

theorem isDigit_iff (c : Char) : c.isDigit = true ↔ IsDigit c := by
  simp [Char.isDigit, IsDigit, Char.le_def]

theorem isAlpha_iff (c : Char) : c.isAlpha = true ↔ IsLetter c := by
  have hupper : c.isUpper = true ↔ 'A' ≤ c ∧ c ≤ 'Z' := decide_eq_true_iff
  have hlower : c.isLower = true ↔ 'a' ≤ c ∧ c ≤ 'z' :=
    Bool.and_eq_true_iff.trans (and_congr decide_eq_true_iff decide_eq_true_iff)
  have halpha : c.isAlpha = true ↔ c.isUpper = true ∨ c.isLower = true := Bool.or_eq_true_iff
  rw [halpha, hupper, hlower, IsLetter, or_comm]

theorem isReserved_iff (c : Char) : isReserved c = true ↔ IsStop c := by
  simp [isReserved, IsStop]

theorem signKind?_isSome_iff (c : Char) : (signKind? c).isSome ↔ IsSign c := by
  unfold signKind? IsSign
  split <;> simp_all

theorem not_isDigit_of_isSign {c : Char} (h : IsSign c) : ¬ IsDigit c := by
  rcases h with rfl | rfl | rfl | rfl | rfl | rfl | rfl | rfl | rfl | rfl <;> simp [IsDigit]

theorem not_isLetter_of_isSign {c : Char} (h : IsSign c) : ¬ IsLetter c := by
  rcases h with rfl | rfl | rfl | rfl | rfl | rfl | rfl | rfl | rfl | rfl <;> simp [IsLetter]

theorem not_isLetter_of_isDigit {c : Char} (h : IsDigit c) : ¬ IsLetter c := by
  simp only [IsDigit, IsLetter, Char.le_def, UInt32.le_iff_toNat_le] at h ⊢
  change 48 ≤ c.val.toNat ∧ c.val.toNat ≤ 57 at h
  change ¬ (97 ≤ c.val.toNat ∧ c.val.toNat ≤ 122 ∨ 65 ≤ c.val.toNat ∧ c.val.toNat ≤ 90)
  omega

theorem isMaximal_nil (kind : Kind) : IsMaximal kind [] := by
  simp [IsMaximal]

theorem isMaximal_cons {kind : Kind} {c : Char} {rest : List Char} :
    IsMaximal kind (c :: rest) ↔ ¬ GoesOn kind c := by
  simp [IsMaximal]

theorem ne_nil_of_hasShape {kind : Kind} {lexeme : List Char} (h : HasShape kind lexeme) :
    lexeme ≠ [] := by
  rintro rfl
  cases kind <;> simp [HasShape] at h

/-- A character that ends identifiers is a lexeme by itself or none. -/
theorem eq_singleton_of_isStop {kind : Kind} {lexeme : List Char} {c : Char}
    (h : HasShape kind lexeme) (hmem : c ∈ lexeme) (hstop : IsStop c) : lexeme = [c] := by
  have hother : ¬ IsLetter c ∧ ¬ IsDigit c ∧ c ≠ '.' := by
    rcases hstop with rfl | rfl | rfl | rfl | rfl | rfl | rfl | rfl | rfl | rfl | rfl | rfl <;>
      simp [IsLetter, IsDigit]
  obtain ⟨hletter, hdigit, hpoint⟩ := hother
  cases kind with
  | whitespace => cases h
  | identifier =>
    obtain ⟨first, rest, rfl, hfirst, hrest⟩ := h
    rcases List.mem_cons.mp hmem with rfl | hmem
    · exact absurd hfirst hletter
    · exact absurd hstop (hrest _ hmem)
  | integer => exact absurd (h.2 _ hmem) hdigit
  | float =>
    obtain ⟨whole, fraction, rfl, -, hwhole, hfraction⟩ := h
    rcases List.mem_append.mp hmem with hmem | hmem
    · exact absurd (hwhole _ hmem) hdigit
    · exact absurd (hfraction _ (List.mem_of_ne_of_mem hpoint hmem)) hdigit
  | invalid =>
    obtain ⟨other, rfl, -⟩ := h
    rw [List.mem_singleton.mp hmem]
  | _ =>
    rw [show lexeme = _ from h] at hmem ⊢
    rw [List.mem_singleton.mp hmem]

/-- What stays after the longest run of a property starts with a character without it. -/
theorem takeWhile_append_of_head {p : Char → Bool} {run rest : List Char}
    (hrun : ∀ c ∈ run, p c = true) (hrest : ∀ c ∈ rest.head?, p c = false) :
    (run ++ rest).takeWhile p = run ∧ (run ++ rest).dropWhile p = rest := by
  rw [List.takeWhile_append_of_pos hrun, List.dropWhile_append_of_pos hrun]
  cases rest with
  | nil => simp
  | cons c rest =>
    have hc : p c = false := hrest c (by simp)
    simp [hc]

theorem head?_dropWhile_not {p : Char → Bool} (chars : List Char) :
    ∀ c ∈ (chars.dropWhile p).head?, p c = false := by
  intro c hc
  have hhead := List.head?_dropWhile_not p chars
  rw [Option.mem_def.mp hc] at hhead
  exact hhead

theorem hasShape_of_signKind? {c : Char} {kind : Kind} (h : signKind? c = some kind) :
    HasShape kind [c] ∧ ∀ rest, IsMaximal kind rest := by
  unfold signKind? at h
  split at h <;> simp_all [IsMaximal] <;> subst h <;> simp [HasShape, GoesOn]

/-- The first character of a lexeme decides what it is: a sign, a number, an identifier
or a character that fits nothing else. -/
theorem hasShape_cons {c : Char} {tail : List Char} {kind : Kind} (h : HasShape kind (c :: tail)) :
    signKind? c = some kind ∧ tail = [] ∨
      IsDigit c ∧ kind = .integer ∧ (∀ d ∈ tail, IsDigit d) ∨
      IsDigit c ∧ kind = .float ∧ (∃ whole fraction, tail = whole ++ '.' :: fraction ∧
        (∀ d ∈ whole, IsDigit d) ∧ ∀ d ∈ fraction, IsDigit d) ∨
      IsLetter c ∧ kind = .identifier ∧ (∀ d ∈ tail, ¬ IsStop d) ∨
      (¬ IsSign c ∧ ¬ IsDigit c ∧ ¬ IsLetter c ∧ ¬ IsSpace c) ∧ kind = .invalid ∧ tail = [] := by
  cases kind with
  | identifier =>
    obtain ⟨first, rest, heq, hfirst, hrest⟩ := h
    obtain ⟨rfl, rfl⟩ := List.cons.inj heq
    exact Or.inr (Or.inr (Or.inr (Or.inl ⟨hfirst, rfl, hrest⟩)))
  | whitespace => exact h.elim
  | integer =>
    have hall := List.forall_mem_cons.mp h.2
    exact Or.inr (Or.inl ⟨hall.1, rfl, hall.2⟩)
  | float =>
    obtain ⟨whole, fraction, heq, hne, hwhole, hfraction⟩ := h
    cases whole with
    | nil => exact absurd rfl hne
    | cons first whole =>
      obtain ⟨rfl, htail⟩ := List.cons.inj heq
      have hall := List.forall_mem_cons.mp hwhole
      exact Or.inr (Or.inr (Or.inl ⟨hall.1, rfl, whole, fraction, htail, hall.2, hfraction⟩))
  | invalid =>
    obtain ⟨other, heq, hother⟩ := h
    obtain ⟨rfl, rfl⟩ := List.cons.inj heq
    exact Or.inr (Or.inr (Or.inr (Or.inr ⟨hother, rfl, rfl⟩)))
  | _ =>
    obtain ⟨rfl, rfl⟩ := List.cons.inj h
    exact Or.inl ⟨rfl, rfl⟩

theorem isSign_of_signKind? {c : Char} {kind : Kind} (h : signKind? c = some kind) : IsSign c :=
  (signKind?_isSome_iff c).mp (by simp [h])

/-- No lexeme starts with a gap. -/
theorem not_isSpace_of_hasShape {c : Char} {tail : List Char} {kind : Kind}
    (h : HasShape kind (c :: tail)) : ¬ IsSpace c := by
  intro hspace
  rcases hasShape_cons h with ⟨hsign, -⟩ | ⟨hdigit, -⟩ | ⟨hdigit, -⟩ | ⟨hletter, -⟩ |
    ⟨⟨-, -, -, hnospace⟩, -⟩
  · have hstart := isSign_of_signKind? hsign
    rcases hspace with rfl | rfl | rfl <;> simp [IsSign] at hstart
  · rcases hspace with rfl | rfl | rfl <;> simp [IsDigit] at hdigit
  · rcases hspace with rfl | rfl | rfl <;> simp [IsDigit] at hdigit
  · rcases hspace with rfl | rfl | rfl <;> simp [IsLetter] at hletter
  · exact hnospace hspace

theorem not_mem_space {kind : Kind} {lexeme : List Char} (h : HasShape kind lexeme) :
    ' ' ∉ lexeme := by
  intro hmem
  rw [eq_singleton_of_isStop h hmem (.inl rfl)] at h
  exact not_isSpace_of_hasShape h (.inl rfl)

/-- A line break belongs to no other lexeme. -/
theorem kind_eq_newline_of_mem {kind : Kind} {lexeme : List Char} (h : HasShape kind lexeme)
    (hmem : '\n' ∈ lexeme) : kind = .newline := by
  rw [eq_singleton_of_isStop h hmem (.inr (.inl rfl))] at h
  have hdigit : ¬ IsDigit '\n' := by simp [IsDigit]
  have hletter : ¬ IsLetter '\n' := by simp [IsLetter]
  rcases hasShape_cons h with ⟨hsign, -⟩ | ⟨hstart, -⟩ | ⟨hstart, -⟩ | ⟨hstart, -⟩ | ⟨⟨hsign, -⟩, -⟩
  · exact (Option.some.inj hsign).symm
  · exact absurd hstart hdigit
  · exact absurd hstart hdigit
  · exact absurd hstart hletter
  · exact absurd (by simp [IsSign]) hsign

theorem signKind?_eq_none {c : Char} (h : ¬ IsSign c) : signKind? c = none := by
  rwa [← signKind?_isSome_iff, Option.not_isSome_iff_eq_none] at h

theorem not_isSign_of_isDigit {c : Char} (h : IsDigit c) : ¬ IsSign c :=
  fun hsign => not_isDigit_of_isSign hsign h

theorem not_isSign_of_isLetter {c : Char} (h : IsLetter c) : ¬ IsSign c :=
  fun hsign => not_isLetter_of_isSign hsign h

theorem isDigit_eq_false {c : Char} (h : ¬ IsDigit c) : c.isDigit = false :=
  Bool.eq_false_iff.mpr fun hdigit => h ((isDigit_iff c).mp hdigit)

theorem isAlpha_eq_false {c : Char} (h : ¬ IsLetter c) : c.isAlpha = false :=
  Bool.eq_false_iff.mpr fun halpha => h ((isAlpha_iff c).mp halpha)

/-- A digit and what the lexer takes after it are a number that is as long as can be. -/
theorem numberTail_shape {c : Char} (hc : IsDigit c) (chars : List Char) :
    HasShape (numberTail chars).1 (c :: (numberTail chars).2) ∧
      ∃ rest, chars = (numberTail chars).2 ++ rest ∧ IsMaximal (numberTail chars).1 rest := by
  have hdigits : ∀ d ∈ chars.takeWhile Char.isDigit, IsDigit d :=
    fun d hd => (isDigit_iff d).mp (List.mem_takeWhile_imp hd)
  have hwhole : ∀ d ∈ c :: chars.takeWhile Char.isDigit, IsDigit d := by
    simpa [hc] using hdigits
  have hhead := head?_dropWhile_not (p := Char.isDigit) chars
  have hsplit := List.takeWhile_append_dropWhile (p := Char.isDigit) (l := chars)
  generalize hdrop : chars.dropWhile Char.isDigit = after at hhead hsplit
  unfold numberTail
  rw [hdrop]
  split
  · rename_i fraction
    refine ⟨⟨c :: chars.takeWhile Char.isDigit, fraction.takeWhile Char.isDigit, rfl, by simp,
      hwhole, fun d hd => (isDigit_iff d).mp (List.mem_takeWhile_imp hd)⟩,
      fraction.dropWhile Char.isDigit, ?_, ?_⟩
    · simpa using hsplit.symm
    · intro d hd hdigit
      have hstop := head?_dropWhile_not fraction d hd
      simp [(isDigit_iff d).mpr hdigit] at hstop
  · rename_i hnodot
    refine ⟨⟨by simp, hwhole⟩, after, hsplit.symm, ?_⟩
    cases after with
    | nil => exact isMaximal_nil _
    | cons d rest =>
      rw [isMaximal_cons]
      rintro (hdigit | rfl)
      · have hstop := hhead d rfl
        simp [(isDigit_iff d).mpr hdigit] at hstop
      · exact hnodot rest rfl

theorem numberTail_integer {tail rest : List Char} (htail : ∀ d ∈ tail, IsDigit d)
    (hmaximal : IsMaximal .integer rest) : numberTail (tail ++ rest) = (.integer, tail) := by
  have hrest : ∀ d ∈ rest.head?, d.isDigit = false := fun d hd =>
    isDigit_eq_false fun hdigit => hmaximal d hd (.inl hdigit)
  obtain ⟨htake, hdrop⟩ :=
    takeWhile_append_of_head (fun d hd => (isDigit_iff d).mpr (htail d hd)) hrest
  unfold numberTail
  rw [htake, hdrop]
  split
  · exact absurd (.inr rfl) (hmaximal '.' rfl)
  · rfl

theorem numberTail_float {whole fraction rest : List Char} (hwhole : ∀ d ∈ whole, IsDigit d)
    (hfraction : ∀ d ∈ fraction, IsDigit d) (hmaximal : IsMaximal .float rest) :
    numberTail (whole ++ '.' :: fraction ++ rest) = (.float, whole ++ '.' :: fraction) := by
  have hrest : ∀ d ∈ rest.head?, d.isDigit = false := fun d hd =>
    isDigit_eq_false (hmaximal d hd)
  have hpoint : ∀ d ∈ ('.' :: (fraction ++ rest)).head?, d.isDigit = false := by simp
  obtain ⟨htake, hdrop⟩ :=
    takeWhile_append_of_head (fun d hd => (isDigit_iff d).mpr (hwhole d hd)) hpoint
  obtain ⟨hafter, -⟩ :=
    takeWhile_append_of_head (fun d hd => (isDigit_iff d).mpr (hfraction d hd)) hrest
  rw [List.append_assoc, List.cons_append, numberTail, htake, hdrop]
  simp only [hafter]

/-- What the lexer cuts off has the shape of its kind and is as long as can be. -/
theorem lexemeTail_shape {c : Char} (hc : ¬ IsSpace c) (chars : List Char) :
    HasShape (lexemeTail c chars).1 (c :: (lexemeTail c chars).2) ∧
      ∃ rest, chars = (lexemeTail c chars).2 ++ rest ∧ IsMaximal (lexemeTail c chars).1 rest := by
  unfold lexemeTail
  cases hsign : signKind? c with
  | some kind =>
    obtain ⟨hshape, hmaximal⟩ := hasShape_of_signKind? hsign
    exact ⟨hshape, chars, rfl, hmaximal chars⟩
  | none =>
    have hnosign : ¬ IsSign c := by
      rw [← signKind?_isSome_iff, hsign]
      simp
    by_cases hdigit : IsDigit c
    · simpa [(isDigit_iff c).mpr hdigit] using numberTail_shape hdigit chars
    · by_cases hletter : IsLetter c
      · simp only [isDigit_eq_false hdigit, (isAlpha_iff c).mpr hletter, if_true]
        refine ⟨⟨c, _, rfl, hletter, ?_⟩, chars.dropWhile fun d => !isReserved d,
          List.takeWhile_append_dropWhile.symm, ?_⟩
        · intro d hd hstop
          have hrun := List.mem_takeWhile_imp hd
          simp [(isReserved_iff d).mpr hstop] at hrun
        · intro d hd hgoes
          have hhead := head?_dropWhile_not chars d hd
          exact hgoes ((isReserved_iff d).mp (by simpa using hhead))
      · simp only [isDigit_eq_false hdigit, isAlpha_eq_false hletter]
        exact ⟨⟨c, rfl, hnosign, hdigit, hletter, hc⟩, chars, rfl, by simp [IsMaximal, GoesOn]⟩

/-- A lexeme that is as long as can be is what the lexer cuts off. -/
theorem lexemeTail_of_hasShape {c : Char} {tail rest : List Char} {kind : Kind}
    (hshape : HasShape kind (c :: tail)) (hmaximal : IsMaximal kind rest) :
    lexemeTail c (tail ++ rest) = (kind, tail) := by
  unfold lexemeTail
  rcases hasShape_cons hshape with ⟨hsign, rfl⟩ | ⟨hdigit, rfl, htail⟩ |
    ⟨hdigit, rfl, whole, fraction, rfl, hwhole, hfraction⟩ | ⟨hletter, rfl, htail⟩ |
    ⟨⟨hsign, hdigit, hletter, -⟩, rfl, rfl⟩
  · rw [hsign]
  · rw [signKind?_eq_none (not_isSign_of_isDigit hdigit)]
    simpa [(isDigit_iff c).mpr hdigit] using numberTail_integer htail hmaximal
  · rw [signKind?_eq_none (not_isSign_of_isDigit hdigit)]
    simpa [(isDigit_iff c).mpr hdigit] using numberTail_float hwhole hfraction hmaximal
  · have hdigit : ¬ IsDigit c := fun h => not_isLetter_of_isDigit h hletter
    have hrun : ∀ d ∈ tail, (!isReserved d) = true := fun d hd => by
      simpa using mt (isReserved_iff d).mp (htail d hd)
    have hrest : ∀ d ∈ rest.head?, (!isReserved d) = false := fun d hd => by
      simpa [GoesOn, isReserved_iff] using hmaximal d hd
    rw [signKind?_eq_none (not_isSign_of_isLetter hletter)]
    simp [isDigit_eq_false hdigit, (isAlpha_iff c).mpr hletter,
      (takeWhile_append_of_head hrun hrest).1]
  · rw [signKind?_eq_none hsign]
    simp [isDigit_eq_false hdigit, isAlpha_eq_false hletter]

end Lexeme

end CurriedLambda
