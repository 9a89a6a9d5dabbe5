import CurriedLambda.Proofs.LexerStates
import CurriedLambda.TextRange
import Mathlib.Data.List.Nodup

/-!
Lexing, as a relation between texts and token lists. A text is read as gaps and lexemes
by turns, each lexeme as long as it can be. Every text can be read so, and in one way
only: the tokens are those that the lexer gives.
-/
namespace CurriedLambda

open Lexeme

/-- The characters, of which the first has `position` ones before it, are gaps and the
lexemes of the tokens by turns. -/
inductive Lexes : Nat → List Char → List Token → Prop
  | done {position : Nat} {gap : List Char} (hgap : ∀ c ∈ gap, IsSpace c) :
      Lexes position gap []
  | token {position : Nat} {gap lexeme rest : List Char} {kind : Kind} {tokens : List Token}
      (hgap : ∀ c ∈ gap, IsSpace c) (hshape : HasShape kind lexeme)
      (hmaximal : IsMaximal kind rest)
      (htokens : Lexes (position + gap.length + lexeme.length) rest tokens) :
      Lexes position (gap ++ (lexeme ++ rest))
        (⟨kind, String.ofList lexeme, position + gap.length⟩ :: tokens)

/-- Every text can be read. -/
theorem exists_lexes (position : Nat) (chars : List Char) :
    ∃ tokens, Lexes position chars tokens := by
  induction hn : chars.length using Nat.strong_induction_on generalizing position chars with
  | h n ih =>
    have hgap : ∀ c ∈ chars.takeWhile isGap, IsSpace c :=
      fun c hc => (isGap_iff c).mp (List.mem_takeWhile_imp hc)
    have hhead := head?_dropWhile_not (p := isGap) chars
    have hsplit := List.takeWhile_append_dropWhile (p := isGap) (l := chars)
    generalize chars.takeWhile isGap = gap at hgap hsplit
    generalize chars.dropWhile isGap = after at hhead hsplit
    subst hsplit
    cases after with
    | nil => exact ⟨[], .done (by simpa using hgap)⟩
    | cons c after =>
      have hc : ¬ IsSpace c := fun h => by
        simpa [(isGap_iff c).mpr h] using hhead c rfl
      obtain ⟨hshape, rest, hrest, hmaximal⟩ := lexemeTail_shape hc after
      have hlt : rest.length < n := by
        have hlength := congrArg List.length hrest
        simp only [List.length_append, List.length_cons] at hn hlength
        omega
      obtain ⟨tokens, htokens⟩ := ih rest.length hlt
        (position + gap.length + (c :: (lexemeTail c after).2).length) rest rfl
      have hlexes := Lexes.token hgap hshape hmaximal htokens
      rw [List.cons_append, ← hrest] at hlexes
      exact ⟨_, hlexes⟩

/-- The lexer gives the tokens of every reading of what is left of its text. -/
theorem Lexes.toList_eq {chars : List Char} {tokens : List Token} {position : Nat}
    (h : Lexes position chars tokens) {lexer : Lexer} {passed : List Char}
    (hpassed : lexer.HasPassed passed) (hposition : passed.length = position)
    (hrest : lexer.rest = chars) : lexer.toList = tokens := by
  induction h generalizing lexer passed with
  | done hgap =>
    subst hrest
    exact Lexer.toList_of_none (hpassed.next_of_gap hgap).1
  | token hgap hshape hmaximal htokens ih =>
    obtain ⟨after, hnext, -, hafter, hafterRest⟩ :=
      hpassed.next_of_lexeme hrest hgap hshape hmaximal
    rw [Lexer.toList_of_some hnext, hposition]
    rw [ih hafter (by simp [hposition, Nat.add_assoc]) hafterRest]

theorem Lexes.eq_tokenize {text : String} {tokens : List Token}
    (h : Lexes 0 text.toList tokens) : tokens = tokenize text :=
  (h.toList_eq (Lexer.hasPassed_ofText text) rfl rfl).symm

theorem lexes_tokenize (text : String) : Lexes 0 text.toList (tokenize text) := by
  obtain ⟨tokens, htokens⟩ := exists_lexes 0 text.toList
  rwa [← htokens.eq_tokenize]

/-- Where a token stands in the characters, what it is there, and that it is as long as
can be. -/
theorem Lexes.exists_maximal_lexeme {position : Nat} {chars : List Char} {tokens : List Token}
    (h : Lexes position chars tokens) {token : Token} (hmem : token ∈ tokens) :
    ∃ before lexeme after, chars = before ++ (lexeme ++ after) ∧
      HasShape token.kind lexeme ∧ IsMaximal token.kind after ∧
      token.text = String.ofList lexeme ∧ token.start = position + before.length := by
  induction h with
  | done hgap => simp at hmem
  | @token position gap lexeme rest kind tokens hgap hshape hmaximal htokens ih =>
    rcases List.mem_cons.mp hmem with rfl | hmem
    · exact ⟨gap, lexeme, rest, rfl, hshape, hmaximal, rfl, rfl⟩
    · obtain ⟨before, lexeme', after, rfl, hshape', hmaximal', htext, hstart⟩ := ih hmem
      refine ⟨gap ++ (lexeme ++ before), lexeme', after, by simp, hshape', hmaximal', htext, ?_⟩
      simp only [hstart, List.length_append]
      omega

theorem Lexes.exists_lexeme {position : Nat} {chars : List Char} {tokens : List Token}
    (h : Lexes position chars tokens) {token : Token} (hmem : token ∈ tokens) :
    ∃ before lexeme after, chars = before ++ (lexeme ++ after) ∧
      HasShape token.kind lexeme ∧ token.text = String.ofList lexeme ∧
      token.start = position + before.length := by
  obtain ⟨before, lexeme, after, hsplit, hshape, -, htext, hstart⟩ := h.exists_maximal_lexeme hmem
  exact ⟨before, lexeme, after, hsplit, hshape, htext, hstart⟩

theorem Lexes.length_pos {position : Nat} {chars : List Char} {tokens : List Token}
    (h : Lexes position chars tokens) {token : Token} (hmem : token ∈ tokens) :
    0 < token.length := by
  obtain ⟨before, lexeme, after, -, hshape, htext, -⟩ := h.exists_lexeme hmem
  rw [Token.length, htext, String.length_ofList]
  exact List.length_pos_iff.mpr (ne_nil_of_hasShape hshape)

/-- No token starts before another one that precedes it has ended. -/
theorem Lexes.pairwise_stop_le_start {position : Nat} {chars : List Char} {tokens : List Token}
    (h : Lexes position chars tokens) :
    tokens.Pairwise fun earlier later => earlier.stop ≤ later.start := by
  induction h with
  | done hgap => exact .nil
  | @token position gap lexeme rest kind tokens hgap hshape hmaximal htokens ih =>
    refine List.pairwise_cons.mpr ⟨fun later hlater => ?_, ih⟩
    obtain ⟨before, -, -, -, -, -, hstart⟩ := htokens.exists_lexeme hlater
    simp only [Token.stop, Token.length, String.length_ofList, hstart]
    omega

theorem pairwise_start_lt (text : String) :
    (tokenize text).Pairwise fun earlier later => earlier.start < later.start := by
  have hlexes := lexes_tokenize text
  refine hlexes.pairwise_stop_le_start.imp_of_mem fun hearlier _ hle => ?_
  have hpos := hlexes.length_pos hearlier
  simp only [Token.stop] at hle
  omega

theorem nodup_start (text : String) : ((tokenize text).map Token.start).Nodup :=
  List.pairwise_map.mpr ((pairwise_start_lt text).imp Nat.ne_of_lt)

theorem nodup_tokenize (text : String) : (tokenize text).Nodup :=
  (nodup_start text).of_map

theorem start_injective {text : String} {first second : Token} (hfirst : first ∈ tokenize text)
    (hsecond : second ∈ tokenize text) (h : first.start = second.start) : first = second :=
  List.inj_on_of_nodup_map (nodup_start text) hfirst hsecond h

/-- The tokens of a text are the only ones whose lexemes, each of the shape of its kind
and as long as can be, give the text by turns with gaps, and each token covers its text. -/
theorem tokenize_only_reading (text : String) :
    (∀ tokens, Lexes 0 text.toList tokens ↔ tokens = tokenize text) ∧
      ∀ token ∈ tokenize text, token.kind ≠ .whitespace ∧ 1 ≤ token.length ∧
        excerpt text token.start token.length = token.text := by
  have hlexes := lexes_tokenize text
  constructor
  · intro tokens
    constructor
    · exact Lexes.eq_tokenize
    · rintro rfl
      exact hlexes
  · intro token hmem
    obtain ⟨before, lexeme, after, hsplit, hshape, htext, hstart⟩ := hlexes.exists_lexeme hmem
    refine ⟨?_, hlexes.length_pos hmem, ?_⟩
    · intro hkind
      simp [hkind, HasShape] at hshape
    · rw [excerpt, hsplit, Token.length, htext, String.length_ofList, hstart, Nat.zero_add,
        List.drop_left, List.take_left]

end CurriedLambda
