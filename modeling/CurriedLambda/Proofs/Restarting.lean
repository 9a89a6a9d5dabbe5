import CurriedLambda.Proofs.LexedConcatenation
import CurriedLambda.Proofs.Lookahead

/-!
Lexing taken up again. However often the next token has been asked for, a lexer and its
scanner stand somewhere in the text. What they hold depends on that place alone, and the
tokens still to come are those of the rest of the text, moved to where it starts.
-/
namespace CurriedLambda

namespace Lexer

/-- The lexer after so many calls for the next token. -/
def after (lexer : Lexer) : Nat → Lexer
  | 0 => lexer
  | count + 1 => lexer.next.2.after count

variable {lexer : Lexer} {passed : List Char}

theorem text_next (lexer : Lexer) : lexer.next.2.text = lexer.text := by
  unfold next
  dsimp only
  split <;> rfl

/-- A call passes a gap and a lexeme and gives the token that stands there, or it passes all
that is left and gives none. -/
theorem HasPassed.next_cases (h : lexer.HasPassed passed) :
    (lexer.next.1 = none ∧ lexer.next.2.rest = [] ∧
        lexer.next.2.HasPassed (passed ++ lexer.rest)) ∨
      ∃ gap lexeme kind, lexeme ≠ [] ∧
        lexer.next.1 = some ⟨kind, String.ofList lexeme, (passed ++ gap).length⟩ ∧
        lexer.next.2.HasPassed (passed ++ gap ++ lexeme) := by
  have hsplit := (List.takeWhile_append_dropWhile (p := isGap) (l := lexer.rest)).symm
  obtain ⟨hskipped, hrest⟩ := h.advance hsplit
  unfold Lexer.next Lexer.skipGap
  generalize lexer.rest.takeWhile isGap = gap at hsplit hskipped hrest
  generalize lexer.advance gap.length = skipped at hskipped hrest
  dsimp only
  cases hmore : skipped.rest with
  | nil =>
    rw [← hrest, hmore, List.append_nil] at hsplit
    exact .inl ⟨rfl, hmore, hsplit ▸ hskipped⟩
  | cons c rest =>
    have hafter := hskipped.advance_take ((lexemeTail c rest).2.length + 1)
    have htext := hskipped.textUntil hafter rfl
    refine .inr ⟨gap, _, (lexemeTail c rest).1, ?_, ?_, hafter⟩
    · simp [hmore]
    · rw [← htext, hskipped.position_eq]

theorem HasPassed.exists_next (h : lexer.HasPassed passed) :
    ∃ more, lexer.next.2.HasPassed more := by
  rcases h.next_cases with ⟨-, -, hnext⟩ | ⟨_, _, _, -, -, hnext⟩ <;> exact ⟨_, hnext⟩

theorem HasPassed.exists_after (h : lexer.HasPassed passed) (count : Nat) :
    ∃ more, (lexer.after count).HasPassed more := by
  induction count generalizing lexer passed with
  | zero => exact ⟨passed, h⟩
  | succ count ih =>
    obtain ⟨more, hnext⟩ := h.exists_next
    exact ih hnext

theorem text_after (lexer : Lexer) (count : Nat) : (lexer.after count).text = lexer.text := by
  induction count generalizing lexer with
  | zero => rfl
  | succ count ih => exact (ih _).trans lexer.text_next

theorem HasPassed.toList_of_nil (h : lexer.HasPassed passed) (hrest : lexer.rest = []) :
    lexer.toList = [] :=
  toList_of_none (h.next_of_gap (by simp [hrest])).1

/-- What a later call gives is what stands there among the tokens still to come. -/
theorem HasPassed.next_after (h : lexer.HasPassed passed) (calls : Nat) :
    (lexer.after calls).next.1 = lexer.toList[calls]? := by
  induction calls generalizing lexer passed with
  | zero =>
    rw [Lexer.after]
    cases hnext : lexer.next with
    | mk answer after =>
      cases answer with
      | none => rw [toList_of_none hnext, List.getElem?_nil]
      | some token => rw [toList_of_some hnext, List.getElem?_cons_zero]
  | succ calls ih =>
    obtain ⟨more, hmore⟩ := h.exists_next
    rw [Lexer.after, ih hmore]
    rcases h.next_cases with ⟨hnone, hrest, -⟩ | ⟨_, _, _, -, hsome, -⟩
    · -- All characters have been passed, so no later call gives a token either.
      rw [hmore.toList_of_nil hrest, toList_of_none (Prod.ext hnone rfl), List.getElem?_nil,
        List.getElem?_nil]
    · rw [toList_of_some (Prod.ext hsome rfl), List.getElem?_cons_succ]

/-- The tokens still to come are those of the rest of the text. -/
theorem HasPassed.toList_eq_shift (h : lexer.HasPassed passed) :
    lexer.toList =
      (tokenize (String.ofList lexer.rest)).map (Token.shift lexer.position) := by
  have hlexes := (lexes_tokenize (String.ofList lexer.rest)).shift lexer.position
  rw [Nat.zero_add, String.toList_ofList] at hlexes
  exact hlexes.toList_eq h h.position_eq.symm rfl

end Lexer

namespace Scanner

/-- The scanner after so many calls for the next token. -/
def after (scanner : Scanner) : Nat → Except BadSlice Scanner
  | 0 => .ok scanner
  | count + 1 => do
    let (_, later) ← scanner.next
    later.after count

/-- What the next call gives after so many others. -/
def answer (scanner : Scanner) (calls : Nat) : Except BadSlice (Option Token) := do
  let later ← scanner.after calls
  let (token, _) ← later.next
  return token

/-- What a scanner holds where it stands in a text. The lookahead is the character there, if
there is one, with the number of bytes before it, and just what follows is still to come. -/
structure StandsIn (scanner : Scanner) (text : String) : Prop where
  text_eq : scanner.text = text
  position_le : scanner.position ≤ text.length
  lookahead_eq : scanner.lookahead = text.toList[scanner.position]?.map fun c =>
    (utf8Length (text.toList.take scanner.position), c)
  chars_eq : scanner.upcoming.chars = text.toList.drop (scanner.position + 1)
  offset_eq : scanner.upcoming.offset = utf8Length (text.toList.take (scanner.position + 1))

end Scanner

namespace Lexer

variable {lexer : Lexer} {passed : List Char}

theorem HasPassed.standsIn (h : lexer.HasPassed passed) :
    lexer.scanner.StandsIn lexer.text := by
  have hposition : lexer.scanner.position = passed.length := h.position_eq
  have htake : lexer.text.toList.take passed.length = passed := by
    rw [h.toList_eq, List.take_left]
  have hle : passed.length ≤ lexer.text.length := by
    rw [← String.length_toList, h.toList_eq, List.length_append]
    exact Nat.le_add_right ..
  cases hrest : lexer.rest with
  | nil =>
    have hall : lexer.text.toList = passed := by rw [h.toList_eq, hrest, List.append_nil]
    refine ⟨rfl, hposition ▸ hle, ?_, ?_, ?_⟩
    · rw [lookahead_scanner_of_nil hrest, hposition, hall, List.getElem?_eq_none le_rfl]
      rfl
    · rw [hposition, hall, List.drop_eq_nil_of_le (Nat.le_succ _)]
      simp [scanner, Upcoming.next, hrest]
    · rw [hposition, hall, List.take_of_length_le (Nat.le_succ _), ← h.offset_eq]
      simp [scanner, Upcoming.next, hrest]
  | cons c rest =>
    have hall : lexer.text.toList = passed ++ c :: rest := by rw [h.toList_eq, hrest]
    have hnext : lexer.text.toList = (passed ++ [c]) ++ rest := by simp [hall]
    have hlength : passed.length + 1 = (passed ++ [c]).length := by simp
    refine ⟨rfl, hposition ▸ hle, ?_, ?_, ?_⟩
    · rw [lookahead_scanner_of_cons hrest, hposition, htake, hall, h.offset_eq]
      simp
    · rw [hposition, hlength, hnext, List.drop_left]
      simp [scanner, Upcoming.next, hrest]
    · rw [hposition, hlength, hnext, List.take_left, utf8Length_append, ← h.offset_eq]
      simp [scanner, Upcoming.next, hrest, utf8Length]

/-- Past two letters of two bytes each: two characters, but four bytes. -/
example : ((ofText "éé x").after 2).scanner.lookahead = some (4, ' ') := by decide +kernel

theorem HasPassed.after_scanner (h : lexer.HasPassed passed) (count : Nat) :
    lexer.scanner.after count = .ok (lexer.after count).scanner := by
  induction count generalizing lexer passed with
  | zero => rfl
  | succ count ih =>
    obtain ⟨more, hnext⟩ := h.exists_next
    rw [Scanner.after, h.next_scanner]
    exact ih hnext

theorem HasPassed.answer_scanner (h : lexer.HasPassed passed) (calls : Nat) :
    lexer.scanner.answer calls = .ok lexer.toList[calls]? := by
  obtain ⟨more, hafter⟩ := h.exists_after calls
  rw [Scanner.answer, h.after_scanner, ← h.next_after]
  change (lexer.after calls).scanner.next.bind _ = _
  rw [hafter.next_scanner]
  rfl

/-- A call that gives a token moves on to the end of the token and cuts it out of the text. -/
theorem HasPassed.token_of_next (h : lexer.HasPassed passed) {token : Token}
    (htoken : lexer.next.1 = some token) :
    lexer.position ≤ token.start ∧ lexer.position < lexer.next.2.position ∧
      lexer.next.2.position = token.stop ∧
      slice lexer.text (utf8Length (lexer.text.toList.take token.start))
        (utf8Length (lexer.text.toList.take token.stop)) = .ok token.text := by
  rcases h.next_cases with ⟨hnone, -⟩ | ⟨gap, lexeme, kind, hne, hsome, hnext⟩
  · simp [hnone] at htoken
  · obtain rfl := Option.some.inj (hsome.symm.trans htoken)
    have hlength : 0 < lexeme.length := List.length_pos_iff.mpr hne
    have hposition := hnext.position_eq
    have hstop : Token.stop ⟨kind, String.ofList lexeme, (passed ++ gap).length⟩ =
        (passed ++ gap ++ lexeme).length := by
      rw [Token.stop, Token.length, String.length_ofList, ← List.length_append]
    have hsplit := hnext.toList_eq
    rw [text_next] at hsplit
    have hbefore : lexer.text.toList.take (passed ++ gap).length = passed ++ gap := by
      rw [hsplit, List.append_assoc, List.take_left]
    have hthrough : lexer.text.toList.take (passed ++ gap ++ lexeme).length =
        passed ++ gap ++ lexeme := by rw [hsplit, List.take_left]
    refine ⟨?_, ?_, hposition.trans hstop.symm, ?_⟩
    · rw [h.position_eq, List.length_append]
      exact Nat.le_add_right ..
    · rw [hposition, h.position_eq, List.length_append, List.length_append]
      omega
    · rw [hstop, hbefore, hthrough]
      exact slice_between (by rw [hsplit, List.append_assoc])

/-- After a call that gives no token none ever comes. -/
theorem HasPassed.answer_of_next (h : lexer.HasPassed passed) (hnone : lexer.next.1 = none)
    (calls : Nat) : lexer.next.2.scanner.answer calls = .ok none := by
  rcases h.next_cases with ⟨-, hrest, hnext⟩ | ⟨_, _, _, -, hsome, -⟩
  · rw [hnext.answer_scanner, hnext.toList_of_nil hrest, List.getElem?_nil]
  · simp [hnone] at hsome

end Lexer

namespace Scanner

/-- However often the next token has been asked for, a scanner holds what belongs to its place
in the text, just where the lexer stands. The next call gives a token, which moves the place
to where that token ends and is cut out between characters, or it gives none, and so do all
later calls. What is still to come are the tokens of the rest of the text, moved. -/
theorem standsIn_after (text : String) (count : Nat) :
    ∃ scanner, (ofText text).after count = .ok scanner ∧
      scanner = ((Lexer.ofText text).after count).scanner ∧ scanner.StandsIn text ∧
      (∃ answer later, scanner.next = .ok (answer, later) ∧
        (∀ token, answer = some token →
          scanner.position ≤ token.start ∧ scanner.position < later.position ∧
          later.position = token.stop ∧
          slice text (utf8Length (text.toList.take token.start))
            (utf8Length (text.toList.take token.stop)) = .ok token.text) ∧
        (answer = none → ∀ calls, later.answer calls = .ok none)) ∧
      ((Lexer.ofText text).after count).toList =
        (tokenize (String.ofList (text.toList.drop scanner.position))).map
          (Token.shift scanner.position) ∧
      ∀ calls,
        scanner.answer calls = .ok ((Lexer.ofText text).after count).toList[calls]? := by
  have hstart := Lexer.hasPassed_ofText text
  obtain ⟨passed, h⟩ := hstart.exists_after count
  have htext := (Lexer.ofText text).text_after count
  have hafter := hstart.after_scanner count
  rw [Lexer.scanner_ofText] at hafter
  generalize (Lexer.ofText text).after count = lexer at h htext hafter
  obtain rfl : lexer.text = text := htext
  have hrest : lexer.text.toList.drop lexer.position = lexer.rest := by
    rw [h.position_eq, h.toList_eq, List.drop_left]
  refine ⟨lexer.scanner, hafter, rfl, h.standsIn,
    ⟨_, _, h.next_scanner, fun _ => h.token_of_next, h.answer_of_next⟩, ?_, h.answer_scanner⟩
  rw [h.toList_eq_shift, ← hrest]
  rfl

end Scanner

end CurriedLambda
