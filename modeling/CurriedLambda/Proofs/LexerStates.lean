import CurriedLambda.Proofs.Lexemes
import Mathlib.Data.String.Basic

/-!
The states of a lexer. Its two counters agree with the characters that it has passed:
one is their number and the other the number of their bytes, so that cutting the text by
bytes between two states gives just the characters in between. A step passes a gap and
then a lexeme, or a gap up to the end of the text.
-/
namespace CurriedLambda

theorem utf8Length_append (first second : List Char) :
    utf8Length (first ++ second) = utf8Length first + utf8Length second := by
  induction first with
  | nil => simp [utf8Length]
  | cons c rest ih => simp [utf8Length, ih, Nat.add_assoc]

theorem utf8Length_eq_utf8Len (chars : List Char) : utf8Length chars = String.utf8Len chars := by
  induction chars with
  | nil => rfl
  | cons c rest ih => rw [utf8Length, ih, String.utf8Len_cons, Nat.add_comm]

/-- Cutting a text by bytes after some of its characters gives the next ones. -/
theorem extract_between {text : String} {passed lexeme rest : List Char}
    (htext : text.toList = passed ++ (lexeme ++ rest)) :
    String.Pos.Raw.extract text ⟨utf8Length passed⟩ ⟨utf8Length (passed ++ lexeme)⟩ =
      String.ofList lexeme := by
  have hsplit : text = String.ofList (passed ++ lexeme ++ rest) := by
    rw [List.append_assoc, ← htext, String.ofList_toList]
  rw [utf8Length_append, utf8Length_eq_utf8Len, utf8Length_eq_utf8Len, hsplit]
  exact String.extract_of_valid passed lexeme rest

namespace Lexer

/-- The lexer has passed just these characters of its text. -/
structure HasPassed (lexer : Lexer) (passed : List Char) : Prop where
  toList_eq : lexer.text.toList = passed ++ lexer.rest
  position_eq : lexer.position = passed.length
  offset_eq : lexer.offset = utf8Length passed

theorem hasPassed_ofText (text : String) : (ofText text).HasPassed [] :=
  ⟨rfl, rfl, rfl⟩

theorem HasPassed.advance {lexer : Lexer} {passed : List Char} (h : lexer.HasPassed passed)
    {taken rest : List Char} (hrest : lexer.rest = taken ++ rest) :
    (lexer.advance taken.length).HasPassed (passed ++ taken) ∧
      (lexer.advance taken.length).rest = rest := by
  have hafter : (lexer.advance taken.length).rest = rest := by
    simp [Lexer.advance, hrest]
  refine ⟨⟨?_, ?_, ?_⟩, hafter⟩
  · rw [hafter, List.append_assoc, ← hrest]
    exact h.toList_eq
  · simp [Lexer.advance, hrest, h.position_eq]
  · simp [Lexer.advance, hrest, h.offset_eq, utf8Length_append]

theorem HasPassed.textUntil {lexer after : Lexer} {passed lexeme : List Char}
    (h : lexer.HasPassed passed) (hafter : after.HasPassed (passed ++ lexeme))
    (htext : after.text = lexer.text) :
    lexer.textUntil after = String.ofList lexeme := by
  have hsplit : lexer.text.toList = passed ++ (lexeme ++ after.rest) := by
    rw [← htext, hafter.toList_eq, List.append_assoc]
  rw [Lexer.textUntil, h.offset_eq, hafter.offset_eq]
  exact extract_between hsplit

theorem HasPassed.skipGap {lexer : Lexer} {passed gap rest : List Char}
    (h : lexer.HasPassed passed) (hrest : lexer.rest = gap ++ rest)
    (hgap : ∀ c ∈ gap, Lexeme.IsSpace c) (hhead : ∀ c ∈ rest.head?, ¬ Lexeme.IsSpace c) :
    lexer.skipGap.HasPassed (passed ++ gap) ∧ lexer.skipGap.rest = rest := by
  have hrun : lexer.rest.takeWhile isGap = gap := by
    rw [hrest]
    refine (Lexeme.takeWhile_append_of_head (fun c hc => ?_) fun c hc => ?_).1
    · exact (Lexeme.isGap_iff c).mpr (hgap c hc)
    · exact Bool.eq_false_iff.mpr (mt (Lexeme.isGap_iff c).mp (hhead c hc))
  rw [Lexer.skipGap, hrun]
  exact h.advance hrest

/-- At the end there is no token, and nothing is left to read. -/
theorem HasPassed.next_of_gap {lexer : Lexer} {passed : List Char} (h : lexer.HasPassed passed)
    (hgap : ∀ c ∈ lexer.rest, Lexeme.IsSpace c) :
    lexer.next = (none, lexer.skipGap) ∧ lexer.skipGap.rest = [] := by
  have hsplit : lexer.rest = lexer.rest ++ [] := (List.append_nil _).symm
  have hrest := (h.skipGap hsplit hgap (by simp)).2
  refine ⟨?_, hrest⟩
  simp only [Lexer.next, hrest]

/-- A step passes a gap and a lexeme, and gives the token that stands there. -/
theorem HasPassed.next_of_lexeme {lexer : Lexer} {passed gap lexeme rest : List Char}
    {kind : Kind} (h : lexer.HasPassed passed) (hrest : lexer.rest = gap ++ (lexeme ++ rest))
    (hgap : ∀ c ∈ gap, Lexeme.IsSpace c) (hshape : Lexeme.HasShape kind lexeme)
    (hmaximal : Lexeme.IsMaximal kind rest) :
    ∃ after, lexer.next =
        (some ⟨kind, String.ofList lexeme, passed.length + gap.length⟩, after) ∧
      after.text = lexer.text ∧ after.HasPassed (passed ++ gap ++ lexeme) ∧
      after.rest = rest := by
  obtain ⟨c, tail, rfl⟩ := List.exists_cons_of_ne_nil (Lexeme.ne_nil_of_hasShape hshape)
  obtain ⟨hskipped, hskippedRest⟩ := h.skipGap hrest hgap
    (by simpa using Lexeme.not_isSpace_of_hasShape hshape)
  obtain ⟨hafter, hafterRest⟩ := hskipped.advance hskippedRest
  have htail := Lexeme.lexemeTail_of_hasShape hshape hmaximal
  refine ⟨lexer.skipGap.advance (c :: tail).length, ?_, rfl, hafter, hafterRest⟩
  have htext := hskipped.textUntil hafter rfl
  simp only [Lexer.next, hskippedRest, List.cons_append, htail]
  rw [← htext, hskipped.position_eq, List.length_append]
  rfl

theorem toList_of_none {lexer after : Lexer} (h : lexer.next = (none, after)) :
    lexer.toList = [] := by
  rw [toList]
  split
  · rfl
  · rename_i heq
    simp [h] at heq

theorem toList_of_some {lexer after : Lexer} {token : Token}
    (h : lexer.next = (some token, after)) : lexer.toList = token :: after.toList := by
  rw [toList]
  split
  · rename_i heq
    simp [h] at heq
  · rename_i heq
    rw [h] at heq
    obtain ⟨htoken, rfl⟩ := Prod.mk.inj heq
    rw [Option.some.inj htoken]

end Lexer

end CurriedLambda
