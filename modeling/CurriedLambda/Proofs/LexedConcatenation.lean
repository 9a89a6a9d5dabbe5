import CurriedLambda.Proofs.Lexing

/-!
Lexing one text after another. The tokens of both are those of each, the second ones moved
by the length of the first text, unless a lexeme runs on over the seam: one that reaches
the end of the first text and would go on with the first character of the second.
-/
namespace CurriedLambda

open Lexeme

/-- The token where `count` more characters stand before it. -/
def Token.shift (count : Nat) (token : Token) : Token :=
  { token with start := token.start + count }

/-- The last lexeme of the first text reaches its end and goes on with the second. -/
def RunsOn (first second : String) : Prop :=
  ∃ token c, (tokenize first).getLast? = some token ∧ token.stop = first.length ∧
    second.toList.head? = some c ∧ GoesOn token.kind c

namespace Lexes

variable {position : Nat} {gap chars first second : List Char} {tokens others : List Token}

theorem shift (h : Lexes position chars tokens) (count : Nat) :
    Lexes (position + count) chars (tokens.map (Token.shift count)) := by
  induction h with
  | done hgap => exact .done hgap
  | @token position gap lexeme rest kind tokens hgap hshape hmaximal htokens ih =>
    have hstart : position + gap.length + count = position + count + gap.length := by omega
    have hnext : position + gap.length + lexeme.length + count =
        position + count + gap.length + lexeme.length := by omega
    rw [hnext] at ih
    rw [List.map_cons, Token.shift, hstart]
    exact .token hgap hshape hmaximal ih

theorem gap_append (hgap : ∀ c ∈ gap, IsSpace c)
    (h : Lexes (position + gap.length) chars tokens) : Lexes position (gap ++ chars) tokens := by
  have hboth {more : List Char} (hmore : ∀ c ∈ more, IsSpace c) :
      ∀ c ∈ gap ++ more, IsSpace c := by
    intro c hc
    exact (List.mem_append.mp hc).elim (hgap c) (hmore c)
  cases h with
  | done hmore => exact .done (hboth hmore)
  | @token _ more lexeme rest kind later hmore hshape hmaximal htokens =>
    have hlength : position + gap.length + more.length = position + (gap ++ more).length := by
      rw [List.length_append]
      omega
    rw [hlength] at htokens ⊢
    rw [← List.append_assoc]
    exact .token (hboth hmore) hshape hmaximal htokens

theorem eq_nil (h : Lexes position [] tokens) : tokens = [] := by
  by_contra hne
  obtain ⟨token, hmem⟩ := List.exists_mem_of_ne_nil tokens hne
  obtain ⟨before, lexeme, after, hsplit, hshape, -⟩ := h.exists_lexeme hmem
  have hempty := (List.append_eq_nil_iff.mp hsplit.symm).2
  exact ne_nil_of_hasShape hshape (List.append_eq_nil_iff.mp hempty).1

/-- Readings are put together where no lexeme runs on over the seam. -/
theorem append (h : Lexes position first tokens)
    (hseam : ∀ token, tokens.getLast? = some token →
      token.stop = position + first.length → IsMaximal token.kind second)
    (hsecond : Lexes (position + first.length) second others) :
    Lexes position (first ++ second) (tokens ++ others) := by
  induction h with
  | done hgap => exact hsecond.gap_append hgap
  | @token position gap lexeme rest kind tokens hgap hshape hmaximal htokens ih =>
    have hlength : position + (gap ++ (lexeme ++ rest)).length =
        position + gap.length + lexeme.length + rest.length := by
      simp only [List.length_append]
      omega
    rw [hlength] at hseam hsecond
    rw [List.append_assoc, List.append_assoc]
    refine .token hgap hshape ?_ (ih ?_ hsecond)
    · cases rest with
      | nil =>
        -- Nothing is left to read, so this is the token at the seam.
        rw [htokens.eq_nil] at hseam
        apply hseam _ rfl
        simp [Token.stop, Token.length]
      | cons c rest => exact isMaximal_cons.mpr (isMaximal_cons.mp hmaximal)
    · intro token hlast
      apply hseam token
      rw [List.getLast?_cons, hlast, Option.getD_some]

end Lexes

/-- The tokens of two texts put together are those of both, the second ones moved, exactly if
no lexeme runs on from the first text into the second. -/
theorem tokenize_append_iff (first second : String) :
    tokenize (first ++ second) =
        tokenize first ++ (tokenize second).map (Token.shift first.length) ↔
      ¬ RunsOn first second := by
  have hchars : (first ++ second).toList = first.toList ++ second.toList := String.toList_append
  have hfirst := lexes_tokenize first
  constructor
  · rintro heq ⟨token, c, hlast, hstop, hhead, hgoes⟩
    have hmem : token ∈ tokenize first := List.mem_of_getLast? hlast
    have hboth := lexes_tokenize (first ++ second)
    rw [heq, hchars] at hboth
    obtain ⟨before, lexeme, after, hsplit, -, hmaximal, htext, hstart⟩ :=
      hboth.exists_maximal_lexeme (List.mem_append_left _ hmem)
    -- What follows the token is the second text, with which it would go on.
    have hlength : first.toList.length = (before ++ lexeme).length := by
      rw [Token.stop, Token.length, htext, String.length_ofList, hstart] at hstop
      rw [List.length_append, String.length_toList]
      omega
    rw [← List.append_assoc] at hsplit
    obtain ⟨-, rfl⟩ := List.append_inj hsplit hlength
    exact hmaximal c hhead hgoes
  · intro hapart
    have hsecond := (lexes_tokenize second).shift first.length
    have hseam : ∀ token, (tokenize first).getLast? = some token →
        token.stop = 0 + first.toList.length → IsMaximal token.kind second.toList := by
      intro token hlast hstop c hhead hgoes
      rw [Nat.zero_add, String.length_toList] at hstop
      exact hapart ⟨token, c, hlast, hstop, hhead, hgoes⟩
    have hboth := hfirst.append hseam (by rwa [String.length_toList])
    rw [← hchars] at hboth
    exact hboth.eq_tokenize.symm

/-- A star is a sign where it starts a lexeme, but it ends no identifier. -/
example : RunsOn "x" "*y" :=
  ⟨⟨.identifier, "x", 0⟩, '*', by decide +kernel, rfl, rfl, by simp [GoesOn, IsStop]⟩

end CurriedLambda
