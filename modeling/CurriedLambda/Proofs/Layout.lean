import Mathlib.Data.List.Forall2
import CurriedLambda.Proofs.Reading

/-!
Layout does not matter. White space and line breaks may stand anywhere, in skipped tokens
too, and change nothing that a check reports, except that tokens which end too early are
reported at the last of them, be it a line break.
-/
namespace CurriedLambda

/-- The same problem, but for where the tokens end. -/
inductive Problem.AlikeUpToEnd (last others : Option Token) : Problem → Problem → Prop
  | same {problem : Problem} (hcode : problem.code ≠ .unexpectedEnd) :
      AlikeUpToEnd last others problem problem
  | ended (expected : Expected) :
      AlikeUpToEnd last others (.exhausted expected last) (.exhausted expected others)

namespace Checker

theorem finish_alike (last others : Option Token) (checker : Checker) :
    List.Forall₂ (Problem.AlikeUpToEnd last others) (checker.finish last)
      (checker.finish others) := by
  unfold finish
  split
  · refine .cons (.same nofun) (List.forall₂_same.mpr fun problem hproblem => .same ?_)
    obtain ⟨bracket, -, -, rfl⟩ := Brackets.mem_skip hproblem
    exact nofun
  · split_ifs
    · exact .nil
    · exact .cons (.ended _) .nil

/-- Where the tokens end shows only in the report that they end too early. -/
theorem problemsFrom_alike (last others : Option Token) (checker : Checker)
    (tokens : List Token) :
    List.Forall₂ (Problem.AlikeUpToEnd last others) (checker.problemsFrom last tokens)
      (checker.problemsFrom others tokens) := by
  induction tokens generalizing checker with
  | nil => exact finish_alike last others checker
  | cons token rest ih =>
    have hfed := code_ne_unexpectedEnd_feed checker token
    exact List.rel_append (List.forall₂_same.mpr fun problem hproblem =>
      .same (hfed problem hproblem)) (ih _)

end Checker

theorem significant_filter (tokens : List Token) :
    (significant tokens).filter (·.kind ≠ .whitespace) = significant tokens := by
  refine List.filter_eq_self.mpr fun token hmem => decide_eq_true fun hkind => ?_
  have hlayout := isLayout_of_mem_significant hmem
  simp [hkind, Kind.isLayout] at hlayout

/-- A check of the tokens without layout has the same diagnostics in the same order. Only
the end of the tokens is reported at the last of those that are checked, white space apart. -/
theorem diagnose_significant (tokens : List Token) :
    List.Forall₂
      (fun diagnostic other => diagnostic.code = other.code ∧
        diagnostic.message = other.message ∧
        (diagnostic.code ≠ .unexpectedEnd → diagnostic.span = other.span) ∧
        (diagnostic.code = .unexpectedEnd →
          ∃ last ∈ (tokens.filter (·.kind ≠ .whitespace)).getLast?,
            ∃ lastSignificant ∈ (significant tokens).getLast?,
              diagnostic.span = last.span ∧ other.span = lastSignificant.span))
      (diagnose tokens) (diagnose (significant tokens)) := by
  rw [diagnose, diagnose, problems_eq_problemsFrom, problems_eq_problemsFrom, significant_filter,
    Checker.problemsFrom_significant _ _ (significant tokens), List.forall₂_map_left_iff,
    List.forall₂_map_right_iff]
  by_cases hnil : significant tokens = []
  · rw [hnil]
    exact .nil
  · obtain ⟨token, htoken⟩ := List.exists_mem_of_ne_nil _ hnil
    have hlayout := isLayout_of_mem_significant htoken
    have hmem : token ∈ tokens.filter (·.kind ≠ .whitespace) := by
      refine List.mem_filter.mpr ⟨(List.mem_filter.mp htoken).1, decide_eq_true fun hkind => ?_⟩
      simp [hkind, Kind.isLayout] at hlayout
    rw [List.getLast?_eq_some_getLast hnil,
      List.getLast?_eq_some_getLast (List.ne_nil_of_mem hmem)]
    refine (Checker.problemsFrom_alike _ _ _ _).imp fun problem other halike => ?_
    cases halike with
    | same hcode => exact ⟨rfl, rfl, fun _ => rfl, fun h => absurd h hcode⟩
    | ended expected =>
      exact ⟨rfl, rfl, fun h => absurd rfl h, fun _ => ⟨_, rfl, _, rfl, rfl, rfl⟩⟩

end CurriedLambda
