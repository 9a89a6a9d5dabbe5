import CurriedLambda.Proofs.Acceptance

/-!
The first fault of syntax. It stands exactly where the tokens stop being the start of a
program: at the first token that no program goes on with, or, if every token fits but
the program is not complete, at the end.
-/
namespace CurriedLambda

open Grammar

/-- The first diagnostic that is about syntax. -/
def firstFault (tokens : List Token) : Option Diagnostic :=
  (diagnose tokens).find? (·.code.isSyntax)

theorem find?_append_of_namesOnly {found : List Problem} (hfound : NamesOnly found)
    (others : List Problem) :
    ((found ++ others).map Problem.toDiagnostic).find? (·.code.isSyntax) =
      (others.map Problem.toDiagnostic).find? (·.code.isSyntax) := by
  have hnone : (found.map Problem.toDiagnostic).find? (·.code.isSyntax) = none := by
    rw [List.find?_eq_none]
    intro diagnostic hmem
    obtain ⟨problem, hproblem, rfl⟩ := List.mem_map.mp hmem
    simpa [Problem.toDiagnostic] using hfound problem hproblem
  rw [List.map_append, List.find?_append, hnone, Option.none_or]

theorem firstFault_of_problem {tokens : List Token} {found others : List Problem}
    {problem : Problem} (hfound : NamesOnly found) (hcause : problem.code.isSyntax)
    (heq : problems tokens = found ++ problem :: others) :
    firstFault tokens = some problem.toDiagnostic := by
  have hcode : problem.toDiagnostic.code.isSyntax := hcause
  rw [firstFault, diagnose, heq, find?_append_of_namesOnly hfound, List.map_cons]
  simp [hcode]

/-- No program goes on with a refused token. -/
theorem not_isViable_of_refuses {before : List Token} {token : Token}
    (hrefuses : (Checker.initial.feedAll before).1.Refuses token) :
    ¬ IsViable (before ++ [token]) := by
  rintro ⟨continuation, items, hitems⟩
  have hnames := namesOnly_nameProblems items
  obtain ⟨problem, others, heq, hcause, -⟩ := hrefuses.problemsFrom none continuation
  rw [← problemsFrom_items none, ← hitems, List.append_assoc, List.singleton_append,
    Checker.problemsFrom_append, heq] at hnames
  exact not_namesOnly_of_fault hcause hnames

/-- Either the tokens are a program, or they are the start of one and end too early, or
the first fault of syntax is at a token with which no program goes on. -/
theorem firstFault_cases (tokens : List Token) :
    firstFault tokens = none ∧ IsProgram (significant tokens) ∨
      (∃ fault, firstFault tokens = some fault ∧ fault.code = .unexpectedEnd ∧
        IsViable (significant tokens) ∧ ¬ IsProgram (significant tokens)) ∨
      ∃ fault before token after, firstFault tokens = some fault ∧
        fault.code ≠ .unexpectedEnd ∧ fault.span.start = token.start ∧
        significant tokens = before ++ token :: after ∧
        IsViable before ∧ ¬ IsViable (before ++ [token]) := by
  have hproblems := problems_eq_problemsFrom tokens
  generalize (tokens.filter (·.kind ≠ .whitespace)).getLast? = last at hproblems
  have hlayout : ∀ token ∈ significant tokens, token.kind.isLayout = false :=
    fun _ => isLayout_of_mem_significant
  obtain ⟨found, hfound, ⟨heq, hprogram⟩ | ⟨expected, heq, hviable⟩ |
    ⟨before, token, after, problem, others, hsplit, heq, hcause, hcode, hstart, hviable,
      hrefuses⟩⟩ := Checker.problemsFrom_cases last hlayout
  · left
    refine ⟨?_, hprogram⟩
    have hnone := find?_append_of_namesOnly hfound []
    rw [List.append_nil] at hnone
    rw [firstFault, diagnose, hproblems, heq, hnone]
    rfl
  · right
    left
    refine ⟨_, firstFault_of_problem hfound rfl (hproblems.trans heq), rfl, hviable, ?_⟩
    rw [isProgram_iff_namesOnly last hlayout, heq]
    exact not_namesOnly_of_fault rfl
  · right
    right
    exact ⟨_, before, token, after, firstFault_of_problem hfound hcause (hproblems.trans heq),
      hcode, hstart, hsplit, hviable, not_isViable_of_refuses hrefuses⟩

/-- There is a fault of syntax unless the tokens are a program. The tokens end too early
if and only if they are the start of a program and not one, and any other first fault is
at the first token that no program goes on with. -/
theorem firstFault_viable_prefix (tokens : List Token) :
    (firstFault tokens = none ↔ IsProgram (significant tokens)) ∧
      ((∃ fault, firstFault tokens = some fault ∧ fault.code = .unexpectedEnd) ↔
        IsViable (significant tokens) ∧ ¬ IsProgram (significant tokens)) ∧
      ∀ fault, firstFault tokens = some fault → fault.code ≠ .unexpectedEnd →
        ∃ before token after, significant tokens = before ++ token :: after ∧
          IsViable before ∧ ¬ IsViable (before ++ [token]) ∧
          fault.span.start = token.start := by
  rcases firstFault_cases tokens with ⟨hnone, hprogram⟩ |
    ⟨fault, hfault, hcode, hviable, hprogram⟩ |
    ⟨fault, before, token, after, hfault, hcode, hstart, hsplit, hviable, hstuck⟩
  · simp [hnone, hprogram]
  · simp [hfault, hcode, hviable, hprogram]
  · have hnever : ¬ IsViable (significant tokens) := by
      rintro ⟨continuation, hprogram⟩
      exact hstuck ⟨after ++ continuation, by simpa [hsplit] using hprogram⟩
    refine ⟨?_, ?_, ?_⟩
    · simp [hfault, mt IsProgram.viable hnever]
    · simp [hfault, hcode, hnever]
    · intro other hother _
      obtain rfl := Option.some.inj (hfault.symm.trans hother)
      exact ⟨before, token, after, hsplit, hviable, hstuck, hstart⟩

end CurriedLambda
