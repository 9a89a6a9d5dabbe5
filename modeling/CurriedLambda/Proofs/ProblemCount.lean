import CurriedLambda.Proofs.DescentReading

/-!
How long a check goes on and how much it reports. Each significant token pays for one problem
and each closing bracket for one more. A problem that comes later than its token is paid in
advance: a parameter for being unused, the bracket of an expression for the end of the tokens,
a skipped token for the recovery and a skipped closing bracket for finding no partner.
-/
namespace CurriedLambda

/-- The number of problems that tokens pay for. -/
def allowance (tokens : List Token) : Nat :=
  (significant tokens).length + (tokens.filter (·.kind = .closeBracket)).length

theorem allowance_append (first second : List Token) :
    allowance (first ++ second) = allowance first + allowance second := by
  simp only [allowance, significant_append, List.filter_append, List.length_append]
  omega

theorem allowance_pos {token : Token} (h : token.kind.isLayout = false) :
    0 < allowance [token] := by
  simp [allowance, significant_cons h]

theorem allowance_closeBracket {token : Token} (h : token.kind = .closeBracket) :
    allowance [token] = 2 := by
  simp [allowance, significant, h, Kind.isLayout]

theorem Brackets.length_close_le (brackets : Brackets) (token : Token) :
    (brackets.close token).2.length ≤ 1 := by
  unfold close
  split <;> simp

theorem Brackets.length_skip_le (brackets : Brackets) (tokens : List Token) :
    (brackets.skip tokens).2.length ≤ (tokens.filter (·.kind = .closeBracket)).length := by
  obtain ⟨closing, hsublist, hproblems⟩ := brackets.exists_skip_eq tokens
  rw [hproblems, List.length_map]
  exact hsublist.length_le

namespace Checker

variable {checker : Checker} {token : Token} {result : Checker × List Problem}

/-- The number of problems that are paid for and not reported yet. -/
def reserve (checker : Checker) : Nat :=
  checker.parameters.length + (if checker.phase = .item then 0 else 1) +
    (checker.skipped.length + (checker.skipped.filter (·.kind = .closeBracket)).length)

theorem length_skipping_le (checker : Checker) :
    checker.skipping.length ≤ checker.skipped.length := by
  unfold skipping
  split <;> simp [*]

theorem reserve_of_skipped_eq_nil (h : checker.skipped = []) :
    checker.reserve = checker.parameters.length + if checker.phase = .item then 0 else 1 := by
  simp [reserve, h]

/-- A misplaced closing bracket is the only token that is reported twice. -/
theorem Absorbs.length_le (h : checker.Absorbs token result)
    (hlayout : token.kind.isLayout = false) :
    result.2.length + result.1.reserve ≤ checker.reserve + allowance [token] := by
  have hpos := allowance_pos hlayout
  have hclose := checker.brackets.length_close_le token
  cases h with
  | separator | sign => simp_all [reserve]
  | outerClose | endGroup => simp only [reserve]; omega
  | misplaced _ hkind =>
    rw [allowance_closeBracket hkind]
    exact Nat.le_of_eq (Nat.add_comm ..)
  | group hphase =>
    have hitem : checker.phase ≠ .item := by rcases hphase with h | h <;> simp [h]
    simp [reserve, hitem]

theorem Takes.length_le (h : checker.Takes token result) (hskipped : checker.skipped = [])
    (hlayout : token.kind.isLayout = false) :
    result.2.length + result.1.reserve ≤ checker.reserve + allowance [token] := by
  have hpos := allowance_pos hlayout
  have hclose := checker.brackets.length_close_le token
  rw [reserve_of_skipped_eq_nil hskipped, reserve_of_skipped_eq_nil (h.skipped_eq_nil hskipped)]
  cases h with
  | opening hphase =>
    simp only [hphase, List.length_nil, if_true]
    split <;> omega
  | parameter hphase =>
    simp only [hphase, List.length_append, List.length_singleton, List.length_nil]
    omega
  | name hphase =>
    have hitem : checker.phase ≠ .item := by rcases hphase with h | h <;> simp [h]
    have hproblem : (if names checker.parameters token.text then []
        else [Problem.unknownName token]).length ≤ 1 := by
      split <;> simp
    simp only [hitem, reduceCtorEq, if_false]
    omega
  | endBody hphase =>
    have harguments := Phase.arguments_ne_item checker.parameters.length
    simp only [hphase, harguments, reduceCtorEq, if_false]
    omega
  | terminator hphase =>
    have hunused : checker.unused.length ≤ checker.parameters.length := List.length_filter_le ..
    simp only [hphase, List.length_map, between, List.length_nil, reduceCtorEq, if_true, if_false]
    omega
  | leadsOn hphase hnext =>
    simp only [hphase, hnext, if_false, List.length_nil]
    omega

theorem length_feed_le (checker : Checker) (token : Token) :
    (checker.feed token).2.length + (checker.feed token).1.reserve ≤
      checker.reserve + allowance [token] := by
  have hstep := step_feed checker token
  generalize checker.feed token = result at hstep
  cases hstep with
  | layout => simp
  | absorbs hskipped habsorb =>
    exact (absorbs_of_absorb habsorb).length_le (isLayout_of_absorb habsorb)
  | takes habsorb haccepts =>
    have htake := (takes_take checker.resumed token).length_le rfl (isLayout_of_accepts haccepts)
    have hskipping := checker.length_skipping_le
    have hskip := checker.brackets.length_skip_le checker.skipped
    have hresumed : checker.resumed.reserve =
        checker.parameters.length + if checker.phase = .item then 0 else 1 :=
      reserve_of_skipped_eq_nil rfl
    rw [hresumed] at htake
    simp only [List.length_append, reserve] at htake ⊢
    omega
  | skips hlayout =>
    have hallowance : allowance [token] = 1 + ([token].filter (·.kind = .closeBracket)).length := by
      rw [allowance, significant_cons hlayout]
      rfl
    rw [hallowance]
    simp only [reserve, List.filter_append, List.length_append, List.length_nil,
      List.length_singleton]
    omega

theorem length_finish_le (checker : Checker) (last : Option Token) :
    (checker.finish last).length ≤ checker.reserve := by
  have hskip := checker.brackets.length_skip_le checker.skipped
  unfold finish reserve
  split
  next found more hskipped =>
    rw [hskipped] at hskip ⊢
    simp only [List.length_cons] at hskip ⊢
    omega
  next =>
    split
    · exact Nat.zero_le _
    · rw [List.length_singleton]
      omega

theorem length_problemsFrom_le (last : Option Token) (checker : Checker) (tokens : List Token) :
    (checker.problemsFrom last tokens).length ≤ checker.reserve + allowance tokens := by
  induction tokens generalizing checker with
  | nil => exact (checker.length_finish_le last).trans (Nat.le_add_right ..)
  | cons token rest ih =>
    have hfeed := checker.length_feed_le token
    have hrest := ih (checker.feed token).1
    rw [problemsFrom, List.length_append, ← List.singleton_append, allowance_append]
    omega

end Checker

theorem length_diagnose_le (tokens : List Token) :
    (diagnose tokens).length ≤
      (significant tokens).length + (tokens.filter (·.kind = .closeBracket)).length := by
  have hreserve : Checker.initial.reserve = 0 := rfl
  rw [diagnose, List.length_map, problems_eq_problemsFrom, Checker.problemsFrom_significant]
  exact (Checker.length_problemsFrom_le ..).trans (by rw [hreserve, Nat.zero_add, allowance])

namespace Descent

/-- Descent into any tokens ends. All the way the cursor moves forward and inside the tokens,
every turn of the loops over items, parameters and operations moves it or is the last one, and
the problems found, which are those of a check, are at most as many as the significant tokens
and the closing brackets together. -/
theorem program_terminates (tokens : List Token) :
    ∃ final, program (ofTokens tokens) = .ok () final ∧
      final.tokens = tokens.filter (·.kind ≠ .whitespace) ∧
      (final.cursor :: final.trail).Pairwise (· ≥ ·) ∧
      (∀ place ∈ final.cursor :: final.trail, place ≤ final.tokens.length) ∧
      (∀ turn ∈ [itemTurn, parameterTurn, operationTurn], ∀ descent next,
        turn.run descent = .ok .again next →
          descent.cursor < next.cursor ∧ next.cursor ≤ next.tokens.length) ∧
      final.found.map Problem.toDiagnostic = diagnose tokens ∧
      (diagnose tokens).length ≤
        (significant tokens).length + (tokens.filter (·.kind = .closeBracket)).length := by
  obtain ⟨final, hrun, hfound⟩ := program_finds tokens
  have hfollows := forward_program (ofTokens tokens) (ofTokens tokens) (.refl _)
  rw [hrun] at hfollows
  have hsorted := hfollows.trail_sorted (List.pairwise_singleton ..)
  have hinside := hfollows.inside (Nat.zero_le _)
  refine ⟨final, hrun, hfollows.tokens_eq, hsorted, ?_, ?_, by rw [hfound, diagnose],
    length_diagnose_le tokens⟩
  · intro place hplace
    rcases List.mem_cons.mp hplace with rfl | hearlier
    · exact hinside
    · exact ((List.pairwise_cons.mp hsorted).1 place hearlier).trans hinside
  · intro turn _ descent next hturn
    have hpasses := Turn.passes_of_again hturn
    exact ⟨hpasses.cursor_lt, hpasses.cursor_le_length⟩

end Descent

end CurriedLambda
