import CurriedLambda.Proofs.Concatenation
import CurriedLambda.Proofs.Recovery

/-!
The tokens that recoveries swallow, and the problems that list them. A recovery that meets
a fitting token has swallowed all before it, from the token at which it began. The problem that
it reports lists just these, and no other problem lists any. A recovery that meets none gives
up and swallows nothing.
-/
namespace CurriedLambda

/-- The tokens that the problem lists as skipped. -/
def Problem.swallowed : Problem → List Token
  | unexpected _ _ skipped => skipped
  | _ => []

theorem Problem.swallowed_eq_nil {problem : Problem} (h : problem.code ≠ .unexpectedToken) :
    problem.swallowed = [] := by
  cases problem with
  | unexpected => exact absurd rfl h
  | _ => rfl

namespace Checker

/-- Since `passed` no token has fitted, and the first that is no layout was not optional. -/
structure Pending (passed early : List Token) : Prop where
  skipped_eq : (after passed).skipped = []
  refuses : ∀ token ∈ early, (after passed).expected.accepts token.kind = false
  absorb_eq : ∀ found ∈ (significant early).head?, (after passed).absorb found = none

/-- A recovery that begins when so many problems have been found swallows these tokens: all
but the layout before the first token that fits. -/
inductive Swallows (tokens : List Token) (index : Nat) : List Token → Prop
  | upTo {passed early later : List Token} {target : Token}
      (htokens : tokens = passed ++ early ++ target :: later)
      (hindex : (initial.feedAll passed).2.length = index) (hpending : Pending passed early)
      (hearly : significant early ≠ [])
      (haccepts : (after passed).expected.accepts target.kind = true) :
      Swallows tokens index (significant early)

/-- A recovery that begins when so many problems have been found swallows these tokens, or
there are none and no such recovery swallows any. -/
def SwallowedAt (tokens : List Token) (index : Nat) (swallowed : List Token) : Prop :=
  Swallows tokens index swallowed ∨ swallowed = [] ∧ ∀ run, ¬ Swallows tokens index run

section Swallowing

variable {tokens passed early swallowed : List Token} {index : Nat} {problem : Problem}

theorem Pending.of_skipped_eq_nil (h : (after passed).skipped = []) : Pending passed [] :=
  ⟨h, nofun, nofun⟩

/-- While no token fits, tokens are kept and nothing is reported. -/
theorem Pending.feedAll_eq (h : Pending passed early) :
    initial.feedAll (passed ++ early) =
      ({ after passed with skipped := significant early }, (initial.feedAll passed).2) := by
  have hread : (after passed).feedAll early =
      ({ after passed with skipped := significant early }, []) := by
    cases hfound : (significant early).head? with
    | none =>
      rw [← feedAll_significant, List.head?_eq_none_iff.mp hfound, feedAll_nil]
      exact congrArg (·, []) (eq_of_skipped_eq_nil h.skipped_eq)
    | some found =>
      rw [feedAll_eq_meetAll hfound (h.absorb_eq found hfound),
        meetAll_of_refuses h.skipped_eq h.refuses]
  rw [after] at hread
  rw [feedAll_append, hread, List.append_nil]
  rfl

theorem Pending.append_layout (h : Pending passed early) {token : Token}
    (hlayout : token.kind.isLayout = true) : Pending passed (early ++ [token]) := by
  refine ⟨h.skipped_eq, fun other hother => ?_, ?_⟩
  · rcases List.mem_append.mp hother with hold | hnew
    · exact h.refuses other hold
    · rw [List.mem_singleton.mp hnew, Bool.eq_false_iff]
      intro haccepts
      rw [isLayout_of_accepts haccepts] at hlayout
      cases hlayout
  · rw [significant_append, significant_cons_layout hlayout]
    simpa [significant] using h.absorb_eq

theorem Pending.append_skipped (h : Pending passed early) {token : Token}
    (hlayout : token.kind.isLayout = false)
    (habsorb : significant early = [] → (after passed).absorb token = none)
    (hrefuses : (after passed).expected.accepts token.kind = false) :
    Pending passed (early ++ [token]) := by
  refine ⟨h.skipped_eq, fun other hother => ?_, ?_⟩
  · rcases List.mem_append.mp hother with hold | hnew
    · exact h.refuses other hold
    · rwa [List.mem_singleton.mp hnew]
  · rw [significant_append, significant_cons hlayout]
    intro found hfound
    cases hearly : significant early with
    | nil =>
      rw [hearly] at hfound
      rw [← Option.some.inj hfound]
      exact habsorb hearly
    | cons first more =>
      rw [hearly] at hfound
      exact h.absorb_eq found (by rwa [hearly])

/-- At every point of a check there is such a last part of the tokens read so far. -/
theorem exists_pending (tokens : List Token) :
    ∃ passed early, tokens = passed ++ early ∧ Pending passed early := by
  induction tokens using List.reverseRecOn with
  | nil => exact ⟨[], [], rfl, .of_skipped_eq_nil rfl⟩
  | append_singleton tokens token ih =>
    obtain ⟨passed, early, htokens, hpending⟩ := ih
    have hafter : after tokens = { after passed with skipped := significant early } := by
      rw [htokens, after, hpending.feedAll_eq]
    have hfresh (hskipped : ((after tokens).feed token).1.skipped = []) :
        ∃ passed early, tokens ++ [token] = passed ++ early ∧ Pending passed early := by
      rw [← after_concat] at hskipped
      exact ⟨tokens ++ [token], [], (List.append_nil _).symm, .of_skipped_eq_nil hskipped⟩
    have hsplit : tokens ++ [token] = passed ++ (early ++ [token]) := by
      rw [htokens, List.append_assoc]
    have hstep := step_feed (after tokens) token
    generalize (after tokens).feed token = result at hstep hfresh
    cases hstep with
    | layout hlayout => exact ⟨passed, early ++ [token], hsplit, hpending.append_layout hlayout⟩
    | absorbs hskipped habsorb =>
      exact hfresh ((absorbs_of_absorb habsorb).skipped_eq.trans hskipped)
    | takes => exact hfresh ((takes_take _ token).skipped_eq_nil rfl)
    | skips hlayout habsorb hrefuses =>
      rw [hafter] at habsorb hrefuses
      have hfirst : significant early = [] → (after passed).absorb token = none := by
        intro hnone
        have habsorb := habsorb hnone
        rwa [hnone, ← eq_of_skipped_eq_nil hpending.skipped_eq] at habsorb
      exact ⟨passed, early ++ [token], hsplit, hpending.append_skipped hlayout hfirst hrefuses⟩

theorem Swallows.ne_nil (h : Swallows tokens index swallowed) : swallowed ≠ [] := by
  cases h with
  | upTo _ _ _ hearly => exact hearly

theorem Swallows.append (h : Swallows tokens index swallowed) (more : List Token) :
    Swallows (tokens ++ more) index swallowed := by
  cases h with
  | @upTo passed early later target htokens hindex hpending hearly haccepts =>
    have hsplit : tokens ++ more = passed ++ early ++ target :: (later ++ more) := by
      rw [htokens, List.append_assoc, List.cons_append]
    exact .upTo hsplit hindex hpending hearly haccepts

/-- A token makes a check list the tokens kept so far, and does so first of all, or it makes it
list none. -/
theorem swallowed_feed (checker : Checker) (token : Token) :
    (∀ problem ∈ (checker.feed token).2, problem.swallowed = []) ∨
      checker.expected.accepts token.kind = true ∧ checker.skipped ≠ [] ∧
        ∃ report others, (checker.feed token).2 = report :: others ∧
          report.swallowed = checker.skipped ∧ ∀ problem ∈ others, problem.swallowed = [] := by
  have hstep := step_feed checker token
  generalize checker.feed token = result at hstep
  cases hstep with
  | layout => exact .inl nofun
  | skips => exact .inl nofun
  | absorbs hskipped habsorb =>
    exact .inl fun problem hproblem =>
      Problem.swallowed_eq_nil ((absorbs_of_absorb habsorb).code_ne problem hproblem).1
  | takes habsorb haccepts =>
    have hothers : ∀ problem ∈ (checker.brackets.skip checker.skipped).2 ++
        (checker.resumed.take token).2, problem.swallowed = [] := by
      intro problem hproblem
      rcases List.mem_append.mp hproblem with hskip | htaken
      · obtain ⟨bracket, -, -, rfl⟩ := Brackets.mem_skip hskip
        rfl
      · exact Problem.swallowed_eq_nil ((takes_take _ token).code_ne problem htaken).1
    rw [List.append_assoc]
    rcases hskipped : checker.skipped with _ | ⟨found, more⟩
    · rw [skipping, hskipped, List.nil_append]
      exact .inl (hskipped ▸ hothers)
    · refine .inr ⟨haccepts, List.cons_ne_nil _ _,
        .unexpected checker.expected found (found :: more), _, ?_, rfl, hskipped ▸ hothers⟩
      rw [skipping, hskipped]
      rfl

theorem swallowed_finish (checker : Checker) (last : Option Token) :
    ∀ problem ∈ checker.finish last, problem.swallowed = [] := by
  intro problem hproblem
  rw [finish] at hproblem
  split at hproblem
  · rcases List.mem_cons.mp hproblem with rfl | hskip
    · rfl
    · obtain ⟨bracket, -, -, rfl⟩ := Brackets.mem_skip hskip
      rfl
  · split at hproblem
    · cases hproblem
    · rw [List.mem_singleton.mp hproblem]
      rfl

/-- What a recovery swallows is listed by the problem that it reports. -/
theorem Swallows.exists_problem (h : Swallows tokens index swallowed) :
    ∃ problem, (problems tokens)[index]? = some problem ∧ problem.swallowed = swallowed := by
  cases h with
  | @upTo passed early later target htokens hindex hpending hearly haccepts =>
    obtain ⟨found, more, hfound⟩ := List.exists_cons_of_ne_nil hearly
    have hmeet : { after passed with skipped := significant early }.feed target = _ :=
      (feed_eq_meet (isLayout_of_accepts haccepts) fun hnone => absurd hnone hearly).trans
        (meet_of_accepts haccepts hfound)
    rw [htokens, problems_append_eq, after, hpending.feedAll_eq, problemsFrom, hmeet,
      List.getElem?_append_right (Nat.le_of_eq hindex), hindex, Nat.sub_self]
    exact ⟨_, rfl, rfl⟩

/-- What a problem lists is what the recovery has swallowed that reports it. -/
theorem swallows_of_feedAll (hproblem : (initial.feedAll tokens).2[index]? = some problem)
    (hlists : problem.swallowed ≠ []) : Swallows tokens index problem.swallowed := by
  induction tokens using List.reverseRecOn with
  | nil => cases hproblem
  | append_singleton tokens token ih =>
    have hproblems : (initial.feedAll (tokens ++ [token])).2 =
        (initial.feedAll tokens).2 ++ ((after tokens).feed token).2 := by
      rw [feedAll_append, feedAll_cons, feedAll_nil, List.append_nil]
      rfl
    rw [hproblems, List.getElem?_append] at hproblem
    split at hproblem
    · exact (ih hproblem).append [token]
    · next hlater =>
      rcases swallowed_feed (after tokens) token with hnone | ⟨haccepts, hkept, report, others,
        hreports, hreport, hothers⟩
      · exact absurd (hnone problem (List.mem_of_getElem? hproblem)) hlists
      · rw [hreports, List.getElem?_cons] at hproblem
        split at hproblem
        · next hfirst =>
          obtain rfl := Option.some.inj hproblem
          obtain ⟨passed, early, htokens, hpending⟩ := exists_pending tokens
          have hafter : after tokens = { after passed with skipped := significant early } := by
            rw [htokens, after, hpending.feedAll_eq]
          have hindex : (initial.feedAll passed).2.length = index := by
            have hquiet : (initial.feedAll tokens).2 = (initial.feedAll passed).2 := by
              rw [htokens, hpending.feedAll_eq]
            rw [← hquiet]
            omega
          rw [hafter] at haccepts hkept hreport
          rw [hreport, htokens]
          exact .upTo rfl hindex hpending hkept haccepts
        · exact absurd (hothers problem (List.mem_of_getElem? hproblem)) hlists

/-- Each problem lists what the recovery swallows that reports it, if there is one. -/
theorem swallowedAt_of_getElem? (hproblem : (problems tokens)[index]? = some problem) :
    SwallowedAt tokens index problem.swallowed := by
  by_cases hlists : problem.swallowed = []
  · refine .inr ⟨hlists, fun run hrun => ?_⟩
    obtain ⟨other, hother, hrun'⟩ := hrun.exists_problem
    obtain rfl := Option.some.inj (hproblem.symm.trans hother)
    exact hrun.ne_nil (hrun'.symm.trans hlists)
  · refine .inl (swallows_of_feedAll ?_ hlists)
    have hsplit : problems tokens = (initial.feedAll tokens).2 ++ (after tokens).finish _ := rfl
    rw [hsplit, List.getElem?_append] at hproblem
    split at hproblem
    · exact hproblem
    · exact absurd (swallowed_finish _ _ problem (List.mem_of_getElem? hproblem)) hlists

end Swallowing

end Checker

end CurriedLambda
