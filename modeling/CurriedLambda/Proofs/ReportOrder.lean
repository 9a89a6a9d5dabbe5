import CurriedLambda.Proofs.Anchors

/-!
The order of the diagnostics. A check reports as it goes along: what it keeps stands in
the text before what it has still to read, so that no later problem starts before an
earlier one. Only the unused parameters come late, when their expression has ended.
-/
namespace CurriedLambda

namespace Problem

/-- What one problem has to do with those that are reported after it. -/
structure Precedes (problem later : Problem) : Prop where
  start_le : problem.span.start ≤ later.span.start ∨
    later.code = .unusedParameter ∧ problem.code ≠ .unusedParameter
  start_lt : problem.code = .unusedParameter → later.code = .unusedParameter →
    problem.span.start < later.span.start
  stop_le : problem.code = .unexpectedToken → later.code = .unexpectedToken →
    problem.span.stop ≤ later.span.start
  code_ne : problem.code ≠ .unexpectedEnd

/-- The problem is about the text from the start of one of the tokens to the end of one. -/
def LiesIn (tokens : List Token) (problem : Problem) : Prop :=
  (∃ token ∈ tokens, problem.span.start = token.start) ∧
    ∃ token ∈ tokens, problem.span.stop = token.stop

/-- What a check reports once these tokens are read or skipped: one of the parameters, or
something about the tokens. -/
inductive ReportedAt (parameters tokens : List Token) : Problem → Prop
  | unused {parameter : Token} (hmem : parameter ∈ parameters) :
      ReportedAt parameters tokens (.unusedParameter parameter)
  | located {problem : Problem} (hunused : problem.code ≠ .unusedParameter)
      (hend : problem.code ≠ .unexpectedEnd) (h : problem.LiesIn tokens) :
      ReportedAt parameters tokens problem

variable {problem later : Problem} {parameters tokens more others : List Token}

theorem precedes_of_stop_le (hend : problem.code ≠ .unexpectedEnd)
    (h : problem.span.stop ≤ later.span.start) : problem.Precedes later := by
  have hpos := problem.span.length_pos
  have hstop : problem.span.stop = problem.span.start + problem.span.length := rfl
  exact ⟨.inl (by omega), fun _ _ => by omega, fun _ _ => h, hend⟩

theorem precedes_unusedParameter (hunused : problem.code ≠ .unusedParameter)
    (hend : problem.code ≠ .unexpectedEnd) (parameter : Token) :
    problem.Precedes (.unusedParameter parameter) :=
  ⟨.inr ⟨rfl, hunused⟩, fun h => absurd h hunused, nofun, hend⟩

theorem precedes_of_start_le (hend : problem.code ≠ .unexpectedEnd)
    (hunused : later.code ≠ .unusedParameter) (hunexpected : later.code ≠ .unexpectedToken)
    (h : problem.span.start ≤ later.span.start) : problem.Precedes later :=
  ⟨.inl h, fun _ hlater => absurd hlater hunused, fun _ hlater => absurd hlater hunexpected, hend⟩

theorem LiesIn.mono (h : problem.LiesIn tokens) (hsubset : tokens ⊆ more) :
    problem.LiesIn more :=
  ⟨h.1.imp fun _ htoken => ⟨hsubset htoken.1, htoken.2⟩,
    h.2.imp fun _ htoken => ⟨hsubset htoken.1, htoken.2⟩⟩

theorem liesIn_of_span (h : InOrder tokens) {token : Token} (hmem : token ∈ tokens)
    (hspan : problem.span = token.span) : problem.LiesIn tokens :=
  ⟨⟨token, hmem, by rw [hspan]; rfl⟩, token, hmem, by rw [hspan, h.span_stop hmem]⟩

/-- A recovery that no token ends is about the first token only. -/
theorem span_unexpected_nil (expected : Expected) (found : Token) :
    (unexpected expected found []).span = found.span := by
  simp [span, Token.span, Span.between, Token.stop]

theorem ReportedAt.mono (h : problem.ReportedAt parameters tokens)
    (hparameters : parameters ⊆ others) (htokens : tokens ⊆ more) :
    problem.ReportedAt others more := by
  cases h with
  | unused hmem => exact .unused (hparameters hmem)
  | located hunused hend h => exact .located hunused hend (h.mono htokens)

theorem ReportedAt.exists_start (h : problem.ReportedAt parameters tokens) :
    ∃ token ∈ parameters ++ tokens, problem.span.start = token.start := by
  cases h with
  | unused hmem => exact ⟨_, List.mem_append_left _ hmem, rfl⟩
  | located _ _ h => exact h.1.imp fun _ htoken => ⟨List.mem_append_right _ htoken.1, htoken.2⟩

theorem ReportedAt.code_ne (h : problem.ReportedAt parameters tokens) :
    problem.code ≠ .unexpectedEnd := by
  cases h with
  | unused => exact nofun
  | located _ hend => exact hend

/-- What is about tokens precedes what is about later ones, and any unused parameter. -/
theorem LiesIn.precedes (h : problem.LiesIn tokens) (hunused : problem.code ≠ .unusedParameter)
    (hend : problem.code ≠ .unexpectedEnd) (hlater : later.ReportedAt parameters more)
    (horder : InOrder (tokens ++ more)) : problem.Precedes later := by
  cases hlater with
  | unused => exact precedes_unusedParameter hunused hend _
  | located _ _ hlies =>
    obtain ⟨-, last, hlast, hstop⟩ := h
    obtain ⟨⟨first, hfirst, hstart⟩, -⟩ := hlies
    have hle := horder.stop_le_start hlast hfirst
    exact precedes_of_stop_le hend (by omega)

end Problem

namespace Brackets

variable {tokens : List Token}

theorem pairwise_close (brackets : Brackets) (bracket : Token) :
    (brackets.close bracket).2.Pairwise Problem.Precedes := by
  unfold close
  split
  · exact List.pairwise_singleton _ _
  · exact .nil

theorem pairwise_skip (brackets : Brackets) (h : InOrder tokens) :
    (brackets.skip tokens).2.Pairwise Problem.Precedes := by
  obtain ⟨closing, hsublist, hproblems⟩ := exists_skip_eq brackets tokens
  rw [hproblems, List.pairwise_map]
  refine (h.sublist (hsublist.trans List.filter_sublist)).pairwise.imp fun {first second} hle => ?_
  have hstart : first.start ≤ second.start := (Nat.le_add_right _ _).trans hle
  exact Problem.precedes_of_start_le nofun nofun nofun hstart

end Brackets

namespace Checker

variable {checker : Checker} {token : Token} {tokens rest : List Token}
  {result : Checker × List Problem}

/-- A token that is kept is kept as a parameter or as a skipped one. -/
theorem kept_feed (checker : Checker) (token : Token) :
    (checker.feed token).1.parameters = checker.parameters ∧
        (checker.feed token).1.skipped.Sublist (checker.skipped ++ [token]) ∨
      (checker.feed token).1.parameters.Sublist (checker.parameters ++ [token]) ∧
        (checker.feed token).1.skipped = [] := by
  have hstep := step_feed checker token
  generalize checker.feed token = result at hstep
  cases hstep with
  | layout => exact .inl ⟨rfl, List.sublist_append_left _ _⟩
  | absorbs hskipped habsorb =>
    refine .inl ?_
    cases absorbs_of_absorb habsorb <;> exact ⟨rfl, List.sublist_append_left _ _⟩
  | takes =>
    have htakes := takes_take checker.resumed token
    refine .inr ⟨?_, htakes.skipped_eq_nil rfl⟩
    generalize checker.resumed.take token = taken at htakes
    cases htakes with
    | opening | terminator => exact List.nil_sublist _
    | parameter => exact List.Sublist.refl _
    | name | endBody | leadsOn => exact List.sublist_append_left _ _
  | skips => exact .inl ⟨rfl, List.Sublist.refl _⟩

theorem kept_feed_sublist (checker : Checker) (token : Token) (rest : List Token) :
    ((checker.feed token).1.parameters ++ rest).Sublist (checker.parameters ++ token :: rest) ∧
      ((checker.feed token).1.skipped ++ rest).Sublist (checker.skipped ++ token :: rest) := by
  have hrest : rest.Sublist (token :: rest) := List.sublist_cons_self token rest
  rcases kept_feed checker token with ⟨hparameters, hskipped⟩ | ⟨hparameters, hskipped⟩
  · rw [hparameters]
    exact ⟨hrest.append_left _, by simpa using hskipped.append_right rest⟩
  · rw [hskipped]
    exact ⟨by simpa using hparameters.append_right rest,
      hrest.trans (List.sublist_append_right _ _)⟩

theorem Absorbs.reportedAt (h : checker.Absorbs token result) (horder : InOrder tokens)
    (hmem : token ∈ tokens) :
    ∀ problem ∈ result.2, problem.ReportedAt checker.parameters tokens := by
  intro problem hproblem
  rcases h.eq_of_mem hproblem with rfl | rfl <;>
    exact .located nofun nofun (Problem.liesIn_of_span horder hmem rfl)

theorem Takes.reportedAt (h : checker.Takes token result) (horder : InOrder tokens)
    (hmem : token ∈ tokens) :
    ∀ problem ∈ result.2, problem.ReportedAt checker.parameters tokens := by
  intro problem hproblem
  rcases h.eq_of_mem hproblem with rfl | rfl | ⟨parameter, hunused, rfl, -⟩
  · exact .located nofun nofun (Problem.liesIn_of_span horder hmem rfl)
  · exact .located nofun nofun (Problem.liesIn_of_span horder hmem rfl)
  · exact .unused (List.mem_filter.mp hunused).1

/-- A recovery is about the tokens that it skips. -/
theorem liesIn_of_mem_skipping {problem : Problem} (horder : InOrder checker.skipped)
    (h : problem ∈ checker.skipping) : problem.LiesIn checker.skipped := by
  obtain ⟨found, more, hskipped, rfl⟩ := eq_of_mem_skipping h
  rw [hskipped] at horder ⊢
  have hmem : more.getLastD found ∈ found :: more := List.getLastD_mem_cons
  have hstart := horder.start_le hmem
  have hpos := horder.length_pos _ hmem
  refine ⟨⟨found, List.mem_cons_self, rfl⟩, more.getLastD found, hmem, ?_⟩
  change found.start + max (((found :: more).getLastD found).stop - found.start) 1 = _
  rw [List.getLastD_cons, Token.stop]
  omega

/-- What the tokens skipped so far report when a recovery ends. -/
theorem reportedAt_recovery {problem : Problem} (horder : InOrder checker.skipped)
    (h : problem ∈ checker.skipping ++ (checker.brackets.skip checker.skipped).2) :
    problem.code ≠ .unusedParameter ∧ problem.code ≠ .unexpectedEnd ∧
      problem.LiesIn checker.skipped := by
  rcases List.mem_append.mp h with hskipping | hskip
  · rw [code_skipping hskipping]
    exact ⟨nofun, nofun, liesIn_of_mem_skipping horder hskipping⟩
  · obtain ⟨bracket, hmem, -, rfl⟩ := Brackets.mem_skip hskip
    exact ⟨nofun, nofun, Problem.liesIn_of_span horder hmem rfl⟩

theorem reportedAt_feed (horder : InOrder (checker.skipped ++ [token])) :
    ∀ problem ∈ (checker.feed token).2,
      problem.ReportedAt checker.parameters (checker.skipped ++ [token]) := by
  intro problem hproblem
  have hmem : token ∈ checker.skipped ++ [token] := by simp
  have hstep := step_feed checker token
  generalize checker.feed token = result at hstep hproblem
  cases hstep with
  | layout => cases hproblem
  | skips => cases hproblem
  | absorbs hskipped habsorb =>
    exact (absorbs_of_absorb habsorb).reportedAt horder hmem problem hproblem
  | takes =>
    rcases List.mem_append.mp hproblem with hrecovery | htaken
    · have hsublist : checker.skipped.Sublist (checker.skipped ++ [token]) :=
        List.sublist_append_left _ _
      obtain ⟨hunused, hend, hlies⟩ := reportedAt_recovery (horder.sublist hsublist) hrecovery
      exact .located hunused hend (hlies.mono hsublist.subset)
    · exact (takes_take checker.resumed token).reportedAt horder hmem problem htaken

theorem Absorbs.pairwise (h : checker.Absorbs token result) :
    result.2.Pairwise Problem.Precedes := by
  cases h with
  | outerClose | endGroup => exact Brackets.pairwise_close _ _
  | misplaced =>
    exact List.pairwise_pair.mpr (Problem.precedes_of_start_le nofun nofun nofun (Nat.le_refl _))
  | _ => exact .nil

theorem Takes.pairwise (h : checker.Takes token result) (horder : InOrder checker.parameters) :
    result.2.Pairwise Problem.Precedes := by
  cases h with
  | name =>
    split
    · exact .nil
    · exact List.pairwise_singleton _ _
  | endBody => exact Brackets.pairwise_close _ _
  | terminator =>
    rw [List.pairwise_map]
    have hunused : InOrder checker.unused := horder.sublist List.filter_sublist
    refine hunused.pairwise.imp_of_mem fun {first second} hfirst _ hle => ?_
    exact Problem.precedes_of_stop_le nofun ((hunused.span_stop hfirst).trans_le hle)
  | _ => exact .nil

/-- A recovery is reported before the brackets that it skips. -/
theorem pairwise_recovery (horder : InOrder checker.skipped) :
    (checker.skipping ++ (checker.brackets.skip checker.skipped).2).Pairwise
      Problem.Precedes := by
  refine List.pairwise_append.mpr ⟨?_, Brackets.pairwise_skip _ horder, ?_⟩
  · unfold skipping
    split
    · exact .nil
    · exact List.pairwise_singleton _ _
  · intro problem hproblem later hlater
    obtain ⟨bracket, hmem, -, rfl⟩ := Brackets.mem_skip hlater
    obtain ⟨found, more, hskipped, rfl⟩ := eq_of_mem_skipping hproblem
    rw [hskipped] at horder hmem
    exact Problem.precedes_of_start_le nofun nofun nofun (horder.start_le hmem)

theorem pairwise_feed (horder : InOrder (checker.parameters ++ (checker.skipped ++ [token]))) :
    (checker.feed token).2.Pairwise Problem.Precedes := by
  have hread : InOrder (checker.skipped ++ [token]) :=
    horder.sublist (List.sublist_append_right _ _)
  have hstep := step_feed checker token
  generalize checker.feed token = result at hstep
  cases hstep with
  | layout => exact .nil
  | skips => exact .nil
  | absorbs hskipped habsorb => exact (absorbs_of_absorb habsorb).pairwise
  | takes =>
    have hskipped : InOrder checker.skipped := hread.sublist (List.sublist_append_left _ _)
    have htakes := takes_take checker.resumed token
    refine List.pairwise_append.mpr ⟨pairwise_recovery hskipped,
      htakes.pairwise (horder.sublist (List.sublist_append_left _ _)), ?_⟩
    intro problem hproblem later hlater
    obtain ⟨hunused, hend, hlies⟩ := reportedAt_recovery hskipped hproblem
    have hone : InOrder [token] := hread.sublist (List.sublist_append_right _ _)
    exact hlies.precedes hunused hend
      (htakes.reportedAt hone List.mem_cons_self later hlater) hread

/-- A recovery is over when something is reported. -/
theorem skipped_eq_nil_of_mem_feed {problem : Problem} (h : problem ∈ (checker.feed token).2) :
    (checker.feed token).1.skipped = [] := by
  have hstep := step_feed checker token
  generalize checker.feed token = result at hstep h
  cases hstep with
  | layout => cases h
  | skips => cases h
  | absorbs hskipped habsorb => rw [(absorbs_of_absorb habsorb).skipped_eq, hskipped]
  | takes => exact (takes_take checker.resumed token).skipped_eq_nil rfl

/-- No parameter is kept once one is reported as unused. -/
theorem parameters_eq_nil_of_mem_feed {parameter : Token}
    (h : .unusedParameter parameter ∈ (checker.feed token).2) :
    (checker.feed token).1.parameters = [] := by
  have hstep := step_feed checker token
  generalize checker.feed token = result at hstep h
  cases hstep with
  | layout => cases h
  | skips => cases h
  | absorbs _ habsorb => rcases (absorbs_of_absorb habsorb).eq_of_mem h with heq | heq <;> cases heq
  | takes =>
    rcases List.mem_append.mp h with hrecovery | htaken
    · rcases List.mem_append.mp hrecovery with hskipping | hskip
      · cases code_skipping hskipping
      · obtain ⟨bracket, -, -, heq⟩ := Brackets.mem_skip hskip
        cases heq
    · rcases (takes_take _ token).eq_of_mem htaken with heq | heq | ⟨-, -, -, hnil⟩
      · cases heq
      · cases heq
      · exact hnil

/-- What a state keeps comes before what has still to be read, and none of it starts
after the last token. -/
structure InOrderUpTo (last : Option Token) (checker : Checker) (rest : List Token) : Prop where
  inOrder : InOrder (checker.parameters ++ (checker.skipped ++ rest))
  start_le : ∀ other ∈ checker.parameters ++ (checker.skipped ++ rest),
    ∃ final, last = some final ∧ other.start ≤ final.start

variable {last : Option Token}

theorem InOrderUpTo.feed (h : InOrderUpTo last checker (token :: rest)) :
    InOrderUpTo last (checker.feed token).1 rest := by
  have hsublist : ((checker.feed token).1.parameters ++
      ((checker.feed token).1.skipped ++ rest)).Sublist
        (checker.parameters ++ (checker.skipped ++ token :: rest)) := by
    obtain ⟨hlong, hshort⟩ := kept_feed_sublist checker token rest
    rcases kept_feed checker token with ⟨hparameters, -⟩ | ⟨-, hskipped⟩
    · rw [hparameters]
      exact hshort.append_left _
    · rw [hskipped, List.nil_append]
      exact hlong.trans ((List.sublist_append_right _ _).append_left _)
  exact ⟨h.inOrder.sublist hsublist, fun other hother => h.start_le other (hsublist.subset hother)⟩

/-- The next token and what is kept. -/
theorem InOrderUpTo.kept (h : InOrderUpTo last checker (token :: rest)) :
    InOrder (checker.parameters ++ (checker.skipped ++ [token])) := by
  refine h.inOrder.sublist (List.Sublist.append_left ?_ _)
  exact (List.singleton_sublist.mpr List.mem_cons_self).append_left _

theorem InOrderUpTo.read (h : InOrderUpTo last checker (token :: rest)) :
    InOrder (checker.skipped ++ [token]) :=
  h.kept.sublist (List.sublist_append_right _ _)

theorem reportedAt_finish (last : Option Token) (parameters : List Token)
    (horder : InOrder checker.skipped) :
    ∀ problem ∈ checker.finish last, problem.ReportedAt parameters checker.skipped ∨
      ∃ expected, problem = .exhausted expected last := by
  intro problem hproblem
  unfold finish at hproblem
  split at hproblem
  · rename_i found more hskipped
    refine .inl ?_
    rcases List.mem_cons.mp hproblem with rfl | hskip
    · have hmem : found ∈ checker.skipped := by simp [hskipped]
      exact .located nofun nofun
        (Problem.liesIn_of_span horder hmem (Problem.span_unexpected_nil _ found))
    · obtain ⟨bracket, hmem, -, rfl⟩ := Brackets.mem_skip hskip
      exact .located nofun nofun (Problem.liesIn_of_span horder hmem rfl)
  · split at hproblem
    · cases hproblem
    · exact .inr ⟨_, List.mem_singleton.mp hproblem⟩

/-- What is reported from a state on is about what it keeps and what is still to be read,
or about the end of the tokens. -/
theorem InOrderUpTo.reportedAt (h : InOrderUpTo last checker rest) :
    ∀ problem ∈ checker.problemsFrom last rest,
      problem.ReportedAt (checker.parameters ++ rest) (checker.skipped ++ rest) ∨
        ∃ expected, problem = .exhausted expected last := by
  induction rest generalizing checker with
  | nil =>
    have hskipped := h.inOrder.sublist (List.sublist_append_right _ _)
    simp only [List.append_nil] at hskipped ⊢
    exact reportedAt_finish last checker.parameters hskipped
  | cons token rest ih =>
    intro problem hproblem
    rcases List.mem_append.mp hproblem with hfed | hlater
    · have hfirst : [token] ⊆ token :: rest := by simp
      refine .inl ((reportedAt_feed h.read problem hfed).mono (List.subset_append_left _ _) ?_)
      exact fun other hother => List.mem_append.mpr
        ((List.mem_append.mp hother).imp_right fun hmem => hfirst hmem)
    · obtain ⟨hparameters, hskipped⟩ := kept_feed_sublist checker token rest
      exact (ih h.feed problem hlater).imp_left fun hreported =>
        hreported.mono hparameters.subset hskipped.subset

/-- What a token causes comes before all that is reported later. -/
theorem InOrderUpTo.precedes {problem later : Problem}
    (h : InOrderUpTo last checker (token :: rest)) (hproblem : problem ∈ (checker.feed token).2)
    (hlater : later ∈ (checker.feed token).1.problemsFrom last rest) :
    problem.Precedes later := by
  have hreported := reportedAt_feed h.read problem hproblem
  rcases h.feed.reportedAt later hlater with hrest | ⟨expected, rfl⟩
  · rw [skipped_eq_nil_of_mem_feed hproblem, List.nil_append] at hrest
    cases hreported with
    | located hunused hend hlies =>
      refine hlies.precedes hunused hend hrest (h.inOrder.sublist ?_)
      simp
    | @unused parameter hmem =>
      -- nothing is kept any more, so what follows is about later tokens
      rw [parameters_eq_nil_of_mem_feed hproblem, List.nil_append] at hrest
      obtain ⟨first, hfirst, hstart⟩ := hrest.exists_start
      have hahead : first ∈ checker.skipped ++ token :: rest := by
        rcases List.mem_append.mp hfirst with hmem | hmem <;> simp [hmem]
      have hspan := h.inOrder.span_stop (List.mem_append_left _ hmem)
      refine Problem.precedes_of_stop_le nofun ?_
      rw [hstart]
      exact hspan.trans_le (h.inOrder.stop_le_start hmem hahead)
  · obtain ⟨first, hfirst, hstart⟩ := hreported.exists_start
    have hmem : first ∈ checker.parameters ++ (checker.skipped ++ token :: rest) := by
      simp only [List.mem_append, List.mem_cons, List.not_mem_nil, or_false] at hfirst ⊢
      tauto
    obtain ⟨final, rfl, hle⟩ := h.start_le first hmem
    refine Problem.precedes_of_start_le hreported.code_ne nofun nofun ?_
    rw [hstart]
    exact hle

theorem pairwise_finish (last : Option Token) (horder : InOrder checker.skipped) :
    (checker.finish last).Pairwise Problem.Precedes := by
  unfold finish
  split
  · rename_i found more hskipped
    refine List.pairwise_cons.mpr ⟨fun later hlater => ?_, Brackets.pairwise_skip _ horder⟩
    obtain ⟨bracket, hmem, -, rfl⟩ := Brackets.mem_skip hlater
    rw [hskipped] at horder hmem
    exact Problem.precedes_of_start_le nofun nofun nofun (horder.start_le hmem)
  · split
    · exact .nil
    · exact List.pairwise_singleton _ _

theorem InOrderUpTo.pairwise_problemsFrom (h : InOrderUpTo last checker rest) :
    (checker.problemsFrom last rest).Pairwise Problem.Precedes := by
  induction rest generalizing checker with
  | nil =>
    have hskipped := h.inOrder.sublist (List.sublist_append_right _ _)
    rw [List.append_nil] at hskipped
    exact pairwise_finish last hskipped
  | cons token rest ih =>
    exact List.pairwise_append.mpr ⟨pairwise_feed h.kept, ih h.feed,
      fun problem hproblem later hlater => h.precedes hproblem hlater⟩

theorem inOrderUpTo_initial {tokens : List Token} (h : InOrder tokens) :
    InOrderUpTo tokens.getLast? initial (significant tokens) := by
  have hsublist : (significant tokens).Sublist tokens := List.filter_sublist
  exact ⟨h.sublist hsublist, fun other hother => h.start_le_getLast (hsublist.subset hother)⟩

end Checker

theorem pairwise_problems (text : String) :
    (problems (tokenize text)).Pairwise Problem.Precedes := by
  rw [problems_eq_problemsFrom, filter_tokenize]
  exact (Checker.inOrderUpTo_initial (inOrder_tokenize text)).pairwise_problemsFrom

/-- The diagnostics of a text are in the order in which they start, but for unused
parameters, which may come late. The unused parameters are in order among themselves, the
ranges of skipped tokens do not overlap, and only the last diagnostic can be about the end. -/
theorem check_ordered (text : String) :
    (check text).Pairwise (fun diagnostic later =>
        diagnostic.span.start ≤ later.span.start ∨
          later.code = .unusedParameter ∧ diagnostic.code ≠ .unusedParameter) ∧
      ((check text).filter (·.code = .unusedParameter)).Pairwise (fun diagnostic later =>
        diagnostic.span.start < later.span.start) ∧
      ((check text).filter (·.code = .unexpectedToken)).Pairwise (fun diagnostic later =>
        diagnostic.span.stop ≤ later.span.start) ∧
      ∀ diagnostic ∈ (check text).dropLast, diagnostic.code ≠ .unexpectedEnd := by
  have horder := pairwise_problems text
  refine ⟨?_, ?_, ?_, ?_⟩
  · exact List.pairwise_map.mpr (horder.imp fun h => h.start_le)
  · refine List.pairwise_filter.mpr (List.pairwise_map.mpr (horder.imp fun h => ?_))
    exact fun hcode hlater => h.start_lt (of_decide_eq_true hcode) (of_decide_eq_true hlater)
  · refine List.pairwise_filter.mpr (List.pairwise_map.mpr (horder.imp fun h => ?_))
    exact fun hcode hlater => h.stop_le (of_decide_eq_true hcode) (of_decide_eq_true hlater)
  · intro diagnostic hmem
    rw [check, diagnose, ← List.map_dropLast] at hmem
    obtain ⟨problem, hproblem, rfl⟩ := List.mem_map.mp hmem
    obtain hnil | ⟨init, final, heq⟩ := List.eq_nil_or_concat' (problems (tokenize text))
    · simp [hnil] at hproblem
    · rw [heq, List.dropLast_concat] at hproblem
      rw [heq] at horder
      have hprecedes := (List.pairwise_append.mp horder).2.2 problem hproblem final
        List.mem_cons_self
      exact hprecedes.code_ne

-- the parameter stands before the name, but is found unused only at the end
example : (check "(\\x->y+1)1;").map (fun d => (d.code, d.span.start)) =
    [(.unknownName, 5), (.unusedParameter, 2)] := by decide +kernel

end CurriedLambda
