import CurriedLambda.Proofs.SkippedBrackets

/-!
Recovery as deletion. A check that skips tokens goes on as if they had not been there,
opening brackets included: they are filed below those of the expression, so that both
checks have the same brackets open in it. Only closing brackets can tell the two apart,
where they are skipped, where a recovery resumes at one, and between expressions.
-/
namespace CurriedLambda

/-- Whether the bracket of an expression is still to be closed. -/
def Phase.isOpen : Phase → Bool
  | item | argument .. | terminator => false
  | lambda | parameter | arrow | operand _ | group _ | operator _ => true

theorem Phase.isOpen_arguments (count : Nat) : (Phase.arguments count).isOpen = false := by
  cases count <;> rfl

namespace Brackets

variable {brackets : Brackets} {bracket : Token}

theorem above_push (h : brackets.above ≠ []) :
    (brackets.push bracket).above = bracket :: brackets.above := by
  rw [ne_eq, above_eq_nil_iff, Nat.not_le] at h
  simp only [above, push, List.length_cons]
  rw [Nat.sub_add_comm (Nat.le_of_lt h), List.take_succ_cons]

/-- A closing bracket finds a partner if the expression has a bracket open. -/
theorem close_problems (h : brackets.above ≠ []) (bracket : Token) :
    (brackets.close bracket).2 = [] := by
  rw [ne_eq, above_eq_nil_iff, Nat.not_le] at h
  obtain ⟨opened, base⟩ := brackets
  cases opened with
  | nil => simp at h
  | cons inner outer => rfl

theorem skip_problems {tokens : List Token} (h : ∀ token ∈ tokens, token.kind ≠ .closeBracket) :
    (brackets.skip tokens).2 = [] := by
  refine List.eq_nil_iff_forall_not_mem.mpr fun problem hproblem => ?_
  obtain ⟨token, hmem, hkind, -⟩ := mem_skip hproblem
  exact h token hmem hkind

end Brackets

namespace Checker

/-- The tokens from here on without those that recoveries skip, and without the layout
between these. -/
def surviving (checker : Checker) : List Token → List Token
  | [] => []
  | token :: rest =>
    let next := (checker.feed token).1
    if next.skipped = [] then token :: next.surviving rest else next.surviving rest

theorem surviving_singleton (checker : Checker) (token : Token) :
    checker.surviving [token] = if (checker.feed token).1.skipped = [] then [token] else [] := rfl

theorem surviving_cons (checker : Checker) (token : Token) (rest : List Token) :
    checker.surviving (token :: rest) =
      checker.surviving [token] ++ (checker.feed token).1.surviving rest := by
  rw [surviving_singleton, surviving]
  split_ifs <;> rfl

/-- A recovery resumes at the token. -/
def ResumesAt (tokens : List Token) (token : Token) : Prop :=
  ∃ before later, tokens = before ++ token :: later ∧
    (after before).skipped ≠ [] ∧ (after (before ++ [token])).skipped = []

/-- The token is met between expressions. -/
def MetBetween (tokens : List Token) (token : Token) : Prop :=
  ∃ before later, tokens = before ++ token :: later ∧ EndsBetween before

/-- The other check stands where this one stands, with nothing skipped, and has the same
brackets of the expression open. -/
structure Mirrors (checker other : Checker) : Prop where
  phase_eq : other.phase = checker.phase
  parameters_eq : other.parameters = checker.parameters
  references_eq : other.references = checker.references
  skipped_eq : other.skipped = []
  skipped_kind : ∀ token ∈ checker.skipped, token.kind ≠ .closeBracket
  above_eq : checker.phase.isOpen = true →
    checker.brackets.above ≠ [] ∧ other.brackets.above = checker.brackets.above

variable {checker other : Checker} {token : Token} {result : Checker × List Problem}

theorem filter_of_code_ne {problems : List Problem}
    (h : ∀ problem ∈ problems, problem.code ≠ .unexpectedToken ∧ problem.code ≠ .unexpectedEnd) :
    problems.filter (·.code ≠ .unexpectedToken) = problems :=
  List.filter_eq_self.mpr fun problem hproblem => decide_eq_true (h problem hproblem).1

theorem filter_skipping (checker : Checker) :
    checker.skipping.filter (·.code ≠ .unexpectedToken) = [] :=
  List.filter_eq_nil_iff.mpr fun _ hproblem => by simp [code_skipping hproblem]

theorem mirrors_initial : initial.Mirrors initial :=
  ⟨rfl, rfl, rfl, rfl, nofun, nofun⟩

namespace Mirrors

theorem groupOpen_eq (h : checker.Mirrors other) (hopen : checker.phase.isOpen = true) :
    other.brackets.groupOpen = checker.brackets.groupOpen := by
  rw [Bool.eq_iff_iff, Brackets.groupOpen_iff, Brackets.groupOpen_iff, (h.above_eq hopen).2]

/-- What is skipped closes nothing and leaves the brackets of the expression alone. -/
theorem resumed (h : checker.Mirrors other) : checker.resumed.Mirrors other := by
  refine ⟨h.phase_eq, h.parameters_eq, h.references_eq, h.skipped_eq, nofun, fun hopen => ?_⟩
  have habove : checker.resumed.brackets.above = checker.brackets.above :=
    Brackets.above_skip_of_no_close _ h.skipped_kind
  rw [habove]
  exact h.above_eq hopen

theorem of_absorbs (h : checker.Mirrors other)
    (hplaced : token.kind = .closeBracket → checker.phase ≠ .item)
    (habsorbs : checker.Absorbs token result) :
    result.1.Mirrors (other.feed token).1 ∧ (other.feed token).2 = result.2 := by
  have hphase := h.phase_eq
  cases habsorbs with
  | separator hitem hkind =>
    rw [feed_separator h.skipped_eq (hphase.trans hitem) hkind]
    exact ⟨h, rfl⟩
  | outerClose hitem hkind => exact absurd hitem (hplaced hkind)
  | misplaced hoperand hkind =>
    rw [feed_misplaced h.skipped_eq (hphase.trans hoperand) hkind]
    exact ⟨h, rfl⟩
  | @group first hoperand hkind =>
    have hopen : checker.phase.isOpen = true := by
      rcases hoperand with hoperand | hoperand <;> rw [hoperand] <;> rfl
    obtain ⟨hne, habove⟩ := h.above_eq hopen
    rw [feed_group h.skipped_eq (hphase ▸ hoperand) hkind]
    refine ⟨⟨rfl, h.parameters_eq, h.references_eq, h.skipped_eq, h.skipped_kind, fun _ => ?_⟩, rfl⟩
    rw [Brackets.above_push hne, Brackets.above_push (habove ▸ hne), habove]
    exact ⟨List.cons_ne_nil _ _, rfl⟩
  | endGroup hoperator hkind hgroup =>
    have hopen : checker.phase.isOpen = true := by rw [hoperator]; rfl
    obtain ⟨hne, habove⟩ := h.above_eq hopen
    rw [feed_endGroup h.skipped_eq (hphase.trans hoperator) (h.groupOpen_eq hopen ▸ hgroup) hkind,
      Brackets.close_problems hne, Brackets.close_problems (habove ▸ hne)]
    refine ⟨⟨hphase, h.parameters_eq, h.references_eq, h.skipped_eq, h.skipped_kind,
      fun _ => ?_⟩, rfl⟩
    rw [Brackets.above_close, Brackets.above_close, habove]
    refine ⟨?_, rfl⟩
    rw [Brackets.groupOpen_iff] at hgroup
    rw [← List.length_pos_iff, List.length_tail]
    omega
  | sign hargument hkind =>
    rw [feed_sign h.skipped_eq (hphase.trans hargument) hkind]
    exact ⟨⟨rfl, h.parameters_eq, h.references_eq, h.skipped_eq, h.skipped_kind, nofun⟩, rfl⟩

theorem take (h : checker.Mirrors other) (token : Token) :
    (checker.take token).1.Mirrors (other.take token).1 ∧
      (other.take token).2 = (checker.take token).2 := by
  obtain ⟨_, _, _, brackets, skipped⟩ := checker
  obtain ⟨phase, parameters, references, others, _⟩ := other
  obtain ⟨rfl, rfl, rfl, rfl, hkinds, habove⟩ := h
  cases phase with
  | item =>
    exact ⟨⟨rfl, rfl, rfl, rfl, List.forall_mem_nil _, fun _ => by simp [Checker.take]⟩, rfl⟩
  | lambda | arrow => exact ⟨⟨rfl, rfl, rfl, rfl, hkinds, habove⟩, rfl⟩
  | parameter =>
    unfold Checker.take
    split_ifs <;> exact ⟨⟨rfl, rfl, rfl, rfl, hkinds, habove⟩, rfl⟩
  | operand first | group first =>
    unfold Checker.take
    by_cases hname : token.kind = .identifier
    · simp only [if_pos hname]
      exact ⟨⟨rfl, rfl, rfl, rfl, hkinds, habove⟩, trivial⟩
    · simp only [if_neg hname]
      exact ⟨⟨rfl, rfl, rfl, rfl, hkinds, habove⟩, trivial⟩
  | operator first =>
    obtain ⟨hne, heq⟩ := habove rfl
    simp only [Checker.take, Brackets.close_problems hne, Brackets.close_problems (heq ▸ hne)]
    split_ifs
    · refine ⟨⟨rfl, rfl, rfl, rfl, hkinds, fun hopen => ?_⟩, rfl⟩
      simp [Phase.isOpen_arguments] at hopen
    · exact ⟨⟨rfl, rfl, rfl, rfl, hkinds, fun _ => ⟨hne, heq⟩⟩, rfl⟩
  | argument further signed =>
    refine ⟨⟨rfl, rfl, rfl, rfl, hkinds, fun hopen => ?_⟩, rfl⟩
    simp [Checker.take, Phase.isOpen_arguments] at hopen
  | terminator =>
    exact ⟨⟨rfl, rfl, rfl, rfl, List.forall_mem_nil _,
      fun hopen => absurd hopen Bool.false_ne_true⟩, rfl⟩

/-- A token that is taken is no optional one for the other check. -/
theorem absorb_eq_none (h : checker.Mirrors other)
    (hresumes : token.kind = .closeBracket → checker.skipped = [])
    (habsorb : checker.skipped = [] → checker.absorb token = none)
    (haccepts : checker.expected.accepts token.kind = true) : other.absorb token = none := by
  refine Option.eq_none_iff_forall_ne_some.mpr fun result hsome => ?_
  rw [expected, ← h.phase_eq] at haccepts
  cases absorbs_of_absorb hsome with
  | separator hphase hkind | outerClose hphase hkind | misplaced hphase hkind =>
    rw [hphase, hkind] at haccepts
    cases haccepts
  | group hphase hkind =>
    rcases hphase with hphase | hphase <;> rw [hphase, hkind] at haccepts <;> cases haccepts
  | endGroup hphase hkind hgroup =>
    rw [h.phase_eq] at hphase
    rw [h.groupOpen_eq (by rw [hphase]; rfl)] at hgroup
    have hnone := habsorb (hresumes hkind)
    simp [absorb, hphase, hkind, hgroup] at hnone
  | sign hphase hkind =>
    rcases hkind with hkind | hkind <;> rw [hphase, hkind] at haccepts <;> cases haccepts

/-- One token, of which the other check reads what survives. -/
theorem feed (h : checker.Mirrors other)
    (hclose : token.kind = .closeBracket →
      checker.skipped = [] ∧ checker.phase ≠ .item ∧ (checker.feed token).1.skipped = []) :
    (checker.feed token).1.Mirrors (other.feedAll (checker.surviving [token])).1 ∧
      (other.feedAll (checker.surviving [token])).2 =
        (checker.feed token).2.filter (·.code ≠ .unexpectedToken) := by
  have hstep := step_feed checker token
  rw [surviving_singleton]
  generalize checker.feed token = result at hstep hclose
  cases hstep with
  | layout hlayout =>
    split_ifs
    · rw [feedAll_cons, feed_layout hlayout]
      exact ⟨h, rfl⟩
    · exact ⟨h, rfl⟩
  | absorbs hskipped habsorb =>
    have habsorbs := absorbs_of_absorb habsorb
    obtain ⟨hnext, hproblems⟩ := h.of_absorbs (fun hkind => (hclose hkind).2.1) habsorbs
    rw [if_pos (habsorbs.skipped_eq.trans hskipped), feedAll_cons]
    refine ⟨hnext, ?_⟩
    rw [feedAll_nil, List.append_nil, hproblems, filter_of_code_ne habsorbs.code_ne]
  | takes habsorb haccepts =>
    have hother := h.absorb_eq_none (fun hkind => (hclose hkind).1) habsorb haccepts
    rw [expected, ← h.phase_eq] at haccepts
    have htakes := takes_take checker.resumed token
    obtain ⟨hnext, hproblems⟩ := h.resumed.take token
    rw [if_pos (htakes.skipped_eq_nil rfl), feedAll_cons,
      feed_of_accepts h.skipped_eq hother haccepts]
    refine ⟨hnext, ?_⟩
    rw [feedAll_nil, List.append_nil, hproblems, Brackets.skip_problems h.skipped_kind,
      List.append_nil, List.filter_append, filter_skipping, List.nil_append,
      filter_of_code_ne htakes.code_ne]
  | skips hlayout habsorb hrefuses =>
    have hkind : token.kind ≠ .closeBracket := fun hkind => by simpa using (hclose hkind).2.2
    rw [if_neg (by simp)]
    refine ⟨⟨h.phase_eq, h.parameters_eq, h.references_eq, h.skipped_eq, ?_, h.above_eq⟩, rfl⟩
    intro skipped hmem
    rcases List.mem_append.mp hmem with hold | hnew
    · exact h.skipped_kind skipped hold
    · rwa [List.mem_singleton.mp hnew]

theorem feedAll (h : checker.Mirrors other) (tokens : List Token)
    (hclose : ∀ before token later, tokens = before ++ token :: later →
      token.kind = .closeBracket → (checker.feedAll before).1.skipped = [] ∧
        (checker.feedAll before).1.phase ≠ .item ∧
        (checker.feedAll (before ++ [token])).1.skipped = []) :
    (checker.feedAll tokens).1.Mirrors (other.feedAll (checker.surviving tokens)).1 ∧
      (other.feedAll (checker.surviving tokens)).2 =
        (checker.feedAll tokens).2.filter (·.code ≠ .unexpectedToken) := by
  induction tokens generalizing checker other with
  | nil => exact ⟨h, rfl⟩
  | cons token rest ih =>
    obtain ⟨hnext, hproblems⟩ := h.feed fun hkind => hclose [] token rest rfl hkind
    obtain ⟨hlast, hmore⟩ := ih hnext fun before closing later hrest =>
      hclose (token :: before) closing later (congrArg (token :: ·) hrest)
    rw [surviving_cons, feedAll_append, feedAll_cons]
    exact ⟨hlast, by rw [hproblems, hmore, List.filter_append]⟩

end Mirrors

/-- Closing brackets that no recovery meets are read inside an expression. -/
theorem read_of_closes {tokens before later : List Token}
    (htokens : tokens = before ++ token :: later)
    (hskipped : ¬ Skipped tokens token) (hresumes : ¬ ResumesAt tokens token)
    (hmet : ¬ MetBetween tokens token) (hkind : token.kind = .closeBracket) :
    (after before).skipped = [] ∧ (after before).phase ≠ .item ∧
      (after (before ++ [token])).skipped = [] := by
  have hread : (after (before ++ [token])).skipped = [] := by
    by_contra hne
    refine hskipped ⟨before, later, htokens, ?_⟩
    rw [after_concat] at hne ⊢
    have hstep := step_feed (after before) token
    generalize (after before).feed token = result at hstep hne
    cases hstep with
    | layout hlayout => simp [hkind, Kind.isLayout] at hlayout
    | absorbs hnil habsorb => exact absurd ((absorbs_of_absorb habsorb).skipped_eq.trans hnil) hne
    | takes => exact absurd ((takes_take _ token).skipped_eq_nil rfl) hne
    | skips => exact List.mem_append_right _ List.mem_cons_self
  have hnil : (after before).skipped = [] := by
    by_contra hne
    exact hresumes ⟨before, later, htokens, hne, hread⟩
  exact ⟨hnil, fun hitem => hmet ⟨before, later, htokens, hitem, hnil⟩, hread⟩

/-- It is enough to look at the states before and after each closing bracket. -/
theorem closes_of_forall_take (tokens : List Token)
    (h : ∀ i : Fin tokens.length, tokens[i].kind = .closeBracket →
      (after (tokens.take i)).skipped = [] ∧ (after (tokens.take i)).phase ≠ .item ∧
        (after (tokens.take (i + 1))).skipped = []) :
    ∀ token ∈ tokens, token.kind = .closeBracket →
      ¬ Skipped tokens token ∧ ¬ ResumesAt tokens token ∧ ¬ MetBetween tokens token := by
  intro token _ hkind
  have hread {before later : List Token} (htokens : tokens = before ++ token :: later) :
      (after before).skipped = [] ∧ (after before).phase ≠ .item ∧
        (after (before ++ [token])).skipped = [] := by
    have hlt : before.length < tokens.length := by simp [htokens]
    have hplace := h ⟨before.length, hlt⟩ (by simpa [htokens] using hkind)
    have hbefore : tokens.take before.length = before := by rw [htokens, List.take_left]
    have hsplit : tokens.take (before.length + 1) = before ++ [token] := by
      rw [List.take_add_one, hbefore, htokens]
      simp
    dsimp only at hplace
    rwa [hbefore, hsplit] at hplace
  refine ⟨?_, ?_, ?_⟩
  · rintro ⟨before, later, htokens, hmem⟩
    rw [(hread htokens).2.2] at hmem
    cases hmem
  · rintro ⟨before, later, htokens, hne, -⟩
    exact hne (hread htokens).1
  · rintro ⟨before, later, htokens, hends⟩
    exact (hread htokens).2.1 hends.1

/-- A check of what recoveries leave of the tokens has the diagnostics of a check of all of
them but those of the recoveries themselves, provided that all ends between expressions and
that every closing bracket is read in an expression and not by a recovery. -/
theorem diagnose_surviving (tokens : List Token) (hends : EndsBetween tokens)
    (hclose : ∀ token ∈ tokens, token.kind = .closeBracket →
      ¬ Skipped tokens token ∧ ¬ ResumesAt tokens token ∧ ¬ MetBetween tokens token) :
    diagnose (initial.surviving tokens) =
      (diagnose tokens).filter (·.code ≠ .unexpectedToken) := by
  obtain ⟨hlast, hproblems⟩ := mirrors_initial.feedAll tokens
    fun before token later htokens hkind => by
      obtain ⟨hskipped, hresumes, hmet⟩ := hclose token (by simp [htokens]) hkind
      exact read_of_closes htokens hskipped hresumes hmet hkind
  have hsurvives : EndsBetween (initial.surviving tokens) :=
    ⟨hlast.phase_eq.trans hends.1, hlast.skipped_eq⟩
  rw [diagnose, hsurvives.problems_eq, diagnose, hends.problems_eq, hproblems, List.filter_map]
  rfl

/-- Three recoveries, of which two skip an opening bracket, in and around a group. -/
theorem diagnose_surviving_over_openings :
    EndsBetween (tokenize "((\\x -> (x + @ ( x) - y) 1 2;") ∧
      (∀ token ∈ tokenize "((\\x -> (x + @ ( x) - y) 1 2;", token.kind = .closeBracket →
        ¬ Skipped (tokenize "((\\x -> (x + @ ( x) - y) 1 2;") token ∧
          ¬ ResumesAt (tokenize "((\\x -> (x + @ ( x) - y) 1 2;") token ∧
          ¬ MetBetween (tokenize "((\\x -> (x + @ ( x) - y) 1 2;") token) ∧
      diagnose (initial.surviving (tokenize "((\\x -> (x + @ ( x) - y) 1 2;")) =
        (diagnose (tokenize "((\\x -> (x + @ ( x) - y) 1 2;")).filter
          (·.code ≠ .unexpectedToken) := by
  have hends : EndsBetween (tokenize "((\\x -> (x + @ ( x) - y) 1 2;") :=
    ⟨by decide +kernel, by decide +kernel⟩
  have hclose := closes_of_forall_take (tokenize "((\\x -> (x + @ ( x) - y) 1 2;")
    (by decide +kernel)
  exact ⟨hends, hclose, diagnose_surviving _ hends hclose⟩

end Checker

end CurriedLambda
