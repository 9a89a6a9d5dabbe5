import CurriedLambda.Proofs.Descent
import CurriedLambda.Proofs.Recovery

/-!
Descent finds what reading token by token finds. Each production stands for some phases of a
check: what a descent has found, together with what the check finds from there on, stays the
same from one place to the next, and is all that a descent has found when it gives up.
-/
namespace CurriedLambda

theorem Brackets.skip_significant (brackets : Brackets) (tokens : List Token) :
    brackets.skip (significant tokens) = brackets.skip tokens := by
  induction tokens generalizing brackets with
  | nil => rfl
  | cons token rest ih =>
    cases hkind : token.kind <;>
      simp [significant, hkind, Kind.isLayout, skip, ← ih]

/-- Without opening brackets the base does not matter. -/
theorem Brackets.skip_leave (brackets : Brackets) {tokens : List Token}
    (h : ∀ token ∈ tokens, token.kind ≠ .openBracket) :
    brackets.leave.skip tokens =
      ((brackets.skip tokens).1.leave, (brackets.skip tokens).2) := by
  induction tokens generalizing brackets with
  | nil => rfl
  | cons token rest ih =>
    have hrest := fun other hother => h other (List.mem_cons_of_mem _ hother)
    cases hkind : token.kind with
    | openBracket => exact absurd hkind (h token List.mem_cons_self)
    | closeBracket =>
      have hclose : brackets.leave.close token =
          ((brackets.close token).1.leave, (brackets.close token).2) := by
        obtain ⟨_ | _, _⟩ := brackets <;> rfl
      simp only [skip, hkind, hclose, ih _ hrest]
    | _ => simp only [skip, hkind, ih _ hrest]

namespace Checker

variable {checker : Checker} {found target : Token} {early later tokens : List Token}

/-- A recovery that no token ends. -/
theorem problemsFrom_of_refuses (last : Option Token) (hskipped : checker.skipped = [])
    (hfound : (significant tokens).head? = some found) (habsorb : checker.absorb found = none)
    (hrefuses : ∀ token ∈ tokens, checker.expected.accepts token.kind = false) :
    checker.problemsFrom last tokens =
      .unexpected checker.expected found [] :: (checker.brackets.skip tokens).2 := by
  obtain ⟨more, hmore⟩ := List.head?_eq_some_iff.mp hfound
  rw [problemsFrom_eq_feedAll, feedAll_eq_meetAll hfound habsorb,
    meetAll_of_refuses hskipped hrefuses, finish_of_skipped hmore, Brackets.skip_significant]
  rfl

/-- A recovery that ends, and what follows it. -/
theorem problemsFrom_of_accepts (last : Option Token) (hskipped : checker.skipped = [])
    (hfound : (significant (early ++ target :: later)).head? = some found)
    (habsorb : checker.absorb found = none)
    (hfirst : checker.expected.accepts found.kind = false)
    (hrefuses : ∀ token ∈ early, checker.expected.accepts token.kind = false)
    (haccepts : checker.expected.accepts target.kind = true) :
    let resumed := { checker with brackets := (checker.brackets.skip early).1, skipped := [] }
    checker.problemsFrom last (early ++ target :: later) =
      .unexpected checker.expected found (significant early) ::
        ((checker.brackets.skip early).2 ++ ((resumed.take target).2 ++
          (resumed.take target).1.problemsFrom last later)) := by
  intro resumed
  obtain ⟨more, hmore⟩ := exists_significant_eq hfound hfirst haccepts
  have hhead : (significant (early ++ [target])).head? = some found := by
    rw [significant_append, hmore]
    rfl
  have hread := meetAll_of_accepts hskipped hmore hrefuses haccepts
  rw [Brackets.skip_significant] at hread
  rw [List.append_cons, problemsFrom_append, feedAll_eq_meetAll hhead habsorb, hread]
  simp [resumed]

end Checker

namespace Descent

variable {descent : Descent} {token : Token} {all : List Problem} {phase : Phase}

/-- The state of a check in this phase. Between expressions the names of the last one do not
count any more. -/
def checker (descent : Descent) : Phase → Checker
  | .item => .between descent.brackets
  | phase => ⟨phase, descent.parameters, descent.references, descent.brackets, []⟩

/-- What has been found, and what a check finds from this state on that has just found these
problems. -/
def outcome (descent : Descent) (result : Checker × List Problem) : List Problem :=
  descent.found ++ (result.2 ++ result.1.problemsFrom descent.tokens.getLast? descent.rest)

/-- All problems are those found and those that a check finds from here on in this phase. -/
def Agrees (descent : Descent) (all : List Problem) (phase : Phase) : Prop :=
  descent.outcome (descent.checker phase, []) = all

/-- No optional token comes next, and between expressions some token does. -/
def Ready (descent : Descent) (phase : Phase) : Prop :=
  (∀ token, (significant descent.rest).head? = some token →
      (descent.checker phase).absorb token = none) ∧
    (phase = .item → significant descent.rest ≠ [])

/-- No bracket of this kind comes next, or the open ones do not allow it. -/
def Stopped (descent : Descent) (kind : Kind) (allowed : Brackets → Bool) : Prop :=
  ∀ token, (significant descent.rest).head? = some token →
    ¬ (token.kind = kind ∧ allowed descent.brackets = true)

/-- The production leads a check from one phase to another, whatever all the problems are. -/
def Leads (before : Phase) (production : Production Unit) (after : Phase) : Prop :=
  ∀ all, Ensures (·.Agrees all before) production (fun _ descent => descent.Agrees all after)
    (·.found = all)

theorem phase_checker (descent : Descent) (phase : Phase) :
    (descent.checker phase).phase = phase := by
  cases phase <;> rfl

theorem skipped_checker (descent : Descent) (phase : Phase) :
    (descent.checker phase).skipped = [] := by
  cases phase <;> rfl

theorem rest_moveTo {early later : List Token} (h : descent.rest = early ++ later) :
    (descent.moveTo (descent.cursor + early.length)).rest = later := by
  have hdrop : (descent.moveTo (descent.cursor + early.length)).rest =
      descent.rest.drop early.length := (List.drop_drop ..).symm
  rw [hdrop, h, List.drop_left]

theorem rest_settle (descent : Descent) :
    descent.settle.rest = descent.rest.dropWhile (·.kind = .newline) :=
  rest_moveTo List.takeWhile_append_dropWhile.symm

theorem rest_pass (h : descent.rest.head? = some token) :
    descent.rest = token :: descent.pass.rest := by
  obtain ⟨later, hrest⟩ := List.head?_eq_some_iff.mp h
  have hpass : descent.pass.rest = later := @rest_moveTo _ [token] later hrest
  rw [hrest, hpass]

theorem significant_rest_settle (descent : Descent) :
    significant descent.settle.rest = significant descent.rest := by
  have hbreaks : significant (descent.rest.takeWhile (·.kind = .newline)) = [] := by
    refine List.filter_eq_nil_iff.mpr fun token hmem => ?_
    have hkind : token.kind = .newline := by simpa using List.mem_takeWhile_imp hmem
    simp [hkind, Kind.isLayout]
  conv_rhs => rw [← List.takeWhile_append_dropWhile (p := (·.kind = .newline)) (l := descent.rest)]
  rw [significant_append, hbreaks, rest_settle, List.nil_append]

theorem isLayout_of_settle (h : descent.settle.rest.head? = some token) :
    token.kind.isLayout = false := by
  have hbreak := List.head?_dropWhile_not (·.kind = .newline) descent.rest
  rw [← rest_settle, h] at hbreak
  have hmem : token ∈ descent.tokens := List.mem_of_mem_drop (List.mem_of_head? h)
  have hspace := descent.kind_ne_whitespace token hmem
  cases hkind : token.kind <;> simp_all [Kind.isLayout]

theorem significant_head (h : descent.rest.head? = some token)
    (hlayout : token.kind.isLayout = false) :
    (significant descent.rest).head? = some token := by
  rw [rest_pass h, significant_cons hlayout]
  rfl

theorem outcome_settle (descent : Descent) (result : Checker × List Problem) :
    descent.settle.outcome result = descent.outcome result := by
  rw [outcome, ← Checker.problemsFrom_significant, significant_rest_settle,
    Checker.problemsFrom_significant]
  rfl

/-- A token that is read causes what it causes in a check. -/
theorem outcome_pass (h : descent.rest.head? = some token) (checker : Checker) :
    descent.pass.outcome (checker.feed token) = descent.outcome (checker, []) := by
  rw [outcome, outcome, rest_pass h, Checker.problemsFrom]
  rfl

theorem outcome_resumed (descent : Descent) (place : Nat) (problems : List Problem)
    (settled : Brackets × List Problem) (result : Checker × List Problem) :
    (((descent.moveTo place).report problems).account settled).outcome result =
      descent.found ++ (problems ++ (settled.2 ++ (result.2 ++
        result.1.problemsFrom descent.tokens.getLast? (descent.moveTo place).rest))) := by
  simp [outcome, account, report, moveTo, rest]

/-- A descent that skips tokens stands for the check that has skipped them. -/
theorem checker_skip {skipped : List Token}
    (hrefuses : ∀ token ∈ skipped, phase.expected.accepts token.kind = false) :
    { descent.checker phase with
        brackets := ((descent.checker phase).brackets.skip skipped).1, skipped := [] } =
      (descent.account (descent.brackets.skip skipped)).checker phase ∧
    ((descent.checker phase).brackets.skip skipped).2 = (descent.brackets.skip skipped).2 := by
  cases phase with
  | item =>
    have hopen : ∀ token ∈ skipped, token.kind ≠ .openBracket := by
      intro token hmem hkind
      have hrefused := hrefuses token hmem
      rw [hkind] at hrefused
      cases hrefused
    have hbrackets : (descent.checker .item).brackets = descent.brackets.leave := rfl
    rw [hbrackets, descent.brackets.skip_leave hopen]
    exact ⟨rfl, rfl⟩
  | _ => exact ⟨rfl, rfl⟩

theorem ensures_neutralize {found : Token} (hrefused : phase.expected.accepts found.kind = false) :
    Ensures (fun descent => descent.Agrees all phase ∧
        descent.rest.head? = some found ∧ found.kind.isLayout = false ∧
        (descent.checker phase).absorb found = none)
      (neutralize phase.expected)
      (fun token descent => phase.expected.accepts token.kind = true ∧
        descent.outcome ((descent.checker phase).take token) = all)
      (·.found = all) := by
  rintro descent ⟨hagrees, hhead, hlayout, habsorb⟩
  have hfound := significant_head hhead hlayout
  have hskipped := descent.skipped_checker phase
  have hexpected : (descent.checker phase).expected = phase.expected := by
    rw [Checker.expected, phase_checker]
  have hsplit := (List.takeWhile_append_dropWhile (l := descent.rest)
    (p := fun token => !phase.expected.accepts token.kind)).symm
  have hearly : ∀ token ∈ descent.rest.takeWhile fun token => !phase.expected.accepts token.kind,
      phase.expected.accepts token.kind = false := by
    intro token hmem
    simpa using List.mem_takeWhile_imp hmem
  obtain ⟨hstate, hunmatched⟩ := descent.checker_skip hearly
  unfold neutralize
  rw [rest_pass hhead]
  dsimp only
  rw [← rest_pass hhead]
  cases hdrop : descent.rest.dropWhile fun token => !phase.expected.accepts token.kind with
  | nil =>
    rw [hdrop, List.append_nil] at hsplit
    rw [← hsplit] at hearly hunmatched
    have hproblems := Checker.problemsFrom_of_refuses descent.tokens.getLast? hskipped hfound
      habsorb (hexpected ▸ hearly)
    rw [hexpected, hunmatched] at hproblems
    rw [Agrees, outcome, hproblems] at hagrees
    rw [← hsplit]
    simpa [account, report, moveTo] using hagrees
  | cons target later =>
    rw [hdrop] at hsplit
    have haccepts : phase.expected.accepts target.kind = true := by
      have hhead := List.head?_dropWhile_not (fun token => !phase.expected.accepts token.kind)
        descent.rest
      simpa [hdrop] using hhead
    rw [hsplit] at hfound
    have hproblems := Checker.problemsFrom_of_accepts descent.tokens.getLast? hskipped hfound
      habsorb (hexpected ▸ hrefused) (hexpected ▸ hearly) (hexpected ▸ haccepts)
    rw [← hsplit, hexpected, hunmatched, hstate] at hproblems
    refine ⟨haccepts, ?_⟩
    rw [Agrees, outcome, hproblems] at hagrees
    rw [List.append_cons] at hsplit
    have hrest := rest_moveTo hsplit
    rw [List.length_append, List.length_singleton, ← Nat.add_assoc] at hrest
    rw [outcome_resumed, hrest]
    exact hagrees

theorem checker_settle (descent : Descent) (phase : Phase) :
    descent.settle.checker phase = descent.checker phase := by
  cases phase <;> rfl

theorem agrees_settle (h : descent.Agrees all phase) : descent.settle.Agrees all phase := by
  rwa [Agrees, outcome_settle, checker_settle]

theorem ready_settle (h : descent.Ready phase) : descent.settle.Ready phase := by
  rwa [Ready, significant_rest_settle, checker_settle]

theorem ensures_settled {kept failed : Descent → Prop}
    (h : ∀ descent, kept descent → kept descent.settle) :
    Ensures kept peek (fun next descent => kept descent ∧ descent.rest.head? = next ∧
      ∀ token, next = some token → token.kind.isLayout = false) failed :=
  fun descent hkept => ⟨h descent hkept, rfl, fun _ => isLayout_of_settle⟩

theorem ensures_peek_agrees (all : List Problem) (phase : Phase) (failed : Descent → Prop) :
    Ensures (·.Agrees all phase) peek
      (fun next descent => descent.Agrees all phase ∧ descent.rest.head? = next ∧
        ∀ token, next = some token → token.kind.isLayout = false) failed :=
  ensures_settled fun _ => agrees_settle

theorem found_of_agrees (h : descent.Agrees all phase) (hrest : descent.rest = []) :
    all = descent.found ++ (descent.checker phase).finish descent.tokens.getLast? := by
  rw [← h, outcome, hrest]
  rfl

/-- Where no optional token comes next, an expected one is read as by a check. -/
theorem ensures_expect (phase : Phase) :
    Ensures (fun descent => descent.Agrees all phase ∧ descent.Ready phase)
      (expect phase.expected)
      (fun token descent => phase.expected.accepts token.kind = true ∧
        descent.outcome ((descent.checker phase).take token) = all)
      (·.found = all) := by
  refine (ensures_settled fun descent h => ⟨agrees_settle h.1, ready_settle h.2⟩).bind
    fun next => ?_
  cases next with
  | none =>
    rintro descent ⟨⟨hagrees, hready⟩, hnone, -⟩
    have hrest : descent.rest = [] := List.head?_eq_none_iff.mp hnone
    have hphase : phase ≠ .item := fun hitem => hready.2 hitem (by rw [hrest]; rfl)
    dsimp only
    unfold neutralize
    rw [hrest]
    refine Eq.trans ?_ (found_of_agrees hagrees hrest).symm
    rw [Checker.finish, skipped_checker, phase_checker]
    simp [hphase, report, Checker.expected, phase_checker]
  | some token =>
    dsimp only
    split
    next haccepts =>
      rintro descent ⟨⟨hagrees, hready⟩, hhead, hlayout⟩
      have habsorb := hready.1 token (significant_head hhead (hlayout token rfl))
      have hfeed := Checker.feed_of_accepts (descent.skipped_checker phase) habsorb
        (by rwa [Checker.expected, phase_checker])
      have hpass : descent.pass.checker phase = descent.checker phase := by cases phase <;> rfl
      refine ⟨haccepts, ?_⟩
      rw [hpass, ← hfeed, outcome_pass hhead]
      exact hagrees
    next hrefused =>
      have hrefuses : phase.expected.accepts token.kind = false := by simpa using hrefused
      refine (ensures_neutralize hrefuses).mono (fun descent h => ?_) (fun _ _ => id) fun _ => id
      obtain ⟨⟨hagrees, hready⟩, hhead, hlayout⟩ := h
      exact ⟨hagrees, hhead, hlayout token rfl,
        hready.1 token (significant_head hhead (hlayout token rfl))⟩

/-- Brackets are read as by a check, up to the first token that is none of these. -/
theorem ensures_brackets {kind : Kind} {allowed : Brackets → Bool}
    {read : Token → Brackets → Brackets × List Problem} {kept failed : Descent → Prop}
    (hsettle : ∀ descent, kept descent → kept descent.settle)
    (hread : ∀ descent token, kept descent → descent.rest.head? = some token →
      token.kind = kind → allowed descent.brackets = true →
        kept (descent.pass.account (read token descent.brackets))) :
    Ensures kept (bracketTurn kind allowed read).loop
      (fun _ descent => kept descent ∧ descent.Stopped kind allowed) failed := by
  refine Turn.ensures_loop ((ensures_settled hsettle).bind fun next => ?_)
  cases next with
  | none =>
    rintro descent ⟨hkept, hnone, -⟩
    rw [List.head?_eq_none_iff] at hnone
    exact ⟨hkept, by simp [Stopped, hnone, significant]⟩
  | some token =>
    refine .bind_get fun descent => ?_
    split
    next hallowed =>
      rintro descent ⟨rfl, hkept, hhead, -⟩
      exact hread descent token hkept hhead hallowed.1 hallowed.2
    next hstops =>
      rintro descent ⟨rfl, hkept, hhead, hlayout⟩
      refine ⟨hkept, fun other hother => ?_⟩
      rw [significant_head hhead (hlayout token rfl)] at hother
      obtain rfl := Option.some.inj hother
      exact hstops

theorem outcome_account (descent : Descent) (result : Brackets × List Problem)
    (checker : Checker) :
    (descent.account result).outcome (checker, []) = descent.outcome (checker, result.2) := by
  simp [outcome, account, rest]

theorem outcome_report (descent : Descent) (problems : List Problem) (checker : Checker) :
    (descent.report problems).outcome (checker, []) = descent.outcome (checker, problems) := by
  simp [outcome, report, rest]

theorem agrees_account {next : Phase} {result : Brackets × List Problem}
    (h : descent.Agrees all phase) (hhead : descent.rest.head? = some token)
    (hfeed : (descent.checker phase).feed token =
      ((descent.pass.account result).checker next, result.2)) :
    (descent.pass.account result).Agrees all next := by
  rw [Agrees, outcome_account, ← hfeed, outcome_pass hhead]
  exact h

/-- Where nothing is optional, a check is ready to read. -/
theorem ready_of_absorb (habsorb : ∀ token, (descent.checker phase).absorb token = none)
    (hphase : phase ≠ .item) : descent.Ready phase :=
  ⟨fun token _ => habsorb token, fun hitem => absurd hitem hphase⟩

/-- Where nothing is ever optional, an expected token is read as by a check. -/
theorem ensures_expect_required (phase : Phase) (hphase : phase ≠ .item)
    (habsorb : ∀ (descent : Descent) (token : Token),
      (descent.checker phase).absorb token = none) :
    Ensures (·.Agrees all phase) (expect phase.expected)
      (fun token descent => descent.outcome ((descent.checker phase).take token) = all)
      (·.found = all) :=
  (ensures_expect phase).mono
    (fun descent h => ⟨h, ready_of_absorb (habsorb descent) hphase⟩) (fun _ _ => And.right)
    fun _ => id

theorem ensures_operand (first : Bool) :
    Ensures (fun descent => ∃ phase, (phase = .operand first ∨ phase = .group first) ∧
        descent.Agrees all phase ∧ descent.Ready phase)
      operand (fun _ descent => descent.Agrees all (.operator first))
      (·.found = all) := by
  have hexpect : Ensures (fun descent => ∃ phase, (phase = .operand first ∨ phase = .group first) ∧
        descent.Agrees all phase ∧ descent.Ready phase) (expect .operand)
      (fun token descent => descent.outcome ((descent.checker (.operand first)).take token) = all)
      (·.found = all) := by
    rintro descent ⟨phase, rfl | rfl, h⟩
    · exact ((ensures_expect (.operand first)).mono (fun _ => id) (fun _ _ => And.right)
        fun _ => id) descent h
    · exact ((ensures_expect (.group first)).mono (fun _ => id) (fun _ _ => And.right)
        fun _ => id) descent h
  refine hexpect.bind fun token => ?_
  split
  next hname =>
    refine ensures_modify fun descent h => ?_
    have htake : (descent.checker (.operand first)).take token =
        ((descent.refer token).checker (.operator first),
          if Checker.names descent.parameters token.text then [] else [.unknownName token]) := by
      simp only [Checker.take, checker, hname, if_true]
      rfl
    rw [htake] at h
    simpa [Agrees, outcome, refer, rest] using h
  next hname =>
    refine ensures_pure fun descent h => ?_
    have htake : (descent.checker (.operand first)).take token =
        (descent.checker (.operator first), []) := by
      simp [Checker.take, checker, hname]
    rwa [htake] at h

theorem ensures_misplacedBrackets (first : Bool) :
    Ensures (·.Agrees all (.operand first)) misplacedBrackets.loop
      (fun _ descent => descent.Agrees all (.operand first) ∧
        descent.Stopped .closeBracket fun _ => true) (·.found = all) :=
  ensures_brackets (fun _ => agrees_settle) fun _ _ h hhead hkind _ =>
    agrees_account h hhead (Checker.feed_misplaced rfl rfl hkind)

/-- A check is before an operand, with no closing bracket to come, or after an opening bracket. -/
def AtOperand (descent : Descent) (all : List Problem) (first : Bool) : Prop :=
  descent.Agrees all (.operand first) ∧ descent.Stopped .closeBracket (fun _ => true) ∨
    descent.Agrees all (.group first)

theorem ensures_openBrackets (first : Bool) :
    Ensures (·.AtOperand all first) openBrackets.loop
      (fun _ descent => descent.AtOperand all first ∧
        descent.Stopped .openBracket fun _ => true) (·.found = all) := by
  refine ensures_brackets (fun descent h => ?_) fun descent token h hhead hkind _ => .inr ?_
  · rw [AtOperand, Stopped, significant_rest_settle]
    exact h.imp (And.imp_left agrees_settle) agrees_settle
  · rcases h with ⟨h, -⟩ | h
    · refine agrees_account h hhead ?_
      rw [Checker.feed_group rfl (.inl rfl) hkind]
      rfl
    · refine agrees_account h hhead ?_
      rw [Checker.feed_group rfl (.inr rfl) hkind]
      rfl

theorem leads_openedOperand (first : Bool) :
    Leads (.operand first) openedOperand (.operator first) := by
  intro all
  refine (ensures_misplacedBrackets first).bind fun _ => ?_
  refine ((ensures_openBrackets first).mono (fun _ => .inl) (fun _ _ => id) fun _ => id).bind
    fun _ => ?_
  refine (ensures_operand first).mono (fun descent h => ?_) (fun _ _ => id) fun _ => id
  -- What is optional in each of the two phases does not come next.
  rcases h with ⟨⟨hagrees, hclose⟩ | hagrees, hopen⟩
  · refine ⟨_, .inl rfl, hagrees, fun token htoken => ?_, by simp⟩
    have hnoclose := hclose token htoken
    have hnoopen := hopen token htoken
    cases hkind : token.kind <;> simp_all [Checker.absorb, checker]
  · refine ⟨_, .inr rfl, hagrees, fun token htoken => ?_, by simp⟩
    have hnoopen := hopen token htoken
    cases hkind : token.kind <;> simp_all [Checker.absorb, checker]

theorem ensures_closeBrackets (first : Bool) :
    Ensures (·.Agrees all (.operator first)) closeBrackets.loop
      (fun _ descent => descent.Agrees all (.operator first) ∧ descent.Ready (.operator first))
      (·.found = all) := by
  have hloop : Ensures (·.Agrees all (.operator first)) closeBrackets.loop
      (fun _ descent => descent.Agrees all (.operator first) ∧
        descent.Stopped .closeBracket Brackets.groupOpen) (·.found = all) :=
    ensures_brackets (fun _ => agrees_settle) fun descent token h hhead hkind hopen =>
      agrees_account h hhead (Checker.feed_endGroup rfl rfl hopen hkind)
  refine hloop.mono (fun _ => id) (fun _ descent h => ⟨h.1, fun token htoken => ?_, by simp⟩)
    fun _ => id
  have hstops := h.2 token htoken
  cases hkind : token.kind <;> simp_all [Checker.absorb, checker]

theorem ensures_sign (further : Nat) :
    Ensures (·.Agrees all (.argument further false)) sign
      (fun _ descent => ∃ signed, descent.Agrees all (.argument further signed) ∧
        descent.Ready (.argument further signed))
      (·.found = all) := by
  refine (ensures_peek_agrees all _ _).bind fun next => ?_
  cases next with
  | none =>
    rintro descent ⟨hagrees, hnone, -⟩
    rw [List.head?_eq_none_iff] at hnone
    exact ⟨false, hagrees, by simp [hnone, significant], by simp⟩
  | some token =>
    dsimp only
    split
    next hkind =>
      refine ensures_modify ?_
      rintro descent ⟨hagrees, hhead, hlayout⟩
      refine ⟨true, ?_, ready_of_absorb (fun other => ?_) (by simp)⟩
      · rw [Agrees, ← hagrees, ← outcome_pass hhead,
          Checker.feed_sign (descent.skipped_checker _) rfl hkind]
        rfl
      · simp [Checker.absorb, checker]
    next hkind =>
      refine ensures_pure ?_
      rintro descent ⟨hagrees, hhead, hlayout⟩
      refine ⟨false, hagrees, fun other hother => ?_, by simp⟩
      rw [significant_head hhead (hlayout token rfl)] at hother
      obtain rfl := Option.some.inj hother
      cases h : token.kind <;> simp_all [Checker.absorb, checker]

theorem leads_arguments (count : Nat) :
    Leads (.arguments count) (arguments count) .terminator := by
  intro all
  induction count with
  | zero => exact ensures_pure fun _ => id
  | succ further ih =>
    refine (ensures_sign further).bind fun _ => ?_
    have hexpect : Ensures (fun descent => ∃ signed,
          descent.Agrees all (.argument further signed) ∧
          descent.Ready (.argument further signed)) (expect .number)
        (fun _ descent => descent.Agrees all (.arguments further))
        (·.found = all) := by
      rintro descent ⟨signed, h⟩
      refine ((ensures_expect (.argument further signed)).mono (fun _ => id)
        (fun token descent h => ?_) fun _ => id) descent h
      have htake : (descent.checker (.argument further signed)).take token =
          (descent.checker (.arguments further), []) := by
        cases further <;> rfl
      rw [htake] at h
      exact h.2
    exact hexpect.bind fun _ => ih

theorem ensures_numbers :
    Ensures (fun descent => descent.Agrees all (.arguments descent.parameters.length)) numbers
      (fun _ descent => descent.Agrees all .item) (·.found = all) := by
  refine .bind_get fun descent => ?_
  refine ((leads_arguments descent.parameters.length all).mono ?_ (fun _ _ => id) fun _ => id).bind
    fun _ => ?_
  · rintro _ ⟨rfl, h⟩
    exact h
  refine (ensures_expect_required .terminator (by simp) fun _ _ => rfl).bind fun token => ?_
  refine ensures_modify fun descent h => ?_
  rw [Agrees, outcome_report]
  exact h

theorem ensures_operationTurn :
    Ensures (·.Agrees all (.operand false)) operationTurn.run
      (fun turnEnd descent =>
        match turnEnd with
        | .again => descent.Agrees all (.operand false)
        | .leave => descent.Agrees all .item)
      (·.found = all) := by
  refine (leads_openedOperand false all).bind fun _ => ?_
  refine (ensures_closeBrackets false).bind fun _ => ?_
  refine (ensures_expect (.operator false)).bind fun token => ?_
  split
  next hclose =>
    refine .bind_modify (ensures_numbers.bind fun _ => ensures_pure fun _ => id) fun descent h => ?_
    rw [Agrees, outcome_account]
    have htake : (descent.checker (.operator false)).take token =
        ((descent.account (descent.brackets.close token)).checker
            (.arguments descent.parameters.length), (descent.brackets.close token).2) := by
      simp only [Checker.take, checker, hclose, if_true]
      cases descent.parameters.length <;> rfl
    rw [htake] at h
    exact h.2
  next hclose =>
    refine ensures_pure fun descent h => ?_
    have htake : (descent.checker (.operator false)).take token =
        (descent.checker (.operand false), []) := by
      simp [Checker.take, checker, hclose]
    rw [htake] at h
    exact h.2

theorem leads_operation : Leads (.operator true) operation .item := by
  intro all
  refine (ensures_closeBrackets true).bind fun _ => ?_
  refine (ensures_expect (.operator true)).bind fun token => ?_
  refine (Turn.ensures_loop ensures_operationTurn).mono (fun descent h => ?_) (fun _ _ => id)
    fun _ => id
  have hclose : token.kind ≠ .closeBracket := by
    intro hkind
    rw [hkind] at h
    cases h.1
  have htake : (descent.checker (.operator true)).take token =
      (descent.checker (.operand false), []) := by
    simp [Checker.take, checker, hclose]
  rw [htake] at h
  exact h.2

theorem leads_arrow : Leads .arrow arrow .item := by
  intro all
  refine (ensures_expect_required .arrow (by simp) fun _ _ => rfl).bind fun _ => ?_
  exact (leads_openedOperand true all).bind fun _ => leads_operation all

theorem ensures_parameterTurn :
    Ensures (·.Agrees all .parameter) parameterTurn.run
      (fun turnEnd descent =>
        match turnEnd with
        | .again => descent.Agrees all .parameter
        | .leave => descent.Agrees all .item)
      (·.found = all) := by
  refine (ensures_expect_required .parameter (by simp) fun _ _ => rfl).bind fun token => ?_
  split
  next hname =>
    refine .bind_modify (ensures_pure fun _ => id) fun descent h => ?_
    have htake : (descent.checker .parameter).take token =
        ((descent.declare token).checker .parameter, []) := by
      simp only [Checker.take, checker, hname, if_true]
      rfl
    rw [htake] at h
    exact h
  next hname =>
    refine ((leads_arrow all).mono (fun descent h => ?_) (fun _ _ => id) fun _ => id).bind
      fun _ => ensures_pure fun _ => id
    have htake : (descent.checker .parameter).take token = (descent.checker .arrow, []) := by
      simp [Checker.take, checker, hname]
    rwa [htake] at h

theorem ensures_expression :
    Ensures (fun descent => descent.Agrees all .item ∧ descent.Ready .item) expression
      (fun _ descent => descent.Agrees all .item) (·.found = all) := by
  refine ((ensures_expect .item).mono (fun _ => id) (fun _ _ h => h.2) fun _ => id).bind
    fun bracket => ?_
  refine .bind_modify ((ensures_expect_required .lambda (by simp) fun _ _ => rfl).bind
    fun _ => Turn.ensures_loop ensures_parameterTurn) fun descent h => ?_
  exact h

theorem ensures_itemTurn :
    Ensures (·.Agrees all .item) itemTurn.run
      (fun turnEnd descent =>
        match turnEnd with
        | .again => descent.Agrees all .item
        | .leave => descent.found = all)
      fun _ => False := by
  refine (ensures_peek_agrees all _ _).bind fun next => ?_
  cases next with
  | none =>
    refine ensures_pure ?_
    rintro descent ⟨hagrees, hnone, -⟩
    refine Eq.symm ((found_of_agrees hagrees (List.head?_eq_none_iff.mp hnone)).trans ?_)
    exact List.append_nil _
  | some token =>
    dsimp only
    split_ifs with hsemicolon hclose
    · refine .bind_modify (ensures_pure fun _ => id) ?_
      rintro descent ⟨hagrees, hhead, -⟩
      change descent.pass.Agrees all .item
      rw [Agrees, ← hagrees, ← outcome_pass hhead, Checker.feed_separator rfl rfl hsemicolon]
      rfl
    · refine .bind_modify (.bind_modify (ensures_pure fun _ => id) fun _ => id) ?_
      rintro descent ⟨hagrees, hhead, -⟩
      refine agrees_account hagrees hhead ?_
      rw [Checker.feed_outerClose rfl rfl hclose]
      obtain ⟨_, _, _, _, _, ⟨_ | _, _⟩, _, _⟩ := descent <;> rfl
    · refine ensures_orLeave (ensures_expression.mono ?_ (fun _ _ => id) fun _ => id)
      rintro descent ⟨hagrees, hhead, hlayout⟩
      have hnext := significant_head hhead (hlayout token rfl)
      refine ⟨hagrees, fun other hother => ?_, fun _ hnil => by simp [hnil] at hnext⟩
      rw [hnext] at hother
      obtain rfl := Option.some.inj hother
      cases h : token.kind <;> simp_all [Checker.absorb, checker, Checker.between]

/-- A program is never given up. -/
theorem ensures_program :
    Ensures (·.Agrees all .item) program
      (fun _ descent => descent.found = all) (fun _ => False) :=
  Turn.ensures_loop ensures_itemTurn

theorem agrees_ofTokens (tokens : List Token) :
    (ofTokens tokens).Agrees (problems tokens) .item := by
  have hsignificant : significant (tokens.filter (·.kind ≠ .whitespace)) = significant tokens := by
    rw [significant, List.filter_filter]
    refine List.filter_congr fun token _ => ?_
    cases token.kind <;> rfl
  have hrest : (ofTokens tokens).rest = tokens.filter (·.kind ≠ .whitespace) := rfl
  rw [Agrees, outcome, problems_eq_problemsFrom, ← hsignificant, Checker.problemsFrom_significant,
    hrest]
  rfl

/-- Descent finds the problems of a check. -/
theorem program_finds (tokens : List Token) :
    ∃ final, program (ofTokens tokens) = .ok () final ∧ final.found = problems tokens := by
  have hend := ensures_program (ofTokens tokens) (agrees_ofTokens tokens)
  split at hend
  next _ final hrun => exact ⟨final, hrun, hend⟩
  next => exact hend.elim

end Descent

end CurriedLambda
