import CurriedLambda.Proofs.Concatenation
import CurriedLambda.Proofs.Programs

/-!
Names in one expression of a check. The parameters are the identifiers that are read where
one is expected, and the references those that are read as operands, directly or at the end
of a recovery; skipped ones are neither. All parameters come before the first reference, so
a reference is compared with the whole list, and when the expression ends, each parameter is
compared with all references.
-/
namespace CurriedLambda

/-- Whether an expression in this phase has still to read its arrow. -/
def Phase.precedesArrow : Phase → Bool
  | item | lambda | parameter => true
  | _ => false

theorem Phase.precedesArrow_arguments (count : Nat) :
    (Phase.arguments count).precedesArrow = false := by
  cases count <;> rfl

namespace Checker

variable {checker next : Checker} {token : Token} {tokens parameters references : List Token}
  {found reported : List Problem} {problem : Problem}

/-- The token, if it is an identifier that is read where just this is expected. -/
def nameRead (expected : Expected) (checker : Checker) (token : Token) : List Token :=
  if checker.expected = expected ∧ token.kind = .identifier then [token] else []

/-- The identifiers among these tokens that are read where just this is expected. -/
def namesRead (expected : Expected) (checker : Checker) : List Token → List Token
  | [] => []
  | token :: rest =>
    checker.nameRead expected token ++ namesRead expected (checker.feed token).1 rest

theorem namesRead_concat (expected : Expected) (checker : Checker) (tokens : List Token)
    (token : Token) :
    checker.namesRead expected (tokens ++ [token]) =
      checker.namesRead expected tokens ++
        (checker.feedAll tokens).1.nameRead expected token := by
  induction tokens generalizing checker with
  | nil => simp [namesRead]
  | cons first rest ih =>
    rw [List.cons_append, namesRead, ih, namesRead, feedAll_cons, List.append_assoc]

theorem nameRead_of_expected {expected : Expected} (h : checker.expected ≠ expected) :
    checker.nameRead expected token = [] :=
  if_neg fun hread => h hread.1

theorem nameRead_of_kind (expected : Expected) (h : token.kind ≠ .identifier) :
    checker.nameRead expected token = [] :=
  if_neg fun hread => h hread.2

/-- A name is not read where it is refused. -/
theorem nameRead_of_refuses {expected : Expected} (haccepts : expected.accepts .identifier = true)
    (hrefuses : checker.expected.accepts token.kind = false) :
    checker.nameRead expected token = [] := by
  apply if_neg
  intro hread
  rw [hread.1, hread.2, haccepts] at hrefuses
  cases hrefuses

/-- The problem is about no name. -/
def NoName (problem : Problem) : Prop :=
  problem.code ≠ .unknownName ∧ problem.code ≠ .unusedParameter

theorem noName_of_mem_close {brackets : Brackets} (h : problem ∈ (brackets.close token).2) :
    NoName problem := by
  rw [Brackets.mem_close h]
  exact ⟨Code.noConfusion, Code.noConfusion⟩

theorem noName_of_mem_skip {brackets : Brackets} (h : problem ∈ (brackets.skip tokens).2) :
    NoName problem := by
  obtain ⟨bracket, -, -, rfl⟩ := Brackets.mem_skip h
  exact ⟨Code.noConfusion, Code.noConfusion⟩

theorem noName_of_mem_recovery
    (h : problem ∈ checker.skipping ++ (checker.brackets.skip checker.skipped).2) :
    NoName problem := by
  rcases List.mem_append.mp h with hskipping | hskip
  · rw [NoName, code_skipping hskipping]
    exact ⟨Code.noConfusion, Code.noConfusion⟩
  · exact noName_of_mem_skip hskip

theorem noName_of_mem_finish {last : Option Token} (h : problem ∈ checker.finish last) :
    NoName problem := by
  unfold finish at h
  split at h
  · rcases List.mem_cons.mp h with rfl | hskip
    · exact ⟨Code.noConfusion, Code.noConfusion⟩
    · exact noName_of_mem_skip hskip
  · split at h
    · cases h
    · rw [List.mem_singleton.mp h]
      exact ⟨Code.noConfusion, Code.noConfusion⟩

/-- From the arrow on, an expression does not come back to its parameters. -/
theorem precedesArrow_of_take (hgoes : (checker.take token).1.phase ≠ .item)
    (h : (checker.take token).1.phase.precedesArrow = true) :
    checker.phase.precedesArrow = true := by
  cases hphase : checker.phase with
  | item | lambda | parameter => rfl
  | arrow => simp [take, hphase, Phase.precedesArrow] at h
  | argument => simp [take, hphase, Phase.precedesArrow_arguments] at h
  | terminator => exact absurd (by simp only [take, hphase]; rfl) hgoes
  | operand | group =>
    simp only [take, hphase] at h
    split at h <;> cases h
  | operator =>
    simp only [take, hphase] at h
    split at h
    · rw [Phase.precedesArrow_arguments] at h
      cases h
    · cases h

theorem Absorbs.noName {result : Checker × List Problem} (h : checker.Absorbs token result) :
    ∀ problem ∈ result.2, NoName problem := by
  intro problem hproblem
  rcases h.eq_of_mem hproblem with rfl | rfl <;> exact ⟨Code.noConfusion, Code.noConfusion⟩

theorem Absorbs.kind_ne {result : Checker × List Problem} (h : checker.Absorbs token result) :
    token.kind ≠ .identifier := by
  intro hname
  cases h <;> simp_all

theorem Absorbs.phase_eq_item_iff {result : Checker × List Problem}
    (h : checker.Absorbs token result) : result.1.phase = .item ↔ checker.phase = .item := by
  cases h with
  | separator | outerClose | misplaced | endGroup => exact Iff.rfl
  | group hphase => rcases hphase with hphase | hphase <;> simp [hphase]
  | sign hphase => simp [hphase]

/-- What an expression under way has read and reported of names. -/
structure Resolving (parameters references : List Token) (found : List Problem)
    (checker : Checker) : Prop where
  kept : checker.phase ≠ .item →
    checker.parameters = parameters ∧ checker.references = references.reverse
  parameters_nil : checker.phase = .item → parameters = []
  references_nil : checker.phase.precedesArrow = true → references = []
  unknown : found.filter (·.code = .unknownName) = unknownNames parameters references
  unused : ∀ problem ∈ found, problem.code ≠ .unusedParameter

namespace Resolving

theorem filter_append (h : checker.Resolving parameters references found)
    (hreported : ∀ problem ∈ reported, NoName problem) :
    (found ++ reported).filter (·.code = .unknownName) = unknownNames parameters references ∧
      ∀ problem ∈ found ++ reported, problem.code ≠ .unusedParameter := by
  have hnone : reported.filter (·.code = .unknownName) = [] := by
    apply List.filter_eq_nil_iff.mpr
    intro problem hproblem
    simpa using (hreported problem hproblem).1
  constructor
  · rw [List.filter_append, hnone, List.append_nil, h.unknown]
  · intro problem hproblem
    rcases List.mem_append.mp hproblem with hold | hnew
    · exact h.unused problem hold
    · exact (hreported problem hnew).2

/-- A state that goes on with the same names. -/
theorem goesOn (h : checker.Resolving parameters references found)
    (hparameters : next.parameters = checker.parameters)
    (hreferences : next.references = checker.references)
    (hitem : next.phase = .item ↔ checker.phase = .item)
    (harrow : next.phase.precedesArrow = true → checker.phase.precedesArrow = true)
    (hreported : ∀ problem ∈ reported, NoName problem) :
    next.Resolving parameters references (found ++ reported) where
  kept hphase := by
    rw [hparameters, hreferences]
    exact h.kept fun heq => hphase (hitem.mpr heq)
  parameters_nil hphase := h.parameters_nil (hitem.mp hphase)
  references_nil hphase := h.references_nil (harrow hphase)
  unknown := (h.filter_append hreported).1
  unused := (h.filter_append hreported).2

theorem of_absorbs {result : Checker × List Problem}
    (h : checker.Resolving parameters references found) (habsorbs : checker.Absorbs token result)
    (hphase : checker.phase ≠ .item) :
    result.1.Resolving parameters references (found ++ result.2) := by
  have hnames := habsorbs.noName
  cases habsorbs with
  | separator hitem => exact absurd hitem hphase
  | outerClose hitem => exact absurd hitem hphase
  | misplaced => exact h.goesOn rfl rfl Iff.rfl id hnames
  | endGroup => exact h.goesOn rfl rfl Iff.rfl id hnames
  | group => exact h.goesOn rfl rfl (by simp [hphase]) (by intro hfalse; cases hfalse) hnames
  | sign => exact h.goesOn rfl rfl (by simp [hphase]) (by intro hfalse; cases hfalse) hnames

/-- A name that is declared. No operand has been read before. -/
theorem declare (h : checker.Resolving parameters references found)
    (hphase : checker.phase = .parameter) (token : Token) :
    { checker with
      phase := .parameter
      parameters := checker.parameters ++ [token] }.Resolving
        (parameters ++ [token]) references found where
  kept _ := by
    obtain ⟨hparameters, hreferences⟩ := h.kept (by simp [hphase])
    exact ⟨congrArg (· ++ [token]) hparameters, hreferences⟩
  parameters_nil hitem := by cases hitem
  references_nil _ := h.references_nil (by rw [hphase]; rfl)
  unknown := by
    have hunknown := h.unknown
    rw [h.references_nil (by rw [hphase]; rfl)] at hunknown ⊢
    exact hunknown
  unused := h.unused

/-- A name that is read as an operand. -/
theorem refer (h : checker.Resolving parameters references found)
    (hphase : checker.phase ≠ .item) (first : Bool) (token : Token) :
    { checker with
      phase := .operator first
      references := token :: checker.references }.Resolving
        parameters (references ++ [token])
        (found ++
          if names checker.parameters token.text then [] else [Problem.unknownName token]) where
  kept _ := by
    obtain ⟨hparameters, hreferences⟩ := h.kept hphase
    refine ⟨hparameters, ?_⟩
    rw [List.reverse_append, ← hreferences]
    rfl
  parameters_nil hitem := by cases hitem
  references_nil hbefore := by cases hbefore
  unknown := by
    rw [List.filter_append, h.unknown, unknownNames_append, (h.kept hphase).1]
    cases hnames : names parameters token.text <;> simp [unknownNames, hnames, Problem.code]
  unused := by
    intro problem hproblem
    rcases List.mem_append.mp hproblem with hold | hnew
    · exact h.unused problem hold
    · split at hnew
      · cases hnew
      · rw [List.mem_singleton.mp hnew]
        exact Code.noConfusion

/-- A token that is taken declares a parameter, refers to one, or is no name. -/
theorem take (h : checker.Resolving parameters references found)
    (haccepts : checker.expected.accepts token.kind = true)
    (hgoes : (checker.take token).1.phase ≠ .item) :
    (checker.take token).1.Resolving (parameters ++ checker.nameRead .parameter token)
      (references ++ checker.nameRead .operand token) (found ++ (checker.take token).2) := by
  by_cases hkind : token.kind = .identifier
  · have hread (expected : Expected) (hphase : checker.phase.expected = expected) :
        checker.nameRead expected token = [token] := if_pos ⟨hphase, hkind⟩
    have hother (expected : Expected) (hphase : checker.phase.expected ≠ expected) :
        checker.nameRead expected token = [] := nameRead_of_expected hphase
    cases hphase : checker.phase with
    | parameter =>
      have hparameter : checker.phase.expected = .parameter := congrArg Phase.expected hphase
      have hnoOperand : checker.phase.expected ≠ .operand := by
        rw [hparameter]
        exact Expected.noConfusion
      rw [hread .parameter hparameter, hother .operand hnoOperand]
      simp only [Checker.take, hphase, hkind, if_true, List.append_nil]
      exact h.declare hphase token
    | operand first | group first =>
      have hoperand : checker.phase.expected = .operand := congrArg Phase.expected hphase
      have hnoParameter : checker.phase.expected ≠ .parameter := by
        rw [hoperand]
        exact Expected.noConfusion
      rw [hread .operand hoperand, hother .parameter hnoParameter]
      simp only [Checker.take, hphase, hkind, if_true, List.append_nil]
      exact h.refer (by simp [hphase]) first token
    | operator first =>
      rw [expected, hphase, hkind] at haccepts
      cases first <;> cases haccepts
    | _ =>
      rw [expected, hphase, hkind] at haccepts
      cases haccepts
  · have harrow := precedesArrow_of_take hgoes
    have htakes := takes_take checker token
    rw [nameRead_of_kind _ hkind, nameRead_of_kind _ hkind, List.append_nil, List.append_nil]
    generalize checker.take token = result at hgoes harrow htakes
    cases htakes with
    | opening hphase =>
      obtain rfl := h.parameters_nil hphase
      obtain rfl := h.references_nil (by rw [hphase]; rfl)
      obtain ⟨hunknown, hunused⟩ := h.filter_append (List.forall_mem_nil NoName)
      exact ⟨fun _ => ⟨rfl, rfl⟩, fun _ => rfl, fun _ => rfl, hunknown, hunused⟩
    | parameter hphase hname => exact absurd hname hkind
    | name hphase hname => exact absurd hname hkind
    | endBody hphase =>
      exact h.goesOn rfl rfl (by simp [hphase, Phase.arguments_ne_item]) harrow
        fun _ => noName_of_mem_close
    | terminator => exact absurd rfl hgoes
    | leadsOn hphase hnext =>
      exact h.goesOn rfl rfl (by simp [hphase, hnext]) harrow (List.forall_mem_nil NoName)

/-- Reading a token that does not end the expression. -/
theorem feed (h : checker.Resolving parameters references found)
    (hgoes : (checker.feed token).1.phase = .item → (checker.feed token).1.skipped ≠ []) :
    (checker.feed token).1.Resolving (parameters ++ checker.nameRead .parameter token)
      (references ++ checker.nameRead .operand token) (found ++ (checker.feed token).2) := by
  have hnone (hparameter : checker.nameRead .parameter token = [])
      (hreference : checker.nameRead .operand token = []) {result : Checker × List Problem}
      (hresult : result.1.Resolving parameters references (found ++ result.2)) :
      result.1.Resolving (parameters ++ checker.nameRead .parameter token)
        (references ++ checker.nameRead .operand token) (found ++ result.2) := by
    rwa [hparameter, hreference, List.append_nil, List.append_nil]
  have hstep := step_feed checker token
  generalize checker.feed token = result at hstep hgoes
  cases hstep with
  | layout hlayout =>
    have hkind : token.kind ≠ .identifier := fun hkind => by simp [hkind, Kind.isLayout] at hlayout
    exact hnone (nameRead_of_kind _ hkind) (nameRead_of_kind _ hkind)
      (h.goesOn rfl rfl Iff.rfl id (List.forall_mem_nil NoName))
  | absorbs hskipped habsorb =>
    have habsorbs := absorbs_of_absorb habsorb
    have hphase : checker.phase ≠ .item := fun hitem =>
      hgoes (habsorbs.phase_eq_item_iff.mpr hitem) (habsorbs.skipped_eq.trans hskipped)
    exact hnone (nameRead_of_kind _ habsorbs.kind_ne) (nameRead_of_kind _ habsorbs.kind_ne)
      (h.of_absorbs habsorbs hphase)
  | takes habsorb haccepts =>
    have hnext : (checker.resumed.take token).1.phase ≠ .item := fun hitem =>
      hgoes hitem ((takes_take checker.resumed token).skipped_eq_nil rfl)
    have hresumed : checker.resumed.Resolving parameters references
        (found ++ (checker.skipping ++ (checker.brackets.skip checker.skipped).2)) :=
      h.goesOn rfl rfl Iff.rfl id fun _ => noName_of_mem_recovery
    rw [← List.append_assoc]
    exact hresumed.take haccepts hnext
  | skips hlayout habsorb hrefuses =>
    exact hnone (nameRead_of_refuses rfl hrefuses) (nameRead_of_refuses rfl hrefuses)
      (h.goesOn rfl rfl Iff.rfl id (List.forall_mem_nil NoName))

theorem feedAll (h : checker.Resolving parameters references found)
    (hgoes : ∀ early late, tokens = early ++ late → early ≠ [] →
      (checker.feedAll early).1.phase = .item → (checker.feedAll early).1.skipped ≠ []) :
    (checker.feedAll tokens).1.Resolving (parameters ++ checker.namesRead .parameter tokens)
      (references ++ checker.namesRead .operand tokens)
      (found ++ (checker.feedAll tokens).2) := by
  induction tokens generalizing checker parameters references found with
  | nil => simpa [namesRead] using h
  | cons token rest ih =>
    have hnext := h.feed (hgoes [token] rest rfl (by simp))
    have hrest := ih hnext fun early late heq hne => by
      have hearly := hgoes (token :: early) late (by rw [heq]; rfl) (by simp)
      exact hearly
    rw [feedAll_cons, namesRead, namesRead]
    simpa only [List.append_assoc] using hrest

/-- The token that ends the expression reports each parameter that no reference names. -/
theorem terminate (h : checker.Resolving parameters references found)
    (hphase : checker.phase ≠ .item) (hends : (checker.feed token).1.phase = .item) :
    checker.nameRead .parameter token = [] ∧ checker.nameRead .operand token = [] ∧
      ∃ others, (checker.feed token).2 = others ++ unusedParameters parameters references ∧
        ∀ problem ∈ others, NoName problem := by
  have hstep := step_feed checker token
  generalize checker.feed token = result at hstep hends
  cases hstep with
  | layout => exact absurd hends hphase
  | skips => exact absurd hends hphase
  | absorbs _ habsorb =>
    exact absurd ((absorbs_of_absorb habsorb).phase_eq_item_iff.mp hends) hphase
  | takes =>
    have htakes := takes_take checker.resumed token
    generalize checker.resumed.take token = taken at htakes hends
    cases htakes with
    | opening hitem => exact absurd hitem hphase
    | parameter => exact absurd hends hphase
    | name => cases hends
    | endBody => exact absurd hends (Phase.arguments_ne_item _)
    | leadsOn _ hnext => exact absurd hends hnext
    | terminator hterminator =>
      have hother {expected : Expected} (hne : Phase.terminator.expected ≠ expected) :
          checker.nameRead expected token = [] := by
        apply nameRead_of_expected
        rwa [Checker.expected, show checker.phase = .terminator from hterminator]
      refine ⟨hother (by decide), hother (by decide),
        checker.skipping ++ (checker.brackets.skip checker.skipped).2, ?_,
        fun _ => noName_of_mem_recovery⟩
      obtain ⟨hparameters, hreferences⟩ := h.kept hphase
      have hnames (text : String) : names references.reverse text = names references text :=
        List.any_reverse
      simp only [Checker.unused, resumed, hparameters, hreferences, hnames, unusedParameters]

end Resolving

theorem resolving_of_item (hphase : checker.phase = .item) : checker.Resolving [] [] [] :=
  ⟨fun hne => absurd hphase hne, fun _ => rfl, fun _ => rfl, rfl, List.forall_mem_nil _⟩

/-- The token is none that is passed over between expressions. -/
def StartsExpression (token : Token) : Prop :=
  token.kind.isLayout = false ∧ token.kind ≠ .semicolon ∧ token.kind ≠ .closeBracket

/-- No expression ends with the token that starts it, nor while the opening bracket is still
looked for. -/
theorem skipped_ne_nil_of_item (hphase : checker.phase = .item)
    (h : checker.skipped ≠ [] ∨ StartsExpression token)
    (hitem : (checker.feed token).1.phase = .item) : (checker.feed token).1.skipped ≠ [] := by
  have hstep := step_feed checker token
  generalize checker.feed token = result at hstep hitem
  cases hstep with
  | layout hlayout => exact h.resolve_right fun hstart => by simp [hstart.1] at hlayout
  | absorbs hskipped habsorb =>
    have hstart := h.resolve_left fun hne => hne hskipped
    cases absorbs_of_absorb habsorb with
    | separator _ hkind => exact absurd hkind hstart.2.1
    | outerClose _ hkind => exact absurd hkind hstart.2.2
    | _ => simp_all
  | takes =>
    have hopening : (checker.resumed.take token).1.phase = .lambda := by
      simp only [take, resumed, hphase]
    rw [hopening] at hitem
    cases hitem
  | skips => simp

instance (tokens : List Token) : Decidable (EndsBetween tokens) :=
  inferInstanceAs (Decidable (_ ∧ _))

instance (token : Token) : Decidable (StartsExpression token) :=
  inferInstanceAs (Decidable (_ ∧ _))

/-- One expression is read from the tokens `call`, after `before`. It ends with the token after
which the check stands between expressions again, or early, with all tokens. -/
structure IsExpression (tokens before call : List Token) : Prop where
  between : EndsBetween before
  starts : ∃ first ∈ call.head?, StartsExpression first
  goesOn : ∀ count < call.length, 0 < count → ¬ EndsBetween (before ++ call.take count)
  ends : before ++ call <+: tokens ∧ EndsBetween (before ++ call) ∨ before ++ call = tokens

/-- What is reported while these tokens are read after `before`, and if the check ends early
with them, at the end of all tokens. -/
def reportedIn (tokens before call : List Token) : List Problem :=
  (after before).problemsFrom (tokens.filter (·.kind ≠ .whitespace)).getLast? call

theorem reportedIn_of_ends {before call : List Token} (hends : EndsBetween (before ++ call)) :
    reportedIn tokens before call = ((after before).feedAll call).2 := by
  rw [EndsBetween, after_append] at hends
  rw [reportedIn, problemsFrom_eq_feedAll, finish_of_item hends.1 hends.2, List.append_nil]

namespace IsExpression

variable {before call : List Token}

theorem goesOn_of_append (h : IsExpression tokens before call) {early late : List Token}
    (hcall : call = early ++ late) (hearly : early ≠ []) (hlate : late ≠ []) :
    ((after before).feedAll early).1.phase = .item →
      ((after before).feedAll early).1.skipped ≠ [] := by
  have hlt : early.length < call.length := by
    have hpos := List.length_pos_iff.mpr hlate
    rw [hcall, List.length_append]
    omega
  have hgoes := h.goesOn early.length hlt (List.length_pos_iff.mpr hearly)
  rw [hcall, List.take_left, EndsBetween, after_append] at hgoes
  exact fun hphase hskipped => hgoes ⟨hphase, hskipped⟩

/-- The run up to the last token that the expression needs. -/
theorem resolving (h : IsExpression tokens before call) {early late : List Token}
    (hcall : call = early ++ late) (hlate : late ≠ [] ∨ ¬ EndsBetween (before ++ call)) :
    ((after before).feedAll early).1.Resolving ((after before).namesRead .parameter early)
      ((after before).namesRead .operand early) ((after before).feedAll early).2 := by
  have hstart := resolving_of_item h.between.1
  refine hstart.feedAll fun first second heq hfirst => ?_
  by_cases hsecond : second ++ late = []
  · obtain ⟨rfl, rfl⟩ := List.append_eq_nil_iff.mp hsecond
    have hearly := hlate.resolve_left fun hne => hne rfl
    rw [hcall, heq, List.append_nil, List.append_nil, EndsBetween, after_append] at hearly
    exact fun hphase hskipped => hearly ⟨hphase, hskipped⟩
  · exact h.goesOn_of_append (by rw [hcall, heq, List.append_assoc]) hfirst hsecond

/-- Between its first and its last token an expression is not back where it started. -/
theorem phase_ne_item (h : IsExpression tokens before call) {early : List Token} {token : Token}
    (hcall : call = early ++ [token]) (hends : EndsBetween (before ++ call)) :
    ((after before).feedAll early).1.phase ≠ .item := by
  intro hitem
  rw [hcall, EndsBetween, after_append, feedAll_append] at hends
  refine skipped_ne_nil_of_item hitem ?_ hends.1 hends.2
  by_cases hearly : early = []
  · obtain ⟨first, hfirst, hstart⟩ := h.starts
    rw [hcall, hearly] at hfirst
    cases hfirst
    exact .inr hstart
  · exact .inl (h.goesOn_of_append hcall hearly (by simp) hitem)

theorem names_of_ends (h : IsExpression tokens before call)
    (hends : EndsBetween (before ++ call)) :
    ∃ others, reportedIn tokens before call = others ++
        unusedParameters ((after before).namesRead .parameter call)
          ((after before).namesRead .operand call) ∧
      others.filter (·.code = .unknownName) =
        unknownNames ((after before).namesRead .parameter call)
          ((after before).namesRead .operand call) ∧
      ∀ problem ∈ others, problem.code ≠ .unusedParameter := by
  obtain ⟨first, hfirst, -⟩ := h.starts
  obtain rfl | ⟨early, token, rfl⟩ := List.eq_nil_or_concat' call
  · cases hfirst
  have hresolving := h.resolving rfl (.inl (List.cons_ne_nil token []))
  have hphase := h.phase_ne_item rfl hends
  rw [reportedIn_of_ends hends, feedAll_append]
  rw [EndsBetween, after_append, feedAll_append] at hends
  obtain ⟨hparameter, hreference, others, hreported, hothers⟩ :=
    hresolving.terminate hphase hends.1
  rw [namesRead_concat, namesRead_concat, hparameter, hreference, List.append_nil, List.append_nil]
  obtain ⟨hunknown, hunused⟩ := hresolving.filter_append hothers
  refine ⟨((after before).feedAll early).2 ++ others, ?_, hunknown, hunused⟩
  rw [List.append_assoc, ← hreported, feedAll_cons]
  simp

theorem names_of_not_ends (h : IsExpression tokens before call)
    (hends : ¬ EndsBetween (before ++ call)) :
    (reportedIn tokens before call).filter (·.code = .unknownName) =
        unknownNames ((after before).namesRead .parameter call)
          ((after before).namesRead .operand call) ∧
      ∀ problem ∈ reportedIn tokens before call, problem.code ≠ .unusedParameter := by
  rw [reportedIn, problemsFrom_eq_feedAll]
  exact (h.resolving (List.append_nil call).symm (.inr hends)).filter_append
    fun _ => noName_of_mem_finish

/-- What the tokens before the expression and those of the expression cause comes first. -/
theorem reportedIn_prefix (h : IsExpression tokens before call) :
    (initial.feedAll before).2 ++ reportedIn tokens before call <+: problems tokens := by
  rcases h.ends with ⟨⟨later, rfl⟩, hends⟩ | rfl
  · rw [reportedIn_of_ends hends, List.append_assoc, problems_append_eq, problemsFrom_append,
      ← List.append_assoc]
    exact List.prefix_append _ _
  · rw [problems_append_eq]
    exact List.prefix_rfl

end IsExpression

/-- In every expression of a check the unknown names that are reported are exactly the
references that name no parameter, in their order. When the expression has ended, the
parameters that no reference names are reported, in their order and after all else; if it
ends early, none is. -/
theorem expression_names {tokens before call : List Token}
    (h : IsExpression tokens before call) :
    let parameters := (after before).namesRead .parameter call
    let references := (after before).namesRead .operand call
    let reported := (reportedIn tokens before call).map Problem.toDiagnostic
    (initial.feedAll before).2.map Problem.toDiagnostic ++ reported <+: diagnose tokens ∧
    reported.filter (·.code = .unknownName) =
      (unknownNames parameters references).map Problem.toDiagnostic ∧
    (EndsBetween (before ++ call) → ∃ others,
      reported = others ++ (unusedParameters parameters references).map Problem.toDiagnostic ∧
        ∀ other ∈ others, other.code ≠ .unusedParameter) ∧
    (¬ EndsBetween (before ++ call) → ∀ other ∈ reported, other.code ≠ .unusedParameter) := by
  intro parameters references reported
  have hdiagnostics (problems : List Problem) (code : Code) :
      (problems.map Problem.toDiagnostic).filter (·.code = code) =
        (problems.filter (·.code = code)).map Problem.toDiagnostic :=
    List.filter_map
  have hcode {problems : List Problem}
      (hunused : ∀ problem ∈ problems, problem.code ≠ .unusedParameter) :
      ∀ diagnostic ∈ problems.map Problem.toDiagnostic, diagnostic.code ≠ .unusedParameter :=
    List.forall_mem_map.mpr hunused
  refine ⟨?_, ?_, fun hends => ?_, fun hends => hcode (h.names_of_not_ends hends).2⟩
  · rw [← List.map_append]
    exact h.reportedIn_prefix.map _
  · rw [hdiagnostics]
    congr 1
    by_cases hends : EndsBetween (before ++ call)
    · obtain ⟨others, hreported, hunknown, -⟩ := h.names_of_ends hends
      have hnone : (unusedParameters parameters references).filter (·.code = .unknownName) = [] :=
        List.filter_eq_nil_iff.mpr (List.forall_mem_map.mpr fun _ _ => by simp [Problem.code])
      rw [hreported, List.filter_append, hnone, List.append_nil, hunknown]
    · exact (h.names_of_not_ends hends).1
  · obtain ⟨others, hreported, -, hunused⟩ := h.names_of_ends hends
    refine ⟨others.map Problem.toDiagnostic, ?_, hcode hunused⟩
    rw [← List.map_append, ← hreported]

/-- In `(\z -> z + z) 1; (\x x w -> x + z 2 y * (1)) 1 2 3;` the second expression does not see
the `z` of the first. -/
theorem expression_names_of_second :
    let tokens := tokenize "(\\z -> z + z) 1; (\\x x w -> x + z 2 y * (1)) 1 2 3;"
    let reported := (reportedIn tokens (tokens.take 11) (tokens.drop 11)).map Problem.toDiagnostic
    IsExpression tokens (tokens.take 11) (tokens.drop 11) ∧
      reported.filter (·.code = .unknownName) =
        [⟨.unknownName, "name `z` does not exist in current context", .ofLength 32 1⟩] ∧
      ∃ others, reported =
          others ++ [⟨.unusedParameter, "unused parameter named `w`", .ofLength 23 1⟩] ∧
        ∀ other ∈ others, other.code ≠ .unusedParameter := by
  intro tokens reported
  have hexpression : IsExpression tokens (tokens.take 11) (tokens.drop 11) :=
    ⟨by decide +kernel, by decide +kernel, by decide +kernel,
      .inr (List.take_append_drop 11 tokens)⟩
  obtain ⟨-, hunknown, hunused, -⟩ := expression_names hexpression
  obtain ⟨others, hreported, hothers⟩ := hunused (by decide +kernel)
  refine ⟨hexpression, hunknown.trans (by decide +kernel), others, hreported.trans ?_, hothers⟩
  congr 1
  decide +kernel

end Checker

end CurriedLambda
