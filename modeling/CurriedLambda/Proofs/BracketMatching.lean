import CurriedLambda.Proofs.Lexing
import CurriedLambda.Proofs.Reading

/-!
The brackets of a text, matched one after the other by a stack. A check files the
brackets that it skips below those of the current expression, and gives up before the
text ends if nothing fits; yet only how many brackets are open decides which closing
ones find none, so that its reports are those of the plain stack.
-/
namespace CurriedLambda

/-- The brackets among tokens. -/
def bracketsOf (tokens : List Token) : List Token :=
  tokens.filter fun token => token.kind = .openBracket ∨ token.kind = .closeBracket

/-- The closing ones among brackets that find the stack of opening ones empty. -/
def unmatchedCloses : List Token → List Token → List Token
  | _, [] => []
  | stack, bracket :: rest =>
    if bracket.kind = .openBracket then unmatchedCloses (bracket :: stack) rest
    else
      match stack with
      | [] => bracket :: unmatchedCloses [] rest
      | _ :: outer => unmatchedCloses outer rest

/-- The closing brackets of a text that its check reports as misplaced. -/
def misplacedBrackets (text : String) : List Token :=
  (tokenize text).filter fun token =>
    token.kind = .closeBracket ∧
      ∃ diagnostic ∈ check text,
        diagnostic.code = .misplacedClose ∧ diagnostic.span.start = token.start

/-- The closing brackets of a text that find the stack empty when the misplaced ones are
left out. -/
def unpairedBrackets (text : String) : List Token :=
  unmatchedCloses [] ((bracketsOf (tokenize text)).filter (· ∉ misplacedBrackets text))

/-- From `depth` open brackets on, the brackets lead to `after` open ones, and the
problems report those that close nothing. Misplaced ones leave the open ones alone, and
problems of another kind may stand anywhere but between the two of a misplaced one. -/
inductive Matching : Nat → List Token → List Problem → Nat → Prop
  | nil {depth : Nat} : Matching depth [] [] depth
  | opening {depth after : Nat} {token : Token} {tokens : List Token} {problems : List Problem}
      (hkind : token.kind = .openBracket) (h : Matching (depth + 1) tokens problems after) :
      Matching depth (token :: tokens) problems after
  | closing {depth after : Nat} {token : Token} {tokens : List Token} {problems : List Problem}
      (hkind : token.kind = .closeBracket) (h : Matching depth tokens problems after) :
      Matching (depth + 1) (token :: tokens) problems after
  | unmatched {after : Nat} {token : Token} {tokens : List Token} {problems : List Problem}
      (hkind : token.kind = .closeBracket) (h : Matching 0 tokens problems after) :
      Matching 0 (token :: tokens) (.unmatchedClose token :: problems) after
  | misplaced {depth after : Nat} {token : Token} {tokens : List Token}
      {problems : List Problem}
      (hkind : token.kind = .closeBracket) (h : Matching depth tokens problems after) :
      Matching depth (token :: tokens)
        (.unmatchedClose token :: .misplacedClose token :: problems) after
  | problem {depth after : Nat} {tokens : List Token} {problem : Problem}
      {problems : List Problem}
      (hunmatched : problem.code ≠ .unmatchedClose) (hmisplaced : problem.code ≠ .misplacedClose)
      (h : Matching depth tokens problems after) :
      Matching depth tokens (problem :: problems) after

section Tokens

variable {tokens : List Token} {token : Token}

theorem bracketsOf_append (first second : List Token) :
    bracketsOf (first ++ second) = bracketsOf first ++ bracketsOf second :=
  List.filter_append ..

theorem bracketsOf_cons_bracket
    (hkind : token.kind = .openBracket ∨ token.kind = .closeBracket) :
    bracketsOf (token :: tokens) = token :: bracketsOf tokens := by
  simp [bracketsOf, hkind]

theorem bracketsOf_cons_other (hopen : token.kind ≠ .openBracket)
    (hclose : token.kind ≠ .closeBracket) :
    bracketsOf (token :: tokens) = bracketsOf tokens := by
  simp [bracketsOf, hopen, hclose]

theorem bracketsOf_cons_layout (hlayout : token.kind.isLayout = true) :
    bracketsOf (token :: tokens) = bracketsOf tokens := by
  apply bracketsOf_cons_other
  all_goals
    intro hkind
    simp [hkind, Kind.isLayout] at hlayout

theorem bracketsOf_significant (tokens : List Token) :
    bracketsOf (significant tokens) = bracketsOf tokens := by
  induction tokens with
  | nil => rfl
  | cons token rest ih =>
    cases hlayout : token.kind.isLayout with
    | true => rw [significant_cons_layout hlayout, ih, bracketsOf_cons_layout hlayout]
    | false =>
      rw [significant_cons hlayout, ← List.singleton_append, bracketsOf_append, ih,
        ← bracketsOf_append, List.singleton_append]

theorem unmatchedCloses_opening (hkind : token.kind = .openBracket) (stack : List Token) :
    unmatchedCloses stack (token :: tokens) = unmatchedCloses (token :: stack) tokens := by
  simp [unmatchedCloses, hkind]

theorem unmatchedCloses_unmatched (hkind : token.kind = .closeBracket) :
    unmatchedCloses [] (token :: tokens) = token :: unmatchedCloses [] tokens := by
  simp [unmatchedCloses, hkind]

theorem unmatchedCloses_closing (hkind : token.kind = .closeBracket) (opening : Token)
    (outer : List Token) :
    unmatchedCloses (opening :: outer) (token :: tokens) = unmatchedCloses outer tokens := by
  simp [unmatchedCloses, hkind]

theorem mem_unmatchedCloses {stack brackets : List Token} {bracket : Token}
    (h : bracket ∈ unmatchedCloses stack brackets) :
    bracket ∈ brackets ∧ bracket.kind ≠ .openBracket := by
  induction brackets generalizing stack with
  | nil => simp [unmatchedCloses] at h
  | cons first rest ih =>
    unfold unmatchedCloses at h
    split_ifs at h with hopen
    · exact (ih h).imp_left (List.mem_cons_of_mem _)
    · cases stack with
      | nil =>
        rcases List.mem_cons.mp h with rfl | h
        · exact ⟨List.mem_cons_self, hopen⟩
        · exact (ih h).imp_left (List.mem_cons_of_mem _)
      | cons opening outer => exact (ih h).imp_left (List.mem_cons_of_mem _)

end Tokens

/-- The brackets that are misplaced, and those that find the stack empty when the
misplaced ones are left out. -/
def surplusCloses (misplaced : Token → Prop) [DecidablePred misplaced]
    (stack brackets : List Token) : List Token :=
  brackets.filter fun bracket => misplaced bracket ∨
    bracket ∈ unmatchedCloses stack (brackets.filter (¬ misplaced ·))

section Surplus

variable {misplaced : Token → Prop} [DecidablePred misplaced] {bracket : Token}
  {stack rest : List Token}

theorem surplusCloses_paired {left : List Token} (hplaced : ¬ misplaced bracket)
    (hfresh : bracket ∉ rest)
    (hpaired : ∀ {others : List Token},
      unmatchedCloses stack (bracket :: others) = unmatchedCloses left others) :
    surplusCloses misplaced stack (bracket :: rest) = surplusCloses misplaced left rest := by
  have hfilter : (bracket :: rest).filter (¬ misplaced ·) =
      bracket :: rest.filter (¬ misplaced ·) :=
    List.filter_cons_of_pos (by simpa using hplaced)
  have hmatched : bracket ∉ unmatchedCloses left (rest.filter (¬ misplaced ·)) := fun hmem =>
    hfresh (List.mem_filter.mp (mem_unmatchedCloses hmem).1).1
  rw [surplusCloses, hfilter, hpaired,
    List.filter_cons_of_neg (by simpa [hplaced] using hmatched)]
  rfl

theorem surplusCloses_unmatched (hplaced : ¬ misplaced bracket) (hfresh : bracket ∉ rest)
    (hkind : bracket.kind = .closeBracket) :
    surplusCloses misplaced [] (bracket :: rest) =
      bracket :: surplusCloses misplaced [] rest := by
  have hfilter : (bracket :: rest).filter (¬ misplaced ·) =
      bracket :: rest.filter (¬ misplaced ·) :=
    List.filter_cons_of_pos (by simpa using hplaced)
  rw [surplusCloses, hfilter, unmatchedCloses_unmatched hkind,
    List.filter_cons_of_pos (by simp)]
  refine congrArg (bracket :: ·) (List.filter_congr fun other hother => ?_)
  have hne : other ≠ bracket := ne_of_mem_of_not_mem hother hfresh
  simp [hne]

theorem surplusCloses_misplaced (hmisplaced : misplaced bracket) :
    surplusCloses misplaced stack (bracket :: rest) =
      bracket :: surplusCloses misplaced stack rest := by
  have hfilter : (bracket :: rest).filter (¬ misplaced ·) = rest.filter (¬ misplaced ·) :=
    List.filter_cons_of_neg (by simpa using hmisplaced)
  rw [surplusCloses, hfilter, List.filter_cons_of_pos (by simp [hmisplaced])]
  rfl

end Surplus

/-- A filed bracket counts as open, wherever it is filed. -/
theorem Brackets.length_opened_file (brackets : Brackets) (bracket : Token) :
    (brackets.file bracket).opened.length = brackets.opened.length + 1 := by
  rw [Brackets.file, List.length_insertIdx_of_le_length (Nat.sub_le _ _)]

/-- Where skipped brackets are filed does not matter for what is reported of them. -/
theorem Brackets.skip_eq_unmatchedCloses {brackets : Brackets} {stack : List Token}
    (h : stack.length = brackets.opened.length) (tokens : List Token) :
    (brackets.skip tokens).2 =
      (unmatchedCloses stack (bracketsOf tokens)).map .unmatchedClose := by
  induction tokens generalizing brackets stack with
  | nil => rfl
  | cons token rest ih =>
    by_cases hopen : token.kind = .openBracket
    · rw [bracketsOf_cons_bracket (.inl hopen), unmatchedCloses_opening hopen, skip]
      simp only [hopen]
      exact ih (by rw [length_opened_file, List.length_cons, h])
    · by_cases hclose : token.kind = .closeBracket
      · rw [bracketsOf_cons_bracket (.inr hclose), skip]
        simp only [hclose]
        obtain ⟨opened, base⟩ := brackets
        cases opened with
        | nil =>
          have hrest := @ih ⟨[], base⟩ [] rfl
          obtain rfl := List.length_eq_zero_iff.mp h
          rw [unmatchedCloses_unmatched hclose, List.map_cons, ← hrest]
          rfl
        | cons inner outer =>
          obtain ⟨opening, stack, rfl⟩ := List.exists_cons_of_length_eq_add_one h
          rw [unmatchedCloses_closing hclose]
          exact @ih ⟨outer, base⟩ stack (Nat.succ.inj h)
      · rw [bracketsOf_cons_other hopen hclose, ← ih h]
        cases hkind : token.kind <;> simp_all [skip]

namespace Matching

variable {depth middle after : Nat} {tokens : List Token} {problems : List Problem}

theorem append {more : List Token} {others : List Problem}
    (h : Matching depth tokens problems middle) (hmore : Matching middle more others after) :
    Matching depth (tokens ++ more) (problems ++ others) after := by
  induction h with
  | nil => exact hmore
  | opening hkind _ ih => exact .opening hkind (ih hmore)
  | closing hkind _ ih => exact .closing hkind (ih hmore)
  | unmatched hkind _ ih => exact .unmatched hkind (ih hmore)
  | misplaced hkind _ ih => exact .misplaced hkind (ih hmore)
  | problem hunmatched hmisplaced _ ih => exact .problem hunmatched hmisplaced (ih hmore)

theorem unusedParameters (h : Matching depth tokens [] after) (parameters : List Token) :
    Matching depth tokens (parameters.map .unusedParameter) after := by
  induction parameters with
  | nil => exact h
  | cons parameter rest ih => exact .problem (by simp [Problem.code]) (by simp [Problem.code]) ih

section Token

variable {token : Token}

theorem of_other (hopen : token.kind ≠ .openBracket) (hclose : token.kind ≠ .closeBracket) :
    Matching depth (bracketsOf [token]) [] depth := by
  rw [bracketsOf_cons_other hopen hclose]
  exact .nil

theorem of_opening (hkind : token.kind = .openBracket) :
    Matching depth (bracketsOf [token]) [] (depth + 1) := by
  rw [bracketsOf_cons_bracket (.inl hkind)]
  exact .opening hkind .nil

theorem of_misplaced (hkind : token.kind = .closeBracket) :
    Matching depth (bracketsOf [token]) [.unmatchedClose token, .misplacedClose token] depth := by
  rw [bracketsOf_cons_bracket (.inr hkind)]
  exact .misplaced hkind .nil

theorem of_close (hkind : token.kind = .closeBracket) (brackets : Brackets) :
    Matching brackets.opened.length (bracketsOf [token]) (brackets.close token).2
      (brackets.close token).1.opened.length := by
  rw [bracketsOf_cons_bracket (.inr hkind)]
  obtain ⟨opened, base⟩ := brackets
  cases opened with
  | nil => exact .unmatched hkind .nil
  | cons inner outer => exact .closing hkind .nil

end Token

theorem of_skip (brackets : Brackets) (tokens : List Token) :
    Matching brackets.opened.length (bracketsOf tokens) (brackets.skip tokens).2
      (brackets.skip tokens).1.opened.length := by
  induction tokens generalizing brackets with
  | nil => exact .nil
  | cons token rest ih =>
    rw [← List.singleton_append, bracketsOf_append]
    by_cases hopen : token.kind = .openBracket
    · have hskip : brackets.skip (token :: rest) = (brackets.file token).skip rest := by
        simp only [Brackets.skip, hopen]
      have hrest := ih (brackets.file token)
      rw [Brackets.length_opened_file] at hrest
      rw [List.singleton_append, hskip]
      exact (of_opening hopen).append hrest
    · by_cases hclose : token.kind = .closeBracket
      · have hskip : brackets.skip (token :: rest) =
            (((brackets.close token).1.skip rest).1,
              (brackets.close token).2 ++ ((brackets.close token).1.skip rest).2) := by
          simp only [Brackets.skip, hclose]
        rw [List.singleton_append, hskip]
        exact (of_close hclose brackets).append (ih _)
      · have hskip : brackets.skip (token :: rest) = brackets.skip rest := by
          cases hkind : token.kind <;> simp_all [Brackets.skip]
        rw [List.singleton_append, hskip]
        exact (of_other hopen hclose).append (ih brackets)

end Matching

namespace Checker

/-- A step settles its token if nothing is skipped after it and its problems are those of
the brackets among the tokens skipped before, with the token itself. -/
def Settles (checker : Checker) (token : Token) (result : Checker × List Problem) : Prop :=
  result.1.skipped = [] ∧
    Matching checker.brackets.opened.length (bracketsOf (checker.skipped ++ [token])) result.2
      result.1.brackets.opened.length

theorem settles_of_absorb {checker : Checker} {token : Token}
    {result : Checker × List Problem} (hskipped : checker.skipped = [])
    (h : checker.absorb token = some result) : checker.Settles token result := by
  obtain ⟨phase, parameters, references, brackets, skipped⟩ := checker
  subst hskipped
  unfold absorb at h
  split at h
  case h_1 hkind =>
    cases h
    exact ⟨rfl, .of_other (by simp [hkind]) (by simp [hkind])⟩
  case h_2 hkind =>
    cases h
    exact ⟨rfl, .of_close hkind brackets⟩
  case h_3 hkind =>
    cases h
    exact ⟨rfl, .of_misplaced hkind⟩
  case h_4 hkind | h_5 hkind =>
    cases h
    exact ⟨rfl, .of_opening hkind⟩
  case h_6 hkind =>
    split at h
    · cases h
      exact ⟨rfl, .of_close hkind brackets⟩
    · cases h
  case h_7 hkind | h_8 hkind =>
    cases h
    exact ⟨rfl, .of_other (by simp [hkind]) (by simp [hkind])⟩
  case h_9 => cases h

theorem settles_take {checker : Checker} {token : Token} (hskipped : checker.skipped = [])
    (haccepts : checker.expected.accepts token.kind = true) :
    checker.Settles token (checker.take token) := by
  obtain ⟨phase, parameters, references, brackets, skipped⟩ := checker
  subst hskipped
  have hkinds : token.kind ∈ phase.expected.kinds := of_decide_eq_true haccepts
  cases phase with
  | item => exact ⟨rfl, .of_opening (List.mem_singleton.mp hkinds)⟩
  | lambda =>
    have hkind : token.kind = .lambda := List.mem_singleton.mp hkinds
    exact ⟨rfl, .of_other (by simp [hkind]) (by simp [hkind])⟩
  | parameter =>
    have hkind : token.kind = .identifier ∨ token.kind = .minus := by
      simpa [Phase.expected, Expected.kinds] using hkinds
    unfold take
    rcases hkind with hkind | hkind
    · rw [if_pos hkind]
      exact ⟨rfl, .of_other (by simp [hkind]) (by simp [hkind])⟩
    · rw [if_neg (by simp [hkind])]
      exact ⟨rfl, .of_other (by simp [hkind]) (by simp [hkind])⟩
  | arrow =>
    have hkind : token.kind = .greater := List.mem_singleton.mp hkinds
    exact ⟨rfl, .of_other (by simp [hkind]) (by simp [hkind])⟩
  | operand first | group first =>
    have hkind : token.kind = .identifier ∨ token.kind = .integer ∨ token.kind = .float := by
      simpa [Phase.expected, Expected.kinds] using hkinds
    have hother : Matching brackets.opened.length (bracketsOf [token]) []
        brackets.opened.length := by
      apply Matching.of_other <;> rcases hkind with hkind | hkind | hkind <;> simp [hkind]
    simp only [take]
    by_cases hname : token.kind = .identifier
    · rw [if_pos hname]
      refine ⟨rfl, ?_⟩
      cases names parameters token.text with
      | true => exact hother
      | false => exact .problem (by simp [Problem.code]) (by simp [Problem.code]) hother
    · rw [if_neg hname]
      exact ⟨rfl, hother⟩
  | operator first =>
    unfold take
    by_cases hclose : token.kind = .closeBracket
    · rw [if_pos hclose]
      exact ⟨rfl, .of_close hclose brackets⟩
    · have hopen : token.kind ≠ .openBracket := by
        intro hopen
        cases first <;> simp [Phase.expected, Expected.kinds, hopen] at hkinds
      rw [if_neg hclose]
      exact ⟨rfl, .of_other hopen hclose⟩
  | argument further signed =>
    have hkind : token.kind = .integer ∨ token.kind = .float := by
      simpa [Phase.expected, Expected.kinds] using hkinds
    rcases hkind with hkind | hkind <;>
      exact ⟨rfl, .of_other (by simp [hkind]) (by simp [hkind])⟩
  | terminator =>
    have hkind : token.kind = .semicolon := List.mem_singleton.mp hkinds
    have hother : Matching brackets.opened.length (bracketsOf [token]) []
        brackets.opened.length := .of_other (by simp [hkind]) (by simp [hkind])
    exact ⟨rfl, hother.unusedParameters _⟩

/-- A token settles all that was skipped before it, or it is skipped as well. -/
theorem settles_meet_or_skips (checker : Checker) (token : Token) :
    checker.Settles token (checker.meet token) ∨
      checker.meet token = ({ checker with skipped := checker.skipped ++ [token] }, []) := by
  by_cases haccepts : checker.expected.accepts token.kind = true
  · left
    unfold meet
    rw [if_pos haccepts]
    obtain ⟨hsettled, htake⟩ :=
      @settles_take { checker with
        brackets := (checker.brackets.skip checker.skipped).1, skipped := [] } _ rfl haccepts
    refine ⟨hsettled, ?_⟩
    rw [bracketsOf_append]
    refine Matching.append ?_ htake
    have hskip := Matching.of_skip checker.brackets checker.skipped
    rw [skipping]
    split
    · exact hskip
    · exact .problem (by simp [Problem.code]) (by simp [Problem.code]) hskip
  · right
    simp [meet, haccepts]

theorem settles_feed_or_skips {token : Token} (hlayout : token.kind.isLayout = false)
    (checker : Checker) :
    checker.Settles token (checker.feed token) ∨
      checker.feed token = ({ checker with skipped := checker.skipped ++ [token] }, []) := by
  by_cases hskipped : checker.skipped = []
  · cases habsorb : checker.absorb token with
    | none =>
      rw [feed_eq_meet hlayout fun _ => habsorb]
      exact settles_meet_or_skips checker token
    | some result =>
      left
      rw [feed_of_absorb hskipped habsorb]
      exact settles_of_absorb hskipped habsorb
  · rw [feed_eq_meet hlayout fun hnil => absurd hnil hskipped]
    exact settles_meet_or_skips checker token

end Checker

namespace Matching

variable {depth after : Nat} {tokens : List Token} {problems : List Problem}

/-- No bracket is left out, whatever is skipped and wherever the tokens end. -/
theorem of_problemsFrom (last : Option Token) (checker : Checker) (tokens : List Token) :
    ∃ after, Matching checker.brackets.opened.length (bracketsOf (checker.skipped ++ tokens))
      (checker.problemsFrom last tokens) after := by
  induction tokens generalizing checker with
  | nil =>
    rw [List.append_nil, Checker.problemsFrom, Checker.finish]
    split
    · exact ⟨_, .problem (by simp [Problem.code]) (by simp [Problem.code])
        (of_skip checker.brackets checker.skipped)⟩
    · rename_i hskipped
      rw [hskipped]
      split
      · exact ⟨_, .nil⟩
      · exact ⟨_, .problem (by simp [Problem.code]) (by simp [Problem.code]) .nil⟩
  | cons token rest ih =>
    rw [Checker.problemsFrom]
    cases hlayout : token.kind.isLayout with
    | true =>
      rw [Checker.feed_layout hlayout, bracketsOf_append, bracketsOf_cons_layout hlayout,
        ← bracketsOf_append]
      exact ih checker
    | false =>
      rw [← List.singleton_append, ← List.append_assoc]
      rcases Checker.settles_feed_or_skips hlayout checker with ⟨hsettled, hfeed⟩ | hpending
      · obtain ⟨after, hrest⟩ := ih (checker.feed token).1
        rw [hsettled, List.nil_append] at hrest
        rw [bracketsOf_append]
        exact ⟨after, hfeed.append hrest⟩
      · -- A skipped token is still due: it goes over to the tokens skipped before it.
        rw [hpending]
        exact ih { checker with skipped := checker.skipped ++ [token] }

theorem of_problems (tokens : List Token) :
    ∃ after, Matching 0 (bracketsOf tokens) (CurriedLambda.problems tokens) after := by
  obtain ⟨after, h⟩ := of_problemsFrom
    (tokens.filter (·.kind ≠ .whitespace)).getLast? Checker.initial tokens
  rw [Checker.problemsFrom_eq_feedAll] at h
  exact ⟨after, h⟩

theorem mem_of_misplacedClose (h : Matching depth tokens problems after) {token : Token}
    (hmem : .misplacedClose token ∈ problems) :
    token ∈ tokens ∧ token.kind = .closeBracket := by
  induction h with
  | nil => cases hmem
  | opening _ _ ih | closing _ _ ih =>
    exact (ih hmem).imp_left (List.mem_cons_of_mem _)
  | unmatched _ _ ih =>
    have hrest := (List.mem_cons.mp hmem).resolve_left (by simp)
    exact (ih hrest).imp_left (List.mem_cons_of_mem _)
  | misplaced hkind _ ih =>
    simp only [List.mem_cons, reduceCtorEq, Problem.misplacedClose.injEq, false_or] at hmem
    rcases hmem with rfl | hrest
    · exact ⟨List.mem_cons_self, hkind⟩
    · exact (ih hrest).imp_left (List.mem_cons_of_mem _)
  | problem _ hmisplaced _ ih =>
    rcases List.mem_cons.mp hmem with rfl | hrest
    · exact absurd rfl hmisplaced
    · exact ih hrest

/-- The report of a misplaced bracket follows at once on that of the same bracket as an
unmatched one. -/
theorem follows_of_misplacedClose (h : Matching depth tokens problems after)
    {before others : List Problem} {token : Token}
    (hsplit : problems = before ++ .misplacedClose token :: others) :
    ∃ earlier, before = earlier ++ [.unmatchedClose token] := by
  induction h generalizing before with
  | nil => simp at hsplit
  | opening _ _ ih | closing _ _ ih => exact ih hsplit
  | unmatched _ _ ih =>
    cases before with
    | nil => simp at hsplit
    | cons first before =>
      simp only [List.cons_append, List.cons.injEq] at hsplit
      obtain ⟨earlier, rfl⟩ := ih hsplit.2
      exact ⟨first :: earlier, rfl⟩
  | misplaced _ _ ih =>
    match before with
    | [] => simp at hsplit
    | [first] =>
      simp only [List.cons_append, List.nil_append, List.cons.injEq,
        Problem.misplacedClose.injEq] at hsplit
      obtain ⟨rfl, rfl, -⟩ := hsplit
      exact ⟨[], rfl⟩
    | first :: second :: before =>
      simp only [List.cons_append, List.cons.injEq] at hsplit
      obtain ⟨earlier, rfl⟩ := ih hsplit.2.2
      exact ⟨first :: second :: earlier, rfl⟩
  | problem _ hmisplaced _ ih =>
    cases before with
    | nil =>
      simp only [List.nil_append, List.cons.injEq] at hsplit
      rw [hsplit.1] at hmisplaced
      exact absurd rfl hmisplaced
    | cons first before =>
      simp only [List.cons_append, List.cons.injEq] at hsplit
      obtain ⟨earlier, rfl⟩ := ih hsplit.2
      exact ⟨first :: earlier, rfl⟩

/-- The brackets reported as unmatched are the misplaced ones and those that find the
stack empty when the misplaced ones are left out. -/
theorem filter_unmatchedClose (h : Matching depth tokens problems after)
    (hnodup : tokens.Nodup) {misplaced : Token → Prop} [DecidablePred misplaced]
    (hmisplaced : ∀ token ∈ tokens, misplaced token ↔ .misplacedClose token ∈ problems)
    {stack : List Token} (hstack : stack.length = depth) :
    problems.filter (·.code = .unmatchedClose) =
      (surplusCloses misplaced stack tokens).map .unmatchedClose := by
  induction h generalizing stack with
  | nil => rfl
  | @opening depth after token tokens problems hkind h ih =>
    obtain ⟨hfresh, hnodup⟩ := List.nodup_cons.mp hnodup
    have hplaced : ¬ misplaced token := fun hm =>
      hfresh (h.mem_of_misplacedClose ((hmisplaced token List.mem_cons_self).mp hm)).1
    rw [surplusCloses_paired hplaced hfresh (unmatchedCloses_opening hkind stack)]
    exact ih hnodup (fun other hother => hmisplaced other (List.mem_cons_of_mem _ hother))
      (by simp [hstack])
  | @closing depth after token tokens problems hkind h ih =>
    obtain ⟨opening, outer, rfl⟩ := List.exists_cons_of_length_eq_add_one hstack
    obtain ⟨hfresh, hnodup⟩ := List.nodup_cons.mp hnodup
    have hplaced : ¬ misplaced token := fun hm =>
      hfresh (h.mem_of_misplacedClose ((hmisplaced token List.mem_cons_self).mp hm)).1
    rw [surplusCloses_paired hplaced hfresh (unmatchedCloses_closing hkind opening outer)]
    exact ih hnodup (fun other hother => hmisplaced other (List.mem_cons_of_mem _ hother))
      (by simpa using hstack)
  | @unmatched after token tokens problems hkind h ih =>
    have hempty := List.length_eq_zero_iff.mp hstack
    subst hempty
    obtain ⟨hfresh, hnodup⟩ := List.nodup_cons.mp hnodup
    have hplaced : ¬ misplaced token := fun hm =>
      hfresh (h.mem_of_misplacedClose
        (by simpa using (hmisplaced token List.mem_cons_self).mp hm)).1
    rw [surplusCloses_unmatched hplaced hfresh hkind,
      List.filter_cons_of_pos (by simp [Problem.code]), List.map_cons]
    rw [ih hnodup (fun other hother => by
      simpa using hmisplaced other (List.mem_cons_of_mem _ hother)) hstack]
  | @misplaced depth after token tokens problems hkind h ih =>
    obtain ⟨hfresh, hnodup⟩ := List.nodup_cons.mp hnodup
    have hmoved : misplaced token := (hmisplaced token List.mem_cons_self).mpr (by simp)
    rw [surplusCloses_misplaced hmoved, List.filter_cons_of_pos (by simp [Problem.code]),
      List.filter_cons_of_neg (by simp [Problem.code]), List.map_cons]
    rw [ih hnodup (fun other hother => by
      have hne : other ≠ token := ne_of_mem_of_not_mem hother hfresh
      simpa [hne] using hmisplaced other (List.mem_cons_of_mem _ hother)) hstack]
  | problem hunmatched hother _ ih =>
    rw [List.filter_cons_of_neg (by simpa using hunmatched)]
    refine ih hnodup (fun token hmem => ?_) hstack
    rw [hmisplaced token hmem, List.mem_cons, or_iff_right]
    rintro rfl
    exact hother rfl

end Matching

theorem length_closeBracket {text : String} {token : Token} (hmem : token ∈ tokenize text)
    (hkind : token.kind = .closeBracket) : token.length = 1 := by
  obtain ⟨-, lexeme, -, -, hshape, htext, -⟩ := (lexes_tokenize text).exists_lexeme hmem
  rw [hkind] at hshape
  have hlexeme : lexeme = [')'] := hshape
  rw [Token.length, htext, String.length_ofList, hlexeme, List.length_singleton]

theorem mem_misplacedBrackets {text : String} {token : Token} :
    token ∈ misplacedBrackets text ↔ .misplacedClose token ∈ problems (tokenize text) := by
  obtain ⟨after, hmatching⟩ := Matching.of_problems (tokenize text)
  constructor
  · intro hmem
    obtain ⟨htoken, hreported⟩ := List.mem_filter.mp hmem
    obtain ⟨-, diagnostic, hdiagnostic, hcode, hstart⟩ := of_decide_eq_true hreported
    obtain ⟨problem, hproblem, rfl⟩ := List.mem_map.mp hdiagnostic
    cases problem with
    | misplacedClose bracket =>
      have hbracket := (List.mem_filter.mp (hmatching.mem_of_misplacedClose hproblem).1).1
      rwa [start_injective htoken hbracket hstart.symm]
    | _ => cases hcode
  · intro hmem
    obtain ⟨hbracket, hkind⟩ := hmatching.mem_of_misplacedClose hmem
    refine List.mem_filter.mpr ⟨(List.mem_filter.mp hbracket).1, decide_eq_true ⟨hkind, ?_⟩⟩
    exact ⟨_, List.mem_map_of_mem hmem, rfl, rfl⟩

theorem kind_of_surplus {text : String} {token : Token}
    (h : token ∈ misplacedBrackets text ∨ token ∈ unpairedBrackets text) :
    token.kind = .closeBracket := by
  rcases h with hmisplaced | hunpaired
  · exact (of_decide_eq_true (List.mem_filter.mp hmisplaced).2).1
  · obtain ⟨hmem, hopen⟩ := mem_unmatchedCloses hunpaired
    have hbracket := (List.mem_filter.mp (List.mem_filter.mp hmem).1).2
    exact (of_decide_eq_true hbracket).resolve_left hopen

/-- The closing brackets that a check reports as unmatched are, in order, the misplaced
ones and those that find the stack empty when the misplaced ones are left out. Each is
reported once, and as misplaced right after. -/
theorem unmatchedClose_reports (text : String) :
    ((check text).filter (·.code = .unmatchedClose)).map
        (fun diagnostic => (diagnostic.span.start, diagnostic.span.length)) =
      ((tokenize text).filter fun token =>
        token ∈ misplacedBrackets text ∨ token ∈ unpairedBrackets text).map
          (fun token => (token.start, 1)) ∧
      ∀ before diagnostic others, check text = before ++ diagnostic :: others →
        diagnostic.code = .misplacedClose →
        ∃ token ∈ misplacedBrackets text, ∃ earlier,
          before = earlier ++ [(Problem.unmatchedClose token).toDiagnostic] ∧
            diagnostic = (Problem.misplacedClose token).toDiagnostic := by
  obtain ⟨after, hmatching⟩ := Matching.of_problems (tokenize text)
  constructor
  · have hfilter : (problems (tokenize text)).filter (·.code = .unmatchedClose) =
        (surplusCloses (· ∈ misplacedBrackets text) [] (bracketsOf (tokenize text))).map
          .unmatchedClose :=
      hmatching.filter_unmatchedClose ((nodup_tokenize text).filter _)
        (fun _ _ => mem_misplacedBrackets) rfl
    have hcheck : (check text).filter (·.code = .unmatchedClose) =
        ((problems (tokenize text)).filter (·.code = .unmatchedClose)).map
          Problem.toDiagnostic := List.filter_map ..
    have hsurplus : surplusCloses (· ∈ misplacedBrackets text) [] (bracketsOf (tokenize text)) =
        (tokenize text).filter fun token =>
          token ∈ misplacedBrackets text ∨ token ∈ unpairedBrackets text := by
      rw [surplusCloses, bracketsOf, List.filter_filter]
      refine List.filter_congr fun token hmem => ?_
      rw [← Bool.decide_and]
      exact decide_eq_decide.mpr (and_iff_left_of_imp fun h => .inr (kind_of_surplus h))
    rw [hcheck, hfilter, hsurplus, List.map_map, List.map_map]
    refine List.map_congr_left fun token hmem => ?_
    obtain ⟨htoken, hreported⟩ := List.mem_filter.mp hmem
    have hlength := length_closeBracket htoken (kind_of_surplus (of_decide_eq_true hreported))
    have hspan : token.span.length = 1 := by
      simp [Token.span, Span.ofLength, hlength]
    exact congrArg (Prod.mk token.start) hspan
  · intro before diagnostic others hsplit hcode
    obtain ⟨first, second, hproblems, rfl, hsecond⟩ := List.map_eq_append_iff.mp hsplit
    obtain ⟨problem, rest, rfl, rfl, rfl⟩ := List.map_eq_cons_iff.mp hsecond
    cases problem with
    | misplacedClose token =>
      obtain ⟨earlier, rfl⟩ := hmatching.follows_of_misplacedClose hproblems
      refine ⟨token, mem_misplacedBrackets.mpr ?_, earlier.map Problem.toDiagnostic, ?_, rfl⟩
      · rw [hproblems]
        exact List.mem_append_right _ List.mem_cons_self
      · rw [List.map_append, List.map_singleton]
    | _ => cases hcode

end CurriedLambda
