import Mathlib.Data.List.Induction
import CurriedLambda.Checker
import CurriedLambda.Proofs.Grammar

/-!
Reading token lists. What a list causes is what its first tokens cause and then what
the others cause from the state reached, so that facts about single tokens add up along
the list. Layout is passed over everywhere, and a recovery under way reports first of
all where it began, whatever tokens follow.
-/
namespace CurriedLambda

theorem significant_eq_nil_of_blank {tokens : List Token}
    (h : tokens.filter (·.kind ≠ .whitespace) = []) : significant tokens = [] := by
  refine List.filter_eq_nil_iff.mpr fun token hmem => ?_
  have hkind := List.filter_eq_nil_iff.mp h token hmem
  simp_all [Kind.isLayout]

theorem Phase.arguments_ne_item (count : Nat) : Phase.arguments count ≠ .item := by
  cases count <;> simp [Phase.arguments]

theorem Phase.arguments_ne_operator (count : Nat) (first : Bool) :
    Phase.arguments count ≠ .operator first := by
  cases count <;> simp [Phase.arguments]

theorem Brackets.mem_close {brackets : Brackets} {token : Token} {problem : Problem}
    (h : problem ∈ (brackets.close token).2) : problem = .unmatchedClose token := by
  unfold close at h
  split at h
  · exact List.mem_singleton.mp h
  · cases h

/-- Skipped tokens report some of the closing brackets among them, in order. -/
theorem Brackets.exists_skip_eq (brackets : Brackets) (tokens : List Token) :
    ∃ closing : List Token, closing.Sublist (tokens.filter (·.kind = .closeBracket)) ∧
      (brackets.skip tokens).2 = closing.map .unmatchedClose := by
  induction tokens generalizing brackets with
  | nil => exact ⟨[], List.nil_sublist _, rfl⟩
  | cons token rest ih =>
    unfold skip
    split
    case h_2 hkind =>
      obtain ⟨closing, hsublist, hproblems⟩ := ih (brackets.close token).1
      rw [List.filter_cons_of_pos (by simpa using hkind)]
      have hclose : (brackets.close token).2 = [] ∨
          (brackets.close token).2 = [.unmatchedClose token] := by
        unfold close
        split
        · exact .inr rfl
        · exact .inl rfl
      rcases hclose with hclose | hclose
      · refine ⟨closing, hsublist.cons token, ?_⟩
        change (brackets.close token).2 ++ _ = _
        rw [hclose, hproblems, List.nil_append]
      · refine ⟨token :: closing, hsublist.cons_cons token, ?_⟩
        change (brackets.close token).2 ++ _ = _
        rw [hclose, hproblems, List.map_cons, List.singleton_append]
    all_goals
      obtain ⟨closing, hsublist, hproblems⟩ := ih _
      rw [List.filter_cons_of_neg (by simp_all)]
      exact ⟨closing, hsublist, hproblems⟩

theorem Brackets.mem_skip {brackets : Brackets} {tokens : List Token} {problem : Problem}
    (h : problem ∈ (brackets.skip tokens).2) :
    ∃ token ∈ tokens, token.kind = .closeBracket ∧ problem = .unmatchedClose token := by
  obtain ⟨closing, hsublist, hproblems⟩ := exists_skip_eq brackets tokens
  rw [hproblems] at h
  obtain ⟨token, htoken, rfl⟩ := List.mem_map.mp h
  obtain ⟨hmem, hkind⟩ := List.mem_filter.mp (hsublist.subset htoken)
  exact ⟨token, hmem, of_decide_eq_true hkind, rfl⟩

namespace Checker

/-- The problems that tokens cause from a state on, and those that their end causes. -/
def problemsFrom (last : Option Token) (checker : Checker) : List Token → List Problem
  | [] => checker.finish last
  | token :: rest => (checker.feed token).2 ++ problemsFrom last (checker.feed token).1 rest

@[simp] theorem feedAll_nil (checker : Checker) : checker.feedAll [] = (checker, []) := rfl

theorem feedAll_cons (checker : Checker) (token : Token) (rest : List Token) :
    checker.feedAll (token :: rest) =
      (((checker.feed token).1.feedAll rest).1,
        (checker.feed token).2 ++ ((checker.feed token).1.feedAll rest).2) := rfl

theorem feedAll_append (checker : Checker) (first second : List Token) :
    checker.feedAll (first ++ second) =
      (((checker.feedAll first).1.feedAll second).1,
        (checker.feedAll first).2 ++ ((checker.feedAll first).1.feedAll second).2) := by
  induction first generalizing checker with
  | nil => rfl
  | cons token rest ih => simp [feedAll_cons, ih]

theorem problemsFrom_append (last : Option Token) (checker : Checker)
    (first second : List Token) :
    checker.problemsFrom last (first ++ second) =
      (checker.feedAll first).2 ++ (checker.feedAll first).1.problemsFrom last second := by
  induction first generalizing checker with
  | nil => rfl
  | cons token rest ih => simp [problemsFrom, feedAll_cons, ih]

theorem problemsFrom_eq_feedAll (last : Option Token) (checker : Checker)
    (tokens : List Token) :
    checker.problemsFrom last tokens =
      (checker.feedAll tokens).2 ++ (checker.feedAll tokens).1.finish last := by
  simpa [problemsFrom] using problemsFrom_append last checker tokens []

theorem feed_layout {token : Token} (h : token.kind.isLayout) (checker : Checker) :
    checker.feed token = (checker, []) := by
  simp [feed, h]

/-- Layout is never expected. -/
theorem isLayout_of_accepts {expected : Expected} {kind : Kind}
    (h : expected.accepts kind = true) : kind.isLayout = false := by
  revert h
  cases expected <;> cases kind <;> decide

theorem isLayout_of_absorb {checker : Checker} {token : Token} {result : Checker × List Problem}
    (h : checker.absorb token = some result) : token.kind.isLayout = false := by
  unfold absorb at h
  split at h <;> simp_all [Kind.isLayout]

theorem feed_of_absorb {checker : Checker} {token : Token} {result : Checker × List Problem}
    (hskipped : checker.skipped = []) (h : checker.absorb token = some result) :
    checker.feed token = result := by
  simp [feed, isLayout_of_absorb h, hskipped, h]

theorem feed_of_accepts {checker : Checker} {token : Token}
    (hskipped : checker.skipped = []) (habsorb : checker.absorb token = none)
    (haccepts : checker.expected.accepts token.kind = true) :
    checker.feed token = checker.take token := by
  obtain ⟨phase, parameters, references, brackets, skipped⟩ := checker
  subst hskipped
  simp [feed, isLayout_of_accepts haccepts, habsorb, meet, haccepts, Brackets.skip, skipping]

theorem feed_of_refuses {checker : Checker} {token : Token}
    (hskipped : checker.skipped = []) (hlayout : token.kind.isLayout = false)
    (habsorb : checker.absorb token = none)
    (haccepts : checker.expected.accepts token.kind = false) :
    checker.feed token = ({ checker with skipped := [token] }, []) := by
  simp [feed, hlayout, hskipped, habsorb, meet, haccepts]

/-- What is not optional is taken or skipped. -/
theorem feed_eq_meet {checker : Checker} {token : Token} (hlayout : token.kind.isLayout = false)
    (habsorb : checker.skipped = [] → checker.absorb token = none) :
    checker.feed token = checker.meet token := by
  by_cases hskipped : checker.skipped = []
  · simp [feed, hlayout, hskipped, habsorb hskipped]
  · simp [feed, hlayout, hskipped]

section Tokens

variable {checker : Checker} {token : Token} {first : Bool} {further : Nat}

theorem feed_separator (hskipped : checker.skipped = []) (hphase : checker.phase = .item)
    (hkind : token.kind = .semicolon) : checker.feed token = (checker, []) :=
  feed_of_absorb hskipped (by simp only [absorb, hphase, hkind])

theorem feed_outerClose (hskipped : checker.skipped = []) (hphase : checker.phase = .item)
    (hkind : token.kind = .closeBracket) :
    checker.feed token =
      ({ checker with brackets := (checker.brackets.close token).1 },
        (checker.brackets.close token).2) :=
  feed_of_absorb hskipped (by simp only [absorb, hphase, hkind])

theorem feed_opening (hskipped : checker.skipped = []) (hphase : checker.phase = .item)
    (hkind : token.kind = .openBracket) :
    checker.feed token = (⟨.lambda, [], [], checker.brackets.enter token, []⟩, []) := by
  rw [feed_of_accepts hskipped (by simp only [absorb, hphase, hkind])
    (by rw [expected, hphase, hkind]; rfl)]
  simp only [take, hphase]

theorem feed_introducer (hskipped : checker.skipped = []) (hphase : checker.phase = .lambda)
    (hkind : token.kind = .lambda) :
    checker.feed token = ({ checker with phase := .parameter }, []) := by
  rw [feed_of_accepts hskipped (by simp only [absorb, hphase])
    (by rw [expected, hphase, hkind]; rfl)]
  simp only [take, hphase]

theorem feed_parameter (hskipped : checker.skipped = []) (hphase : checker.phase = .parameter)
    (hkind : token.kind = .identifier) :
    checker.feed token =
      ({ checker with parameters := checker.parameters ++ [token] }, []) := by
  rw [feed_of_accepts hskipped (by simp only [absorb, hphase])
    (by rw [expected, hphase, hkind]; rfl)]
  simp only [take, hphase, hkind, if_true]

theorem feed_minus (hskipped : checker.skipped = []) (hphase : checker.phase = .parameter)
    (hkind : token.kind = .minus) :
    checker.feed token = ({ checker with phase := .arrow }, []) := by
  rw [feed_of_accepts hskipped (by simp only [absorb, hphase])
    (by rw [expected, hphase, hkind]; rfl)]
  simp [take, hphase, hkind]

theorem feed_greater (hskipped : checker.skipped = []) (hphase : checker.phase = .arrow)
    (hkind : token.kind = .greater) :
    checker.feed token = ({ checker with phase := .operand true }, []) := by
  rw [feed_of_accepts hskipped (by simp only [absorb, hphase])
    (by rw [expected, hphase, hkind]; rfl)]
  simp only [take, hphase]

/-- A closing bracket before an operand closes nothing. -/
theorem feed_misplaced (hskipped : checker.skipped = [])
    (hphase : checker.phase = .operand first) (hkind : token.kind = .closeBracket) :
    checker.feed token = (checker, [.unmatchedClose token, .misplacedClose token]) :=
  feed_of_absorb hskipped (by simp only [absorb, hphase, hkind])

theorem feed_group (hskipped : checker.skipped = [])
    (hphase : checker.phase = .operand first ∨ checker.phase = .group first)
    (hkind : token.kind = .openBracket) :
    checker.feed token =
      ({ checker with phase := .group first, brackets := checker.brackets.push token }, []) := by
  apply feed_of_absorb hskipped
  rcases hphase with hphase | hphase <;> simp only [absorb, hphase, hkind]

theorem feed_name (hskipped : checker.skipped = [])
    (hphase : checker.phase = .operand first ∨ checker.phase = .group first)
    (hkind : token.kind = .identifier) :
    checker.feed token =
      ({ checker with phase := .operator first, references := token :: checker.references },
        if names checker.parameters token.text then [] else [.unknownName token]) := by
  rcases hphase with hphase | hphase <;>
    rw [feed_of_accepts hskipped (by simp only [absorb, hphase, hkind])
      (by rw [expected, hphase, hkind]; rfl)] <;>
    simp only [take, hphase, hkind, if_true]

theorem feed_numeral (hskipped : checker.skipped = [])
    (hphase : checker.phase = .operand first ∨ checker.phase = .group first)
    (hkind : token.kind = .integer ∨ token.kind = .float) :
    checker.feed token = ({ checker with phase := .operator first }, []) := by
  rcases hphase with hphase | hphase <;> rcases hkind with hkind | hkind <;>
    rw [feed_of_accepts hskipped (by simp only [absorb, hphase, hkind])
      (by rw [expected, hphase, hkind]; rfl)] <;>
    simp [take, hphase, hkind]

theorem feed_endGroup (hskipped : checker.skipped = [])
    (hphase : checker.phase = .operator first) (hopen : checker.brackets.groupOpen)
    (hkind : token.kind = .closeBracket) :
    checker.feed token =
      ({ checker with brackets := (checker.brackets.close token).1 },
        (checker.brackets.close token).2) :=
  feed_of_absorb hskipped
    (by simp only [absorb, hphase, hkind, hopen, if_true])

theorem feed_operator (hskipped : checker.skipped = [])
    (hphase : checker.phase = .operator first) (hkind : token.kind.isOperator) :
    checker.feed token = ({ checker with phase := .operand false }, []) := by
  have habsorb : checker.absorb token = none := by
    cases h : token.kind <;> simp_all [absorb, Kind.isOperator]
  have haccepts : checker.expected.accepts token.kind = true := by
    rw [expected, hphase]
    cases first <;> cases h : token.kind <;> simp_all [Kind.isOperator] <;> rfl
  rw [feed_of_accepts hskipped habsorb haccepts]
  cases h : token.kind <;> simp_all [take, Kind.isOperator]

theorem feed_endBody (hskipped : checker.skipped = [])
    (hphase : checker.phase = .operator false) (hopen : checker.brackets.groupOpen = false)
    (hkind : token.kind = .closeBracket) :
    checker.feed token =
      ({ checker with
          phase := .arguments checker.parameters.length
          brackets := (checker.brackets.close token).1 },
        (checker.brackets.close token).2) := by
  rw [feed_of_accepts hskipped
    (by simp [absorb, hphase, hkind, hopen]) (by rw [expected, hphase, hkind]; rfl)]
  simp only [take, hphase, hkind, if_true]

theorem feed_sign (hskipped : checker.skipped = [])
    (hphase : checker.phase = .argument further false)
    (hkind : token.kind = .plus ∨ token.kind = .minus) :
    checker.feed token = ({ checker with phase := .argument further true }, []) := by
  rcases hkind with hkind | hkind <;>
    exact feed_of_absorb hskipped (by simp only [absorb, hphase, hkind])

theorem feed_number {signed : Bool} (hskipped : checker.skipped = [])
    (hphase : checker.phase = .argument further signed)
    (hkind : token.kind = .integer ∨ token.kind = .float) :
    checker.feed token = ({ checker with phase := .arguments further }, []) := by
  rcases hkind with hkind | hkind <;>
    rw [feed_of_accepts hskipped (by simp only [absorb, hphase, hkind])
      (by rw [expected, hphase, hkind]; rfl)] <;>
    simp only [take, hphase]

theorem feed_terminator (hskipped : checker.skipped = [])
    (hphase : checker.phase = .terminator) (hkind : token.kind = .semicolon) :
    checker.feed token =
      (between checker.brackets, checker.unused.map .unusedParameter) := by
  rw [feed_of_accepts hskipped (by simp only [absorb, hphase])
    (by rw [expected, hphase, hkind]; rfl)]
  simp only [take, hphase]

end Tokens

/-- Layout causes no problem and changes no state. -/
theorem feedAll_significant (checker : Checker) (tokens : List Token) :
    checker.feedAll (significant tokens) = checker.feedAll tokens := by
  induction tokens generalizing checker with
  | nil => rfl
  | cons token rest ih =>
    cases hlayout : token.kind.isLayout with
    | true =>
      rw [significant_cons_layout hlayout, ih, feedAll_cons, feed_layout hlayout]
      rfl
    | false => rw [significant_cons hlayout, feedAll_cons, feedAll_cons, ih]

theorem problemsFrom_significant (last : Option Token) (checker : Checker)
    (tokens : List Token) :
    checker.problemsFrom last (significant tokens) = checker.problemsFrom last tokens := by
  rw [problemsFrom_eq_feedAll, problemsFrom_eq_feedAll, feedAll_significant]

/-- The state in which a recovery ends: the brackets among the skipped tokens count. -/
def resumed (checker : Checker) : Checker :=
  { checker with brackets := (checker.brackets.skip checker.skipped).1, skipped := [] }

theorem meet_of_refuses {checker : Checker} {token : Token}
    (h : checker.expected.accepts token.kind = false) :
    checker.meet token = ({ checker with skipped := checker.skipped ++ [token] }, []) := by
  rw [meet, if_neg (by simp [h])]

/-- The token that ends a recovery is read as if nothing had been skipped. -/
theorem meet_of_accepts {checker : Checker} {token found : Token} {more : List Token}
    (h : checker.expected.accepts token.kind = true) (hskipped : checker.skipped = found :: more) :
    checker.meet token = ((checker.resumed.take token).1,
      .unexpected checker.expected found checker.skipped ::
        ((checker.brackets.skip checker.skipped).2 ++ (checker.resumed.take token).2)) := by
  rw [meet, if_pos h, skipping, resumed, hskipped]
  rfl

/-- A recovery under way reports first, and at the token where it began. -/
theorem problemsFrom_recovering (last : Option Token) (tokens : List Token)
    {checker : Checker} {found : Token} {more : List Token}
    (h : checker.skipped = found :: more) :
    ∃ skipped others,
      checker.problemsFrom last tokens =
        .unexpected checker.expected found skipped :: others := by
  induction tokens generalizing checker more with
  | nil => exact ⟨[], _, by rw [problemsFrom, finish, h]⟩
  | cons token rest ih =>
    by_cases hlayout : token.kind.isLayout
    · rw [problemsFrom, feed_layout hlayout]
      exact ih h
    · rw [Bool.not_eq_true] at hlayout
      rw [problemsFrom, feed_eq_meet hlayout fun hnil => by simp [h] at hnil]
      cases haccepts : checker.expected.accepts token.kind with
      | true => exact ⟨checker.skipped, _, by rw [meet_of_accepts haccepts h, List.cons_append]⟩
      | false =>
        rw [meet_of_refuses haccepts]
        exact ih (congrArg (· ++ [token]) h)

/-- The state after these tokens. -/
def after (tokens : List Token) : Checker :=
  (initial.feedAll tokens).1

theorem after_concat (tokens : List Token) (token : Token) :
    after (tokens ++ [token]) = ((after tokens).feed token).1 := by
  simp [after, feedAll_append, feedAll_cons]

theorem after_append (first second : List Token) :
    after (first ++ second) = ((after first).feedAll second).1 := by
  rw [after, feedAll_append]
  rfl

/-- The tokens end between expressions, so that a check of them does not end early. -/
def EndsBetween (tokens : List Token) : Prop :=
  (after tokens).phase = .item ∧ (after tokens).skipped = []

theorem eq_of_skipped_eq_nil {checker : Checker} (h : checker.skipped = []) :
    checker = { checker with skipped := [] } := by
  obtain ⟨phase, parameters, references, brackets, skipped⟩ := checker
  subst h
  rfl

/-- What reading a token can do. -/
inductive Step (checker : Checker) (token : Token) : Checker × List Problem → Prop
  | layout (hlayout : token.kind.isLayout = true) : Step checker token (checker, [])
  | absorbs {result : Checker × List Problem} (hskipped : checker.skipped = [])
      (habsorb : checker.absorb token = some result) : Step checker token result
  | takes (habsorb : checker.skipped = [] → checker.absorb token = none)
      (haccepts : checker.expected.accepts token.kind = true) :
      Step checker token ((checker.resumed.take token).1,
        checker.skipping ++ (checker.brackets.skip checker.skipped).2 ++
          (checker.resumed.take token).2)
  | skips (hlayout : token.kind.isLayout = false)
      (habsorb : checker.skipped = [] → checker.absorb token = none)
      (hrefuses : checker.expected.accepts token.kind = false) :
      Step checker token ({ checker with skipped := checker.skipped ++ [token] }, [])

theorem step_feed (checker : Checker) (token : Token) :
    checker.Step token (checker.feed token) := by
  by_cases hlayout : token.kind.isLayout = true
  · rw [feed_layout hlayout]
    exact .layout hlayout
  · rw [Bool.not_eq_true] at hlayout
    by_cases habsorb : ∃ result, checker.skipped = [] ∧ checker.absorb token = some result
    · obtain ⟨result, hskipped, habsorb⟩ := habsorb
      rw [feed_of_absorb hskipped habsorb]
      exact .absorbs hskipped habsorb
    · have hnone : checker.skipped = [] → checker.absorb token = none := fun hskipped =>
        Option.eq_none_iff_forall_ne_some.mpr fun result h => habsorb ⟨result, hskipped, h⟩
      rw [feed_eq_meet hlayout hnone, meet]
      by_cases haccepts : checker.expected.accepts token.kind = true
      · rw [if_pos haccepts]
        exact .takes hnone haccepts
      · rw [if_neg haccepts]
        exact .skips hlayout hnone (Bool.eq_false_iff.mpr haccepts)

/-- What reading an optional token can do. -/
inductive Absorbs (checker : Checker) (token : Token) : Checker × List Problem → Prop
  | separator (hphase : checker.phase = .item) (hkind : token.kind = .semicolon) :
      Absorbs checker token (checker, [])
  | outerClose (hphase : checker.phase = .item) (hkind : token.kind = .closeBracket) :
      Absorbs checker token ({ checker with brackets := (checker.brackets.close token).1 },
        (checker.brackets.close token).2)
  | misplaced {first : Bool} (hphase : checker.phase = .operand first)
      (hkind : token.kind = .closeBracket) :
      Absorbs checker token (checker, [.unmatchedClose token, .misplacedClose token])
  | group {first : Bool} (hphase : checker.phase = .operand first ∨ checker.phase = .group first)
      (hkind : token.kind = .openBracket) :
      Absorbs checker token
        ({ checker with phase := .group first, brackets := checker.brackets.push token }, [])
  | endGroup {first : Bool} (hphase : checker.phase = .operator first)
      (hkind : token.kind = .closeBracket) (hopen : checker.brackets.groupOpen = true) :
      Absorbs checker token ({ checker with brackets := (checker.brackets.close token).1 },
        (checker.brackets.close token).2)
  | sign {further : Nat} (hphase : checker.phase = .argument further false)
      (hkind : token.kind = .plus ∨ token.kind = .minus) :
      Absorbs checker token ({ checker with phase := .argument further true }, [])

theorem absorbs_of_absorb {checker : Checker} {token : Token} {result : Checker × List Problem}
    (h : checker.absorb token = some result) : checker.Absorbs token result := by
  unfold absorb at h
  split at h
  case h_1 hphase hkind =>
    cases h
    exact .separator hphase hkind
  case h_2 hphase hkind =>
    cases h
    exact .outerClose hphase hkind
  case h_3 hphase hkind =>
    cases h
    exact .misplaced hphase hkind
  case h_4 hphase hkind =>
    cases h
    exact .group (.inl hphase) hkind
  case h_5 hphase hkind =>
    cases h
    exact .group (.inr hphase) hkind
  case h_6 hphase hkind =>
    split at h
    · cases h
      exact .endGroup hphase hkind ‹_›
    · cases h
  case h_7 hphase hkind =>
    cases h
    exact .sign hphase (.inl hkind)
  case h_8 hphase hkind =>
    cases h
    exact .sign hphase (.inr hkind)
  case h_9 => cases h

/-- What reading a token of the expected kinds can do. Most of them only lead on. -/
inductive Takes (checker : Checker) (token : Token) : Checker × List Problem → Prop
  | opening (hphase : checker.phase = .item) :
      Takes checker token (⟨.lambda, [], [], checker.brackets.enter token, []⟩, [])
  | parameter (hphase : checker.phase = .parameter) (hkind : token.kind = .identifier) :
      Takes checker token ({ checker with parameters := checker.parameters ++ [token] }, [])
  | name {first : Bool} (hphase : checker.phase = .operand first ∨ checker.phase = .group first)
      (hkind : token.kind = .identifier) :
      Takes checker token
        ({ checker with phase := .operator first, references := token :: checker.references },
          if names checker.parameters token.text then [] else [.unknownName token])
  | endBody {first : Bool} (hphase : checker.phase = .operator first)
      (hkind : token.kind = .closeBracket) :
      Takes checker token
        ({ checker with
            phase := .arguments checker.parameters.length
            brackets := (checker.brackets.close token).1 },
          (checker.brackets.close token).2)
  | terminator (hphase : checker.phase = .terminator) :
      Takes checker token (between checker.brackets, checker.unused.map .unusedParameter)
  | leadsOn {next : Phase} (hphase : checker.phase ≠ .item) (hnext : next ≠ .item) :
      Takes checker token ({ checker with phase := next }, [])

theorem takes_take (checker : Checker) (token : Token) :
    checker.Takes token (checker.take token) := by
  unfold take
  split
  case h_1 hphase => exact .opening hphase
  case h_3 hphase =>
    split
    · exact .parameter hphase ‹_›
    · exact .leadsOn (by simp [hphase]) (by simp)
  case h_5 hphase =>
    split
    · exact .name (.inl hphase) ‹_›
    · exact .leadsOn (by simp [hphase]) (by simp)
  case h_6 hphase =>
    split
    · exact .name (.inr hphase) ‹_›
    · exact .leadsOn (by simp [hphase]) (by simp)
  case h_7 hphase =>
    split
    · exact .endBody hphase ‹_›
    · exact .leadsOn (by simp [hphase]) (by simp)
  case h_8 hphase => exact .leadsOn (by simp [hphase]) (Phase.arguments_ne_item _)
  case h_9 hphase => exact .terminator hphase
  all_goals exact .leadsOn (by simp [‹checker.phase = _›]) (by simp)

variable {checker : Checker} {token : Token} {result : Checker × List Problem}

theorem Absorbs.skipped_eq (h : checker.Absorbs token result) :
    result.1.skipped = checker.skipped := by
  cases h <;> rfl

theorem Takes.skipped_eq_nil (h : checker.Takes token result) (hskipped : checker.skipped = []) :
    result.1.skipped = [] := by
  cases h <;> first | rfl | exact hskipped

/-- An optional token is reported, if at all, as a bracket. -/
theorem Absorbs.eq_of_mem {problem : Problem} (h : checker.Absorbs token result)
    (hproblem : problem ∈ result.2) :
    problem = .unmatchedClose token ∨ problem = .misplacedClose token := by
  cases h with
  | outerClose | endGroup => exact .inl (Brackets.mem_close hproblem)
  | misplaced => simpa using hproblem
  | _ => cases hproblem

/-- Unused parameters are reported when no parameter is needed any more. -/
theorem Takes.eq_of_mem {problem : Problem} (h : checker.Takes token result)
    (hproblem : problem ∈ result.2) :
    problem = .unknownName token ∨ problem = .unmatchedClose token ∨
      ∃ parameter ∈ checker.unused,
        problem = .unusedParameter parameter ∧ result.1.parameters = [] := by
  cases h with
  | name =>
    split at hproblem
    · cases hproblem
    · exact .inl (List.mem_singleton.mp hproblem)
  | endBody => exact .inr (.inl (Brackets.mem_close hproblem))
  | terminator =>
    obtain ⟨parameter, hunused, rfl⟩ := List.mem_map.mp hproblem
    exact .inr (.inr ⟨parameter, hunused, rfl, rfl⟩)
  | _ => cases hproblem

/-- Tokens that are read cause no problems but with names and brackets. -/
theorem Absorbs.code_ne (h : checker.Absorbs token result) :
    ∀ problem ∈ result.2, problem.code ≠ .unexpectedToken ∧ problem.code ≠ .unexpectedEnd := by
  intro problem hproblem
  rcases h.eq_of_mem hproblem with rfl | rfl <;> exact ⟨nofun, nofun⟩

theorem Takes.code_ne (h : checker.Takes token result) :
    ∀ problem ∈ result.2, problem.code ≠ .unexpectedToken ∧ problem.code ≠ .unexpectedEnd := by
  intro problem hproblem
  rcases h.eq_of_mem hproblem with rfl | rfl | ⟨parameter, -, rfl, -⟩ <;> exact ⟨nofun, nofun⟩

theorem eq_of_mem_skipping {problem : Problem} (h : problem ∈ checker.skipping) :
    ∃ found more, checker.skipped = found :: more ∧
      problem = .unexpected checker.expected found (found :: more) := by
  unfold skipping at h
  split at h
  · cases h
  · rename_i found more hskipped
    exact ⟨found, more, hskipped, hskipped ▸ List.mem_singleton.mp h⟩

theorem code_skipping {problem : Problem} (h : problem ∈ checker.skipping) :
    problem.code = .unexpectedToken := by
  obtain ⟨found, more, -, rfl⟩ := eq_of_mem_skipping h
  rfl

/-- The end of the tokens is not reported before it is reached. -/
theorem code_ne_unexpectedEnd_feed (checker : Checker) (token : Token) :
    ∀ problem ∈ (checker.feed token).2, problem.code ≠ .unexpectedEnd := by
  have hstep := step_feed checker token
  generalize checker.feed token = result at hstep
  intro problem hproblem
  cases hstep with
  | layout => cases hproblem
  | skips => cases hproblem
  | absorbs hskipped habsorb => exact ((absorbs_of_absorb habsorb).code_ne problem hproblem).2
  | takes =>
    rcases List.mem_append.mp hproblem with hrecovery | htaken
    · rcases List.mem_append.mp hrecovery with hskipping | hskip
      · rw [code_skipping hskipping]
        exact nofun
      · obtain ⟨bracket, -, -, rfl⟩ := Brackets.mem_skip hskip
        exact nofun
    · exact ((takes_take _ token).code_ne problem htaken).2

/-- Only a token that fits nothing here is skipped. -/
theorem refuses_of_mem_skipped (tokens : List Token) :
    ∀ skipped ∈ (after tokens).skipped,
      (after tokens).expected.accepts skipped.kind = false := by
  induction tokens using List.reverseRecOn with
  | nil => exact nofun
  | append_singleton tokens token ih =>
    rw [after_concat]
    have hstep := step_feed (after tokens) token
    generalize (after tokens).feed token = result at hstep
    cases hstep with
    | layout => exact ih
    | absorbs hskipped habsorb =>
      rw [(absorbs_of_absorb habsorb).skipped_eq, hskipped]
      exact nofun
    | takes =>
      rw [(takes_take _ token).skipped_eq_nil rfl]
      exact nofun
    | skips hlayout habsorb hrefuses =>
      intro skipped hmem
      rcases List.mem_append.mp hmem with hold | hnew
      · exact ih skipped hold
      · rw [List.mem_singleton.mp hnew]
        exact hrefuses

end Checker

/-- A check that ends between expressions finds nothing more at the end. -/
theorem Checker.finish_of_item {checker : Checker} (hphase : checker.phase = .item)
    (hskipped : checker.skipped = []) (last : Option Token) : checker.finish last = [] := by
  simp only [finish, hphase, hskipped, if_true]

theorem Checker.EndsBetween.problems_eq {tokens : List Token} (h : EndsBetween tokens) :
    problems tokens = (initial.feedAll tokens).2 := by
  have hfinish (last : Option Token) : (after tokens).finish last = [] :=
    finish_of_item h.1 h.2 last
  exact (congrArg ((initial.feedAll tokens).2 ++ ·) (hfinish _)).trans (List.append_nil _)

theorem problems_eq_problemsFrom (tokens : List Token) :
    problems tokens = Checker.initial.problemsFrom
      (tokens.filter (·.kind ≠ .whitespace)).getLast? (significant tokens) := by
  rw [Checker.problemsFrom_significant, Checker.problemsFrom_eq_feedAll]
  rfl

end CurriedLambda
