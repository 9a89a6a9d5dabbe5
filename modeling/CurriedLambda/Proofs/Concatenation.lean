import Mathlib.Data.List.Basic
import CurriedLambda.Proofs.Reading

/-!
Checking one token list after another. What the first tokens cause does not depend on
those that follow, except for what shows only at the end. Between expressions a check
depends on the open brackets alone: the names and the base that an expression leaves
behind are never read, so without open brackets it starts afresh.
-/
namespace CurriedLambda

namespace Brackets

variable {brackets others : Brackets}

/-- Closing and entering do not look at the base. -/
theorem close_congr (h : others.opened = brackets.opened) (bracket : Token) :
    (others.close bracket).1.opened = (brackets.close bracket).1.opened ∧
      (others.close bracket).2 = (brackets.close bracket).2 := by
  unfold close
  rw [h]
  split
  · exact ⟨h, rfl⟩
  · exact ⟨rfl, rfl⟩

theorem enter_congr (h : others.opened = brackets.opened) (bracket : Token) :
    others.enter bracket = brackets.enter bracket := by
  rw [enter, enter, h]

/-- Without an opening bracket among them, skipped tokens do not show the base. -/
theorem skip_congr {tokens : List Token} (h : others.opened = brackets.opened)
    (htokens : ∀ token ∈ tokens, token.kind ≠ .openBracket) :
    (others.skip tokens).1.opened = (brackets.skip tokens).1.opened ∧
      (others.skip tokens).2 = (brackets.skip tokens).2 := by
  induction tokens generalizing brackets others with
  | nil => exact ⟨h, rfl⟩
  | cons token rest ih =>
    have hrest := fun other hother => htokens other (List.mem_cons_of_mem token hother)
    unfold skip
    split
    case h_1 hkind => exact absurd hkind (htokens token List.mem_cons_self)
    case h_2 hkind =>
      obtain ⟨hopened, hproblems⟩ := close_congr h token
      obtain ⟨hlast, hmore⟩ := ih hopened hrest
      refine ⟨hlast, ?_⟩
      change (others.close token).2 ++ _ = (brackets.close token).2 ++ _
      rw [hproblems, hmore]
    case h_3 => exact ih h hrest

end Brackets

namespace Checker

variable {checker other : Checker} {token : Token}

/-- All that a token can do between expressions. -/
theorem feed_of_item (hphase : checker.phase = .item) (token : Token) :
    checker.feed token =
      if token.kind.isLayout = true then (checker, [])
      else if token.kind = .openBracket then
        (⟨.lambda, [], [], (checker.brackets.skip checker.skipped).1.enter token, []⟩,
          checker.skipping ++ (checker.brackets.skip checker.skipped).2)
      else if checker.skipped = [] ∧ token.kind = .semicolon then (checker, [])
      else if checker.skipped = [] ∧ token.kind = .closeBracket then
        ({ checker with brackets := (checker.brackets.close token).1 },
          (checker.brackets.close token).2)
      else ({ checker with skipped := checker.skipped ++ [token] }, []) := by
  by_cases hlayout : token.kind.isLayout = true
  · rw [if_pos hlayout, feed_layout hlayout]
  rw [if_neg hlayout]
  rw [Bool.not_eq_true] at hlayout
  by_cases hopen : token.kind = .openBracket
  · have habsorb : checker.absorb token = none := by simp only [absorb, hphase, hopen]
    have haccepts : checker.expected.accepts token.kind = true := by
      rw [expected, hphase, hopen]
      rfl
    rw [if_pos hopen, feed_eq_meet hlayout fun _ => habsorb, meet, if_pos haccepts]
    simp only [take, hphase, List.append_nil]
  rw [if_neg hopen]
  by_cases hseparator : checker.skipped = [] ∧ token.kind = .semicolon
  · rw [if_pos hseparator, feed_separator hseparator.1 hphase hseparator.2]
  rw [if_neg hseparator]
  by_cases hclose : checker.skipped = [] ∧ token.kind = .closeBracket
  · rw [if_pos hclose, feed_outerClose hclose.1 hphase hclose.2]
  rw [if_neg hclose]
  have habsorb (hskipped : checker.skipped = []) : checker.absorb token = none := by
    simp only [hskipped, true_and] at hseparator hclose
    simp [absorb, hphase, hseparator, hclose]
  have hrefuses : ¬ checker.expected.accepts token.kind = true := by
    rw [expected, hphase]
    exact fun h => hopen (List.mem_singleton.mp (of_decide_eq_true h))
  rw [feed_eq_meet hlayout habsorb, meet, if_neg hrefuses]

/-- Both checks stand between expressions and agree in what matters there. Other fields
may hold anything. -/
structure AgreesBetween (checker other : Checker) : Prop where
  phase_eq : checker.phase = .item
  other_phase_eq : other.phase = .item
  opened_eq : other.brackets.opened = checker.brackets.opened
  skipped_eq : other.skipped = checker.skipped
  skipped_kind : ∀ token ∈ checker.skipped, token.kind ≠ .openBracket

namespace AgreesBetween

theorem feed (h : checker.AgreesBetween other) (token : Token) :
    ((checker.feed token).1.AgreesBetween (other.feed token).1 ∨
        (other.feed token).1 = (checker.feed token).1) ∧
      (other.feed token).2 = (checker.feed token).2 := by
  obtain ⟨hphase, hother, hopened, hskipped, hkinds⟩ := h
  obtain ⟨hstack, hunmatched⟩ := Brackets.skip_congr hopened hkinds
  rw [feed_of_item hphase, feed_of_item hother, skipping, skipping, expected, expected, hother,
    hphase, hskipped]
  split_ifs with hlayout hopen hoptional hseparator
  · exact ⟨.inl ⟨hphase, hother, hopened, hskipped, hkinds⟩, rfl⟩
  · rw [Brackets.enter_congr hstack, hunmatched]
    exact ⟨.inr rfl, rfl⟩
  · exact ⟨.inl ⟨hphase, hother, hopened, hskipped, hkinds⟩, rfl⟩
  · obtain ⟨hclosed, hclose⟩ := Brackets.close_congr hopened token
    exact ⟨.inl ⟨rfl, rfl, hclosed, rfl, hkinds⟩, hclose⟩
  · refine ⟨.inl ⟨rfl, rfl, hopened, rfl, fun skipped hmem => ?_⟩, rfl⟩
    rcases List.mem_append.mp hmem with hold | hnew
    · exact hkinds skipped hold
    · rwa [List.mem_singleton.mp hnew]

theorem finish_eq (h : checker.AgreesBetween other) (last : Option Token) :
    other.finish last = checker.finish last := by
  obtain ⟨hphase, hother, hopened, hskipped, hkinds⟩ := h
  rw [finish, finish, expected, expected, hother, hphase, hskipped,
    (Brackets.skip_congr hopened hkinds).2]

theorem problemsFrom_eq (h : checker.AgreesBetween other) (last : Option Token)
    (tokens : List Token) : other.problemsFrom last tokens = checker.problemsFrom last tokens := by
  induction tokens generalizing checker other with
  | nil => exact h.finish_eq last
  | cons token rest ih =>
    obtain ⟨hagrees | heq, hproblems⟩ := h.feed token
    · rw [problemsFrom, problemsFrom, hproblems, ih hagrees]
    · rw [problemsFrom, problemsFrom, hproblems, heq]

end AgreesBetween

/-- Nothing but the open brackets goes over to the next expression. -/
theorem problemsFrom_of_item (hphase : checker.phase = .item) (hskipped : checker.skipped = [])
    (last : Option Token) (tokens : List Token) :
    checker.problemsFrom last tokens = (between checker.brackets).problemsFrom last tokens := by
  have hagrees : (between checker.brackets).AgreesBetween checker :=
    ⟨rfl, hphase, rfl, hskipped, nofun⟩
  exact hagrees.problemsFrom_eq last tokens

theorem problems_append_eq (first second : List Token) :
    problems (first ++ second) = (initial.feedAll first).2 ++
      (after first).problemsFrom
        ((first ++ second).filter (·.kind ≠ .whitespace)).getLast? second := by
  rw [problems_eq_problemsFrom, problemsFrom_significant, problemsFrom_append]
  rfl

/-- Where all tokens end is of no account if none follow but white space. -/
theorem problemsFrom_between_append (brackets : Brackets) (first second : List Token) :
    (between brackets).problemsFrom
        ((first ++ second).filter (·.kind ≠ .whitespace)).getLast? second =
      (between brackets).problemsFrom (second.filter (·.kind ≠ .whitespace)).getLast? second := by
  rw [List.filter_append]
  by_cases hblank : second.filter (·.kind ≠ .whitespace) = []
  · have hnone := significant_eq_nil_of_blank hblank
    have hclean (last : Option Token) : (between brackets).problemsFrom last second = [] := by
      rw [← problemsFrom_significant, hnone]
      rfl
    rw [hclean, hclean]
  · rw [List.getLast?_append_of_ne_nil _ hblank]

/-- Only the open brackets go over from the first tokens to the others. -/
theorem EndsBetween.problems_append {first : List Token} (h : EndsBetween first)
    (second : List Token) :
    problems (first ++ second) = problems first ++
      (between (after first).brackets).problemsFrom
        (second.filter (·.kind ≠ .whitespace)).getLast? second := by
  rw [problems_append_eq, problemsFrom_of_item h.1 h.2, problemsFrom_between_append, h.problems_eq]

theorem between_congr {brackets others : Brackets} (h : others.opened = brackets.opened) :
    between others = between brackets := by
  rw [between, between, Brackets.leave, Brackets.leave, h]

/-- A check that ends early reports one more problem there, and after it only closing
brackets among the tokens that are left. -/
theorem problems_of_not_endsBetween {tokens : List Token} (h : ¬ EndsBetween tokens) :
    ∃ ending others, problems tokens = (initial.feedAll tokens).2 ++ ending :: others ∧
      (ending.code = .unexpectedEnd ∧ others = [] ∨
        ending.code = .unexpectedToken ∧ ∀ other ∈ others, other.code = .unmatchedClose) := by
  suffices hfinish : ∀ last, ∃ ending others, (after tokens).finish last = ending :: others ∧
      (ending.code = .unexpectedEnd ∧ others = [] ∨
        ending.code = .unexpectedToken ∧ ∀ other ∈ others, other.code = .unmatchedClose) by
    obtain ⟨ending, others, heq, hcodes⟩ :=
      hfinish (tokens.filter (·.kind ≠ .whitespace)).getLast?
    exact ⟨ending, others, congrArg ((initial.feedAll tokens).2 ++ ·) heq, hcodes⟩
  intro last
  unfold finish
  split
  · refine ⟨_, _, rfl, .inr ⟨rfl, fun other hother => ?_⟩⟩
    obtain ⟨bracket, -, -, rfl⟩ := Brackets.mem_skip hother
    rfl
  · rename_i hskipped
    rw [if_neg fun hphase => h ⟨hphase, hskipped⟩]
    exact ⟨_, [], rfl, .inl ⟨rfl, rfl⟩⟩

end Checker

/-- What a check of the first tokens finds is found first in a check of all, and if nothing
is open after them, the rest is checked as if it stood alone. In any case the rest depends
on the open brackets only. The last problem that ends a check early may be found only if no
other tokens follow, but those before it are found then, too. -/
theorem diagnose_append (first second : List Token) :
    (Checker.EndsBetween first →
      diagnose first <+: diagnose (first ++ second) ∧
        ((Checker.after first).brackets.opened = [] →
          diagnose (first ++ second) = diagnose first ++ diagnose second) ∧
        ∀ other, Checker.EndsBetween other →
          (Checker.after other).brackets.opened = (Checker.after first).brackets.opened →
          ∃ rest, diagnose (first ++ second) = diagnose first ++ rest ∧
            diagnose (other ++ second) = diagnose other ++ rest) ∧
    (¬ Checker.EndsBetween first → ∃ reported ending others,
      diagnose first = reported ++ ending :: others ∧
        (ending.code = .unexpectedEnd ∧ others = [] ∨
          ending.code = .unexpectedToken ∧ ∀ other ∈ others, other.code = .unmatchedClose) ∧
        reported <+: diagnose (first ++ second)) := by
  refine ⟨fun hends => ⟨?_, fun hopened => ?_, fun other hother hopened => ?_⟩, fun hearly => ?_⟩
  · rw [diagnose, diagnose, hends.problems_append, List.map_append]
    exact List.prefix_append _ _
  · have hfresh : Checker.between (Checker.after first).brackets = Checker.initial :=
      Checker.between_congr hopened
    rw [diagnose, hends.problems_append, hfresh, ← Checker.problemsFrom_significant,
      ← problems_eq_problemsFrom, List.map_append]
    rfl
  · refine ⟨((Checker.between (Checker.after first).brackets).problemsFrom
      (second.filter (·.kind ≠ .whitespace)).getLast? second).map Problem.toDiagnostic, ?_, ?_⟩
    · rw [diagnose, hends.problems_append, List.map_append]
      rfl
    · rw [diagnose, hother.problems_append, Checker.between_congr hopened, List.map_append]
      rfl
  · obtain ⟨ending, others, heq, hcodes⟩ := Checker.problems_of_not_endsBetween hearly
    refine ⟨(Checker.initial.feedAll first).2.map Problem.toDiagnostic, ending.toDiagnostic,
      others.map Problem.toDiagnostic, ?_, ?_, ?_⟩
    · rw [diagnose, heq, List.map_append, List.map_cons]
    · refine hcodes.imp (fun ⟨hcode, hnil⟩ => ⟨hcode, by rw [hnil]; rfl⟩) ?_
      rintro ⟨hcode, hothers⟩
      refine ⟨hcode, fun diagnostic hmem => ?_⟩
      obtain ⟨other, hother, rfl⟩ := List.mem_map.mp hmem
      exact hothers other hother
    · rw [diagnose, Checker.problems_append_eq, List.map_append]
      exact List.prefix_append _ _

end CurriedLambda
