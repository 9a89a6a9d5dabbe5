import Mathlib.Data.List.Forall2
import CurriedLambda.Proofs.OpenBrackets

/-!
What a check looks at. Of a token it sees the kind, and of two names whether they are the
same. So two token lists that agree in these are checked in lockstep, with the same phases,
as many open brackets and the same places skipped. Where tokens start, how names are
spelled and what other texts say shows in the reports only.
-/
namespace CurriedLambda

/-- At each place both lists have a token of the same kind, and the names at two places
are the same in one list exactly if they are in the other. -/
structure Renames (tokens others : List Token) : Prop where
  length_eq : others.length = tokens.length
  kind_eq : ∀ place ∈ tokens.zip others, place.2.kind = place.1.kind
  text_eq_iff : ∀ first ∈ tokens.zip others, ∀ second ∈ tokens.zip others,
    first.1.kind = .identifier → second.1.kind = .identifier →
      (first.1.text = second.1.text ↔ first.2.text = second.2.text)

/-- Tokens of two checks are paired so that a check sees no difference. -/
structure IsPairing (paired : Token → Token → Prop) : Prop where
  kind_eq {token other : Token} (h : paired token other) : other.kind = token.kind
  text_eq_iff {token other name otherName : Token} (h : paired token other)
    (hname : paired name otherName) (htoken : token.kind = .identifier)
    (hkind : name.kind = .identifier) : token.text = name.text ↔ other.text = otherName.text

/-- Identifiers that are paired. -/
def Named (paired : Token → Token → Prop) (name other : Token) : Prop :=
  name.kind = .identifier ∧ paired name other

/-- The same problem with paired tokens. -/
inductive Problem.Paired (paired : Token → Token → Prop) : Problem → Problem → Prop
  | unexpected (expected : Expected) {found other : Token} {skipped others : List Token}
      (hfound : paired found other) :
      Paired paired (.unexpected expected found skipped) (.unexpected expected other others)
  | exhausted (expected : Expected) {last other : Token} (hlast : paired last other) :
      Paired paired (.exhausted expected (some last)) (.exhausted expected (some other))
  | unknownName {token other : Token} (h : paired token other) :
      Paired paired (.unknownName token) (.unknownName other)
  | unusedParameter {token other : Token} (h : paired token other) :
      Paired paired (.unusedParameter token) (.unusedParameter other)
  | unmatchedClose {token other : Token} (h : paired token other) :
      Paired paired (.unmatchedClose token) (.unmatchedClose other)
  | misplacedClose {token other : Token} (h : paired token other) :
      Paired paired (.misplacedClose token) (.misplacedClose other)

/-- Paired problems have the same code and start at paired tokens. -/
theorem Problem.Paired.start_eq {paired : Token → Token → Prop} {problem other : Problem}
    (h : problem.Paired paired other) :
    problem.toDiagnostic.code = other.toDiagnostic.code ∧
      ∃ token otherToken, paired token otherToken ∧
        problem.toDiagnostic.span.start = token.start ∧
        other.toDiagnostic.span.start = otherToken.start := by
  cases h with
  | unexpected _ h | exhausted _ h | unknownName h | unusedParameter h | unmatchedClose h
  | misplacedClose h => exact ⟨rfl, _, _, h, rfl, rfl⟩

/-- As many brackets are open, with paired tokens. -/
structure Brackets.Paired (paired : Token → Token → Prop) (brackets others : Brackets) :
    Prop where
  opened : List.Forall₂ paired brackets.opened others.opened
  base_eq : others.base = brackets.base

namespace Brackets.Paired

variable {paired : Token → Token → Prop} {brackets others : Brackets} {token other : Token}

theorem groupOpen_eq (h : brackets.Paired paired others) :
    others.groupOpen = brackets.groupOpen := by
  rw [groupOpen, groupOpen, h.base_eq, h.opened.length_eq]

theorem push (h : brackets.Paired paired others) (ht : paired token other) :
    (brackets.push token).Paired paired (others.push other) :=
  ⟨.cons ht h.opened, h.base_eq⟩

theorem enter (h : brackets.Paired paired others) (ht : paired token other) :
    (brackets.enter token).Paired paired (others.enter other) :=
  ⟨.cons ht h.opened, h.opened.length_eq.symm⟩

theorem leave (h : brackets.Paired paired others) : brackets.leave.Paired paired others.leave :=
  ⟨h.opened, rfl⟩

theorem close (h : brackets.Paired paired others) (ht : paired token other) :
    (brackets.close token).1.Paired paired (others.close other).1 ∧
      List.Forall₂ (Problem.Paired paired) (brackets.close token).2 (others.close other).2 := by
  obtain ⟨opened, base⟩ := brackets
  obtain ⟨otherOpened, otherBase⟩ := others
  obtain ⟨hopened, hbase⟩ := h
  cases hopened with
  | nil => exact ⟨⟨.nil, hbase⟩, .cons (.unmatchedClose ht) .nil⟩
  | cons _ houter => exact ⟨⟨houter, hbase⟩, .nil⟩

theorem above (h : brackets.Paired paired others) :
    List.Forall₂ paired brackets.above others.above := by
  rw [Brackets.above, Brackets.above, h.base_eq, h.opened.length_eq]
  exact List.forall₂_take _ h.opened

theorem below (h : brackets.Paired paired others) :
    List.Forall₂ paired brackets.below others.below := by
  rw [Brackets.below, Brackets.below, h.base_eq, h.opened.length_eq]
  exact List.forall₂_drop _ h.opened

theorem file (h : brackets.Paired paired others) (ht : paired token other) :
    (brackets.file token).Paired paired (others.file other) := by
  rw [file_eq, file_eq]
  exact ⟨List.rel_append h.above (.cons ht h.below), by rw [h.below.length_eq]⟩

theorem skip (hpaired : IsPairing paired) (h : brackets.Paired paired others)
    {tokens otherTokens : List Token} (htokens : List.Forall₂ paired tokens otherTokens) :
    (brackets.skip tokens).1.Paired paired (others.skip otherTokens).1 ∧
      List.Forall₂ (Problem.Paired paired) (brackets.skip tokens).2
        (others.skip otherTokens).2 := by
  induction htokens generalizing brackets others with
  | nil => exact ⟨h, .nil⟩
  | cons ht _ ih =>
    unfold Brackets.skip
    rw [hpaired.kind_eq ht]
    split
    · exact ih (h.file ht)
    · obtain ⟨hclosed, hproblems⟩ := h.close ht
      obtain ⟨hrest, hmore⟩ := ih hclosed
      exact ⟨hrest, List.rel_append hproblems hmore⟩
    · exact ih h

end Brackets.Paired

namespace Checker

/-- The same state with paired tokens. -/
structure Paired (paired : Token → Token → Prop) (checker other : Checker) : Prop where
  phase_eq : other.phase = checker.phase
  parameters : List.Forall₂ (Named paired) checker.parameters other.parameters
  references : List.Forall₂ (Named paired) checker.references other.references
  brackets : checker.brackets.Paired paired other.brackets
  skipped : List.Forall₂ paired checker.skipped other.skipped

/-- The same outcome of a step with paired tokens. -/
def PairedResult (paired : Token → Token → Prop) (result other : Checker × List Problem) : Prop :=
  result.1.Paired paired other.1 ∧ List.Forall₂ (Problem.Paired paired) result.2 other.2

namespace Paired

variable {paired : Token → Token → Prop} (hpaired : IsPairing paired) {checker other : Checker}
  {token otherToken : Token}

include hpaired

theorem names_eq {names others : List Token}
    (hnames : List.Forall₂ (Named paired) names others)
    (ht : Named paired token otherToken) :
    Checker.names others otherToken.text = Checker.names names token.text := by
  induction hnames with
  | nil => rfl
  | cons hname _ ih =>
    have htext := hpaired.text_eq_iff hname.2 ht.2 hname.1 ht.1
    simp only [Checker.names, List.any_cons] at ih ⊢
    rw [ih, decide_eq_decide.mpr htext]

theorem absorb (h : checker.Paired paired other) (ht : paired token otherToken) :
    Option.Rel (PairedResult paired) (checker.absorb token) (other.absorb otherToken) := by
  unfold Checker.absorb
  rw [h.phase_eq, hpaired.kind_eq ht]
  split
  case h_1 => exact .some ⟨h, .nil⟩
  case h_2 =>
    obtain ⟨hclosed, hproblems⟩ := h.brackets.close ht
    exact .some ⟨⟨rfl, h.parameters, h.references, hclosed, h.skipped⟩, hproblems⟩
  case h_3 => exact .some ⟨h, .cons (.unmatchedClose ht) (.cons (.misplacedClose ht) .nil)⟩
  case h_4 | h_5 =>
    exact .some ⟨⟨rfl, h.parameters, h.references, h.brackets.push ht, h.skipped⟩, .nil⟩
  case h_6 =>
    rw [h.brackets.groupOpen_eq]
    split
    · obtain ⟨hclosed, hproblems⟩ := h.brackets.close ht
      exact .some ⟨⟨rfl, h.parameters, h.references, hclosed, h.skipped⟩, hproblems⟩
    · exact .none
  case h_7 | h_8 => exact .some ⟨⟨rfl, h.parameters, h.references, h.brackets, h.skipped⟩, .nil⟩
  case h_9 => exact .none

theorem unused (h : checker.Paired paired other) :
    List.Forall₂ (Named paired) checker.unused other.unused :=
  List.rel_filter
    (fun _ _ hparameter => by simp [names_eq hpaired h.references hparameter]) h.parameters

theorem take (h : checker.Paired paired other) (ht : paired token otherToken) :
    PairedResult paired (checker.take token) (other.take otherToken) := by
  unfold Checker.take
  rw [h.phase_eq, hpaired.kind_eq ht]
  split
  case h_1 => exact ⟨⟨rfl, .nil, .nil, h.brackets.enter ht, .nil⟩, .nil⟩
  case h_3 =>
    split
    · exact ⟨⟨rfl, List.rel_append h.parameters (.cons ⟨‹_›, ht⟩ .nil), h.references,
        h.brackets, h.skipped⟩, .nil⟩
    · exact ⟨⟨rfl, h.parameters, h.references, h.brackets, h.skipped⟩, .nil⟩
  case h_5 | h_6 =>
    split
    · have hname : Named paired token otherToken := ⟨‹_›, ht⟩
      rw [names_eq hpaired h.parameters hname]
      refine ⟨⟨rfl, h.parameters, .cons hname h.references, h.brackets, h.skipped⟩, ?_⟩
      split
      · exact .nil
      · exact .cons (.unknownName ht) .nil
    · exact ⟨⟨rfl, h.parameters, h.references, h.brackets, h.skipped⟩, .nil⟩
  case h_7 =>
    split
    · obtain ⟨hclosed, hproblems⟩ := h.brackets.close ht
      rw [h.parameters.length_eq]
      exact ⟨⟨rfl, h.parameters, h.references, hclosed, h.skipped⟩, hproblems⟩
    · exact ⟨⟨rfl, h.parameters, h.references, h.brackets, h.skipped⟩, .nil⟩
  case h_9 =>
    refine ⟨⟨rfl, .nil, .nil, h.brackets.leave, .nil⟩, ?_⟩
    exact List.rel_map (fun _ _ hparameter => .unusedParameter hparameter.2) (unused hpaired h)
  case h_2 | h_4 | h_8 => exact ⟨⟨rfl, h.parameters, h.references, h.brackets, h.skipped⟩, .nil⟩

omit hpaired in
theorem expected_eq (h : checker.Paired paired other) : other.expected = checker.expected := by
  rw [expected, expected, h.phase_eq]

omit hpaired in
theorem skipping (h : checker.Paired paired other) :
    List.Forall₂ (Problem.Paired paired) checker.skipping other.skipping := by
  have hskipped := h.skipped
  unfold Checker.skipping
  rw [h.expected_eq]
  generalize checker.skipped = skipped at hskipped
  generalize other.skipped = otherSkipped at hskipped
  cases hskipped with
  | nil => exact .nil
  | cons hfound _ => exact .cons (.unexpected _ hfound) .nil

theorem meet (h : checker.Paired paired other) (ht : paired token otherToken) :
    PairedResult paired (checker.meet token) (other.meet otherToken) := by
  obtain ⟨hbrackets, hunmatched⟩ := h.brackets.skip hpaired h.skipped
  unfold Checker.meet
  rw [h.expected_eq, hpaired.kind_eq ht]
  split
  · have hresumed : checker.resumed.Paired paired other.resumed :=
      ⟨h.phase_eq, h.parameters, h.references, hbrackets, .nil⟩
    obtain ⟨hnext, hproblems⟩ := take hpaired hresumed ht
    exact ⟨hnext, List.rel_append (List.rel_append h.skipping hunmatched) hproblems⟩
  · exact ⟨⟨h.phase_eq, h.parameters, h.references, h.brackets,
      List.rel_append h.skipped (.cons ht .nil)⟩, .nil⟩

/-- One token, read by both checks. -/
theorem feed (h : checker.Paired paired other) (ht : paired token otherToken) :
    PairedResult paired (checker.feed token) (other.feed otherToken) := by
  have hnil : other.skipped = [] ↔ checker.skipped = [] := by
    rw [← List.length_eq_zero_iff, ← List.length_eq_zero_iff, h.skipped.length_eq]
  have habsorb := absorb hpaired h ht
  have hmeet := meet hpaired h ht
  unfold Checker.feed
  simp only [hnil, hpaired.kind_eq ht]
  split_ifs
  · exact ⟨h, .nil⟩
  · generalize checker.absorb token = result at habsorb
    generalize other.absorb otherToken = otherResult at habsorb
    cases habsorb with
    | some hresult => exact hresult
    | none => exact hmeet
  · exact hmeet

theorem finish {last otherLast : Token} (h : checker.Paired paired other)
    (hlast : paired last otherLast) :
    List.Forall₂ (Problem.Paired paired) (checker.finish (some last))
      (other.finish (some otherLast)) := by
  obtain ⟨-, hunmatched⟩ := h.brackets.skip hpaired h.skipped
  have hskipped := h.skipped
  unfold Checker.finish
  rw [h.expected_eq, h.phase_eq]
  generalize checker.skipped = skipped at hskipped hunmatched
  generalize other.skipped = otherSkipped at hskipped hunmatched
  cases hskipped with
  | nil =>
    dsimp only
    split
    · exact .nil
    · exact .cons (.exhausted _ hlast) .nil
  | cons hfound _ => exact .cons (.unexpected _ hfound) hunmatched

theorem problemsFrom {last otherLast : Token} {tokens others : List Token}
    (h : checker.Paired paired other) (hlast : paired last otherLast)
    (htokens : List.Forall₂ paired tokens others) :
    List.Forall₂ (Problem.Paired paired) (checker.problemsFrom (some last) tokens)
      (other.problemsFrom (some otherLast) others) := by
  induction htokens generalizing checker other with
  | nil => exact finish hpaired h hlast
  | cons ht _ ih =>
    obtain ⟨hnext, hproblems⟩ := feed hpaired h ht
    exact List.rel_append hproblems (ih hnext)

end Paired

theorem paired_initial (paired : Token → Token → Prop) : initial.Paired paired initial :=
  ⟨rfl, .nil, .nil, ⟨.nil, rfl⟩, .nil⟩

end Checker

namespace Renames

variable {tokens others : List Token}

theorem isPairing (h : Renames tokens others) :
    IsPairing fun token other => (token, other) ∈ tokens.zip others :=
  ⟨fun hplace => h.kind_eq _ hplace, fun hplace hname => h.text_eq_iff _ hplace _ hname⟩

theorem forall₂ (h : Renames tokens others) :
    List.Forall₂ (fun token other => (token, other) ∈ tokens.zip others) tokens others :=
  List.forall₂_iff_zip.mpr ⟨h.length_eq.symm, id⟩

/-- What is kept of both lists by their kinds is still in pairs. -/
theorem forall₂_filter (h : Renames tokens others) (keep : Kind → Bool) :
    List.Forall₂ (fun token other => (token, other) ∈ tokens.zip others)
      (tokens.filter (keep ·.kind)) (others.filter (keep ·.kind)) :=
  List.rel_filter (fun token other hplace => by
    have hkind : other.kind = token.kind := h.kind_eq _ hplace
    simp only [hkind]) h.forall₂

end Renames

theorem exists_getLast?_of_forall₂ {α β : Type} {r : α → β → Prop} {xs : List α} {ys : List β}
    (h : List.Forall₂ r xs ys) (hne : xs ≠ []) :
    ∃ x y, xs.getLast? = some x ∧ ys.getLast? = some y ∧ r x y := by
  rw [← xs.head?_reverse, ← ys.head?_reverse]
  have hreverse := List.rel_reverse h
  generalize hxs : xs.reverse = reversed at hreverse
  generalize ys.reverse = otherReversed at hreverse
  cases hreverse with
  | nil => exact absurd (List.reverse_eq_nil_iff.mp hxs) hne
  | cons hlast _ => exact ⟨_, _, rfl, rfl, hlast⟩

/-- Checks of two token lists with the same kinds and the same pattern of names find as many
problems, of the same codes one by one, and each at the same place in both lists. Neither
where tokens start nor how they are spelled makes a difference. -/
theorem diagnose_renamed {tokens others : List Token} (h : Renames tokens others) :
    List.Forall₂
      (fun diagnostic other => diagnostic.code = other.code ∧
        ∃ place ∈ tokens.zip others, diagnostic.span.start = place.1.start ∧
          other.span.start = place.2.start)
      (diagnose tokens) (diagnose others) := by
  have hread := h.forall₂_filter (!·.isLayout)
  have hkept := h.forall₂_filter (· ≠ .whitespace)
  rw [diagnose, diagnose, problems_eq_problemsFrom, problems_eq_problemsFrom,
    List.forall₂_map_left_iff, List.forall₂_map_right_iff]
  by_cases hnil : significant tokens = []
  · have hother : significant others = [] := by
      rw [← significant, hnil] at hread
      exact List.forall₂_nil_left_iff.mp hread
    rw [hnil, hother]
    exact .nil
  · have hne : tokens.filter (·.kind ≠ .whitespace) ≠ [] := fun hblank =>
      hnil (significant_eq_nil_of_blank hblank)
    obtain ⟨last, otherLast, hlast, hotherLast, hplace⟩ := exists_getLast?_of_forall₂ hkept hne
    rw [hlast, hotherLast]
    have hpaired := Checker.Paired.problemsFrom h.isPairing (Checker.paired_initial _) hplace hread
    refine hpaired.imp fun problem other hproblem => ?_
    obtain ⟨hcode, token, otherToken, hmem, hstart, hother⟩ := hproblem.start_eq
    exact ⟨hcode, (token, otherToken), hmem, hstart, hother⟩

/-- The other tokens lie in reverse order, and only their names say anything. -/
theorem diagnose_renamed_backwards :
    ∃ others : List Token,
      others.map (·.text) = ["", "", "y", "é", "", "", "y", "", "", "x", "", "", ""] ∧
      others.map (·.start) = [40, 37, 33, 30, 29, 26, 22, 19, 18, 11, 9, 4, 0] ∧
      Renames (tokenize "(\\x y -> x + @ z) 1;") others ∧
      List.Forall₂
        (fun diagnostic other => diagnostic.code = other.code ∧
          ∃ place ∈ (tokenize "(\\x y -> x + @ z) 1;").zip others,
            diagnostic.span.start = place.1.start ∧ other.span.start = place.2.start)
        (diagnose (tokenize "(\\x y -> x + @ z) 1;")) (diagnose others) := by
  let others : List Token :=
    [⟨.openBracket, "", 40⟩, ⟨.lambda, "", 37⟩, ⟨.identifier, "y", 33⟩, ⟨.identifier, "é", 30⟩,
      ⟨.minus, "", 29⟩, ⟨.greater, "", 26⟩, ⟨.identifier, "y", 22⟩, ⟨.plus, "", 19⟩,
      ⟨.invalid, "", 18⟩, ⟨.identifier, "x", 11⟩, ⟨.closeBracket, "", 9⟩, ⟨.integer, "", 4⟩,
      ⟨.semicolon, "", 0⟩]
  have h : Renames (tokenize "(\\x y -> x + @ z) 1;") others :=
    ⟨by decide +kernel, by decide +kernel, by decide +kernel⟩
  exact ⟨others, rfl, rfl, h, diagnose_renamed h⟩

end CurriedLambda
