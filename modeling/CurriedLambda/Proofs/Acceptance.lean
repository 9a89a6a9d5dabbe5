import CurriedLambda.Proofs.Completion
import CurriedLambda.Proofs.Programs

/-!
What checking accepts. A token list has no fault of syntax if and only if its tokens,
layout apart, are a program, and the problems of a program are those of its names. So a
token list has no diagnostic at all if and only if it is a program whose names resolve.
-/
namespace CurriedLambda

open Grammar

theorem names_eq_true_iff {tokens : List Token} {text : String} :
    Checker.names tokens text = true ↔ ∃ token ∈ tokens, token.text = text := by
  simp [Checker.names]

theorem unknownNames_eq_nil_iff {parameters references : List Token} :
    unknownNames parameters references = [] ↔
      ∀ reference ∈ references, ∃ parameter ∈ parameters, parameter.text = reference.text := by
  simp [unknownNames, List.filter_eq_nil_iff, names_eq_true_iff]

theorem unusedParameters_eq_nil_iff {parameters references : List Token} :
    unusedParameters parameters references = [] ↔
      ∀ parameter ∈ parameters, ∃ reference ∈ references, reference.text = parameter.text := by
  simp [unusedParameters, List.filter_eq_nil_iff, names_eq_true_iff]

theorem nameProblems_eq_nil_iff (item : Item) : item.nameProblems = [] ↔ item.Resolved := by
  cases item with
  | semicolon token hkind => simp [Item.nameProblems, Item.Resolved]
  | lambda value =>
    rw [Item.nameProblems, Lambda.nameProblems, List.append_eq_nil_iff,
      unknownNames_eq_nil_iff, unusedParameters_eq_nil_iff]
    rfl

theorem namesOnly_nameProblems (items : List Item) :
    NamesOnly (items.flatMap Item.nameProblems) := by
  intro problem hproblem
  obtain ⟨item, -, hitem⟩ := List.mem_flatMap.mp hproblem
  cases item with
  | semicolon token hkind => simp [Item.nameProblems] at hitem
  | lambda value =>
    rcases List.mem_append.mp hitem with hmem | hmem
    · obtain ⟨name, -, rfl⟩ := List.mem_map.mp hmem
      rfl
    · obtain ⟨parameter, -, rfl⟩ := List.mem_map.mp hmem
      rfl

/-- A program causes the problems of its items and no others. -/
theorem problemsFrom_items (last : Option Token) (items : List Item) :
    Checker.initial.problemsFrom last (items.flatMap Item.tokens) =
      items.flatMap Item.nameProblems := by
  rw [Checker.problemsFrom_eq_feedAll, Checker.initial, Checker.feedAll_items]
  simp [Checker.finish, Checker.between]

/-- A clean check ends without a fault between items, and with one anywhere else. -/
theorem Checker.Clean.finish {checker : Checker} (hclean : checker.Clean) (last : Option Token) :
    checker.finish last =
      if checker.phase = .item then [] else [.exhausted checker.expected last] := by
  simp [Checker.finish, hclean.skipped_eq]

/-- Reading tokens finds problems of names only, and then they are a program, or they end
too early, or the next one is refused. Up to there they are the start of a program. -/
theorem Checker.problemsFrom_cases (last : Option Token) {tokens : List Token}
    (hlayout : ∀ token ∈ tokens, token.kind.isLayout = false) :
    ∃ found, NamesOnly found ∧
      (initial.problemsFrom last tokens = found ∧ IsProgram tokens ∨
        (∃ expected, initial.problemsFrom last tokens = found ++ [.exhausted expected last] ∧
          IsViable tokens) ∨
        ∃ before token after problem others, tokens = before ++ token :: after ∧
          initial.problemsFrom last tokens = found ++ problem :: others ∧
          problem.code.isSyntax ∧ problem.code ≠ .unexpectedEnd ∧
          problem.span.start = token.start ∧ IsViable before ∧
          (initial.feedAll before).1.Refuses token) := by
  rcases clean_initial.moves_or_refuses hlayout with
    ⟨place, hmoves⟩ | ⟨before, token, after, place, rfl, hmoves, hrefuses⟩
  · obtain ⟨hclean, rfl, hfound⟩ := clean_initial.feedAll_of_moves tokens hmoves
    refine ⟨_, hfound, ?_⟩
    rw [problemsFrom_eq_feedAll, hclean.finish]
    by_cases hitem : (initial.feedAll tokens).1.phase = .item
    · left
      rw [if_pos hitem, List.append_nil]
      have hprogram : initial.place.CompletedBy tokens := hmoves.completedBy hitem
      exact ⟨rfl, hprogram⟩
    · right
      left
      rw [if_neg hitem]
      exact ⟨_, rfl, hmoves.viable hclean.opened_holds⟩
  · obtain ⟨hclean, rfl, hfound⟩ := clean_initial.feedAll_of_moves before hmoves
    obtain ⟨problem, others, heq, hfault, hcode, hstart⟩ := hrefuses.problemsFrom last after
    refine ⟨_, hfound, .inr (.inr ⟨before, token, after, problem, others, rfl, ?_, hfault,
      hcode, hstart, hmoves.viable hclean.opened_holds, hrefuses⟩)⟩
    rw [problemsFrom_append, heq]

theorem not_namesOnly_of_fault {found others : List Problem} {problem : Problem}
    (hfault : problem.code.isSyntax) : ¬ NamesOnly (found ++ problem :: others) := by
  intro hnames
  have hname := hnames problem (List.mem_append_right _ List.mem_cons_self)
  simp [hname] at hfault

/-- The tokens are a program if and only if they cause no fault of syntax. -/
theorem isProgram_iff_namesOnly (last : Option Token) {tokens : List Token}
    (hlayout : ∀ token ∈ tokens, token.kind.isLayout = false) :
    IsProgram tokens ↔ NamesOnly (Checker.initial.problemsFrom last tokens) := by
  constructor
  · rintro ⟨items, rfl⟩
    rw [problemsFrom_items]
    exact namesOnly_nameProblems items
  · intro hnames
    obtain ⟨found, -, ⟨-, hprogram⟩ | ⟨expected, heq, -⟩ |
      ⟨before, token, after, problem, others, -, heq, hfault, -⟩⟩ :=
        Checker.problemsFrom_cases last hlayout
    · exact hprogram
    · rw [heq] at hnames
      exact absurd hnames (not_namesOnly_of_fault rfl)
    · rw [heq] at hnames
      exact absurd hnames (not_namesOnly_of_fault hfault)

/-- There is no diagnostic if and only if the tokens are a program, each name of a body
is a parameter of its lambda and each parameter is a name of the body. -/
theorem diagnose_eq_nil_iff (tokens : List Token) :
    diagnose tokens = [] ↔ ∃ items : List Item,
      significant tokens = items.flatMap Item.tokens ∧ ∀ item ∈ items, item.Resolved := by
  rw [diagnose, List.map_eq_nil_iff, problems_eq_problemsFrom]
  constructor
  · intro hnone
    obtain ⟨items, hitems⟩ := (isProgram_iff_namesOnly _
      fun _ => isLayout_of_mem_significant).mpr (hnone ▸ namesOnly_nil)
    rw [hitems, problemsFrom_items] at hnone
    refine ⟨items, hitems, fun item hitem => ?_⟩
    exact (nameProblems_eq_nil_iff item).mp (List.flatMap_eq_nil_iff.mp hnone item hitem)
  · rintro ⟨items, hitems, hresolved⟩
    rw [hitems, problemsFrom_items, List.flatMap_eq_nil_iff]
    exact fun item hitem => (nameProblems_eq_nil_iff item).mpr (hresolved item hitem)

end CurriedLambda
