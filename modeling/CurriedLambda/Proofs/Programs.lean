import CurriedLambda.Proofs.Reading

/-!
Reading a program. A lambda that stands between expressions is read without a fault of
syntax, whatever brackets are open around it: the check is back where it was, and the
problems are one for each name of the body that is no parameter and one for each
parameter that the body does not name. So a program causes the problems of its items.
-/
namespace CurriedLambda

open Grammar

/-- A problem for each reference that is none of the parameters. -/
def unknownNames (parameters references : List Token) : List Problem :=
  (references.filter fun reference => !Checker.names parameters reference.text).map .unknownName

/-- A problem for each parameter that is none of the references. -/
def unusedParameters (parameters references : List Token) : List Problem :=
  (parameters.filter fun parameter => !Checker.names references parameter.text).map
    .unusedParameter

def Grammar.Lambda.nameProblems (lambda : Lambda) : List Problem :=
  unknownNames lambda.parameters lambda.body.names ++
    unusedParameters lambda.parameters lambda.body.names

def Grammar.Item.nameProblems : Item → List Problem
  | .semicolon .. => []
  | .lambda value => value.nameProblems

theorem unknownNames_append (parameters first second : List Token) :
    unknownNames parameters (first ++ second) =
      unknownNames parameters first ++ unknownNames parameters second := by
  simp [unknownNames]

namespace Checker

variable {checker : Checker} {first : Bool}

theorem feedAll_parameters {parameters : List Token} (hskipped : checker.skipped = [])
    (hphase : checker.phase = .parameter)
    (hkind : ∀ token ∈ parameters, token.kind = .identifier) :
    checker.feedAll parameters =
      ({ checker with parameters := checker.parameters ++ parameters }, []) := by
  induction parameters generalizing checker with
  | nil => simp
  | cons token rest ih =>
    have hfeed := feed_parameter hskipped hphase (hkind token (List.mem_cons_self ..))
    have hrest := fun t ht => hkind t (List.mem_cons_of_mem _ ht)
    rw [feedAll_cons, hfeed, ih (by exact hskipped) (by exact hphase) hrest]
    simp

/-- The brackets before an operand and the operand itself. -/
theorem feedAll_atom {opening names : List Token} {atom : Token} (hskipped : checker.skipped = [])
    (hphase : checker.phase = .operand first ∨ checker.phase = .group first)
    (hopening : ∀ token ∈ opening, token.kind = .openBracket)
    (hatom : atom.kind = .identifier ∨ atom.kind = .integer ∨ atom.kind = .float)
    (hnames : names = if atom.kind = .identifier then [atom] else []) :
    checker.feedAll (opening ++ [atom]) =
      ({ checker with
          phase := .operator first
          references := names ++ checker.references
          brackets := ⟨opening.reverse ++ checker.brackets.opened, checker.brackets.base⟩ },
        unknownNames checker.parameters names) := by
  induction opening generalizing checker with
  | nil =>
    rw [List.nil_append, feedAll_cons]
    rcases hatom with hname | hnumeral
    · rw [feed_name hskipped hphase hname]
      cases hdeclared : Checker.names checker.parameters atom.text <;>
        simp [hnames, hname, unknownNames, hdeclared]
    · have hnoname : atom.kind ≠ .identifier := by rcases hnumeral with h | h <;> simp [h]
      rw [feed_numeral hskipped hphase hnumeral]
      simp [hnames, hnoname, unknownNames]
  | cons token rest ih =>
    have hfeed := feed_group hskipped hphase (hopening token (List.mem_cons_self ..))
    have hrest := fun t ht => hopening t (List.mem_cons_of_mem _ ht)
    rw [List.cons_append, feedAll_cons, hfeed, ih (by exact hskipped) (.inr rfl) hrest]
    simp [Brackets.push]

/-- Brackets after an operand that close groups of the body. -/
theorem feedAll_closing {closing groups outer : List Token} (hskipped : checker.skipped = [])
    (hphase : checker.phase = .operator first)
    (hopened : checker.brackets.opened = groups ++ outer)
    (houter : outer.length = checker.brackets.base + 1)
    (hclosing : ∀ token ∈ closing, token.kind = .closeBracket)
    (hlength : closing.length ≤ groups.length) :
    checker.feedAll closing =
      ({ checker with
          brackets := ⟨groups.drop closing.length ++ outer, checker.brackets.base⟩ }, []) := by
  induction closing generalizing checker groups with
  | nil => simp [← hopened]
  | cons token rest ih =>
    cases groups with
    | nil => simp at hlength
    | cons group groups =>
      have hgroup : checker.brackets.groupOpen := by
        simp only [Brackets.groupOpen, hopened, List.length_append, List.length_cons, houter,
          decide_eq_true_eq]
        omega
      have hfeed := feed_endGroup hskipped hphase hgroup (hclosing token (List.mem_cons_self ..))
      have hrest := fun t ht => hclosing t (List.mem_cons_of_mem _ ht)
      rw [feedAll_cons, hfeed]
      simp only [Brackets.close, hopened, List.cons_append]
      rw [ih (by exact hskipped) (by exact hphase) rfl (by exact houter) hrest
        (by simpa using hlength)]
      simp

/-- An operand, in a body with these groups open. What balanced before the operand
balances after it, with the groups that are open then. -/
theorem feedAll_operand {operand : Operand} {groups outer rest : List Token}
    (hskipped : checker.skipped = [])
    (hphase : checker.phase = .operand first ∨ checker.phase = .group first)
    (hopened : checker.brackets.opened = groups ++ outer)
    (houter : outer.length = checker.brackets.base + 1)
    (hbalanced : balances groups.length (operand.tokens ++ rest)) :
    ∃ groups' : List Token, balances groups'.length rest ∧
      checker.feedAll operand.tokens =
        ({ checker with
            phase := .operator first
            references := operand.names ++ checker.references
            brackets := ⟨groups' ++ outer, checker.brackets.base⟩ },
          unknownNames checker.parameters operand.names) := by
  have hopen : operand.atom.kind ≠ .openBracket := by
    rcases operand.atom_kind with h | h | h <;> simp [h]
  have hclose : operand.atom.kind ≠ .closeBracket := by
    rcases operand.atom_kind with h | h | h <;> simp [h]
  rw [Operand.tokens, List.append_assoc, List.cons_append,
    balances_opening operand.opening_kind, balances_cons hopen hclose,
    balances_closing operand.closing_kind] at hbalanced
  obtain ⟨hlength, hbalanced⟩ := (Bool.and_eq_true _ _).mp hbalanced
  have hsplit : operand.tokens = (operand.opening ++ [operand.atom]) ++ operand.closing := by
    simp [Operand.tokens]
  have hgroups : operand.opening.reverse ++ checker.brackets.opened =
      (operand.opening.reverse ++ groups) ++ outer := by
    rw [hopened, List.append_assoc]
  have hfits : operand.closing.length ≤ (operand.opening.reverse ++ groups).length := by
    simpa [Nat.add_comm] using hlength
  refine ⟨(operand.opening.reverse ++ groups).drop operand.closing.length, ?_, ?_⟩
  · simpa [Nat.add_comm] using hbalanced
  · rw [hsplit, feedAll_append,
      feedAll_atom hskipped hphase operand.opening_kind operand.atom_kind rfl,
      feedAll_closing (by exact hskipped) rfl (by exact hgroups) (by exact houter)
        operand.closing_kind (by exact hfits)]
    simp [Operand.names]

/-- Operators and operands of a body. What balanced before them balances after them, with
the groups that are open then. -/
theorem feedAll_links_append {links : List Link} {groups outer rest : List Token}
    (hskipped : checker.skipped = []) (hphase : checker.phase = .operator first)
    (hopened : checker.brackets.opened = groups ++ outer)
    (houter : outer.length = checker.brackets.base + 1)
    (hbalanced : balances groups.length (links.flatMap Link.tokens ++ rest)) :
    ∃ groups' : List Token, balances groups'.length rest ∧
      checker.feedAll (links.flatMap Link.tokens) =
        ({ checker with
            phase := .operator (first && links.isEmpty)
            references :=
              (links.flatMap fun link => link.operand.names).reverse ++ checker.references
            brackets := ⟨groups' ++ outer, checker.brackets.base⟩ },
          unknownNames checker.parameters (links.flatMap fun link => link.operand.names)) := by
  induction links generalizing checker first groups with
  | nil => exact ⟨groups, hbalanced, by simp [unknownNames, ← hphase, ← hopened]⟩
  | cons link links ih =>
    have hoperator := link.operator_kind
    have hopen : link.operator.kind ≠ .openBracket := by
      intro h
      simp [h, Kind.isOperator] at hoperator
    have hclose : link.operator.kind ≠ .closeBracket := by
      intro h
      simp [h, Kind.isOperator] at hoperator
    rw [List.flatMap_cons, Link.tokens, List.cons_append, List.cons_append,
      balances_cons hopen hclose, List.append_assoc] at hbalanced
    obtain ⟨groups', hbalanced', hoperand⟩ :=
      @feedAll_operand { checker with phase := .operand false } false _ _ _ _
        hskipped (.inl rfl) hopened houter hbalanced
    obtain ⟨groups'', hrest, hlinks⟩ :=
      @ih { checker with
        phase := .operator false
        references := link.operand.names ++ checker.references
        brackets := ⟨groups' ++ outer, checker.brackets.base⟩ } false groups'
        hskipped rfl rfl houter hbalanced'
    refine ⟨groups'', hrest, ?_⟩
    rw [List.flatMap_cons, Link.tokens, List.cons_append, feedAll_cons,
      feed_operator hskipped hphase hoperator, feedAll_append, hoperand, hlinks,
      List.flatMap_cons]
    simp [unknownNames_append]

/-- The rest of a body after its first operand, up to the bracket that ends it. -/
theorem feedAll_links {links : List Link} {groups outer : List Token}
    (hskipped : checker.skipped = []) (hphase : checker.phase = .operator first)
    (hopened : checker.brackets.opened = groups ++ outer)
    (houter : outer.length = checker.brackets.base + 1)
    (hbalanced : balances groups.length (links.flatMap Link.tokens)) :
    checker.feedAll (links.flatMap Link.tokens) =
      ({ checker with
          phase := .operator (first && links.isEmpty)
          references := (links.flatMap fun link => link.operand.names).reverse ++ checker.references
          brackets := ⟨outer, checker.brackets.base⟩ },
        unknownNames checker.parameters (links.flatMap fun link => link.operand.names)) := by
  rw [← List.append_nil (links.flatMap Link.tokens)] at hbalanced
  obtain ⟨groups', hnone, hlinks⟩ :=
    feedAll_links_append hskipped hphase hopened houter hbalanced
  obtain rfl : groups' = [] := by simpa [balances] using hnone
  exact hlinks

theorem feedAll_body (body : Body) (hskipped : checker.skipped = [])
    (hphase : checker.phase = .operand true)
    (houter : checker.brackets.opened.length = checker.brackets.base + 1) :
    checker.feedAll body.tokens =
      ({ checker with
          phase := .operator false
          references := body.names.reverse ++ checker.references },
        unknownNames checker.parameters body.names) := by
  have hnone : checker.brackets.opened = [] ++ checker.brackets.opened := rfl
  obtain ⟨groups, hbalanced, hoperand⟩ :=
    feedAll_operand hskipped (.inl hphase) hnone houter body.balanced
  have hlinks : body.links.isEmpty = false := by simpa using body.links_ne_nil
  rw [Body.tokens, feedAll_append, hoperand,
    feedAll_links (by exact hskipped) rfl rfl (by exact houter) hbalanced, Body.names]
  simp [unknownNames_append, hlinks]

theorem feedAll_argument (argument : Argument) {further : Nat} (hskipped : checker.skipped = [])
    (hphase : checker.phase = .argument further false) :
    checker.feedAll argument.tokens = ({ checker with phase := .arguments further }, []) := by
  obtain ⟨sign, number, hsign, hnumber⟩ := argument
  cases sign with
  | none => simp [Argument.tokens, feedAll_cons, feed_number hskipped hphase hnumber]
  | some sign =>
    have hfeed := feed_sign hskipped hphase (hsign sign rfl)
    have hnext := @feed_number { checker with phase := .argument further true } number further true
      hskipped rfl hnumber
    simp [Argument.tokens, feedAll_cons, hfeed, hnext]

theorem feedAll_arguments {arguments : List Argument} (hskipped : checker.skipped = [])
    (hphase : checker.phase = .arguments arguments.length) :
    checker.feedAll (arguments.flatMap Argument.tokens) =
      ({ checker with phase := .terminator }, []) := by
  induction arguments generalizing checker with
  | nil => simp [← show checker.phase = .terminator from hphase]
  | cons argument rest ih =>
    rw [List.flatMap_cons, feedAll_append, feedAll_argument argument hskipped hphase,
      ih (by exact hskipped) rfl]
    rfl

/-- The head of a lambda, up to the place of the first operand. -/
theorem feedAll_head (brackets : Brackets) (lambda : Lambda) :
    (between brackets).feedAll lambda.head =
      (⟨.operand true, lambda.parameters, [], brackets.leave.enter lambda.opening, []⟩, []) := by
  rw [Lambda.head, feedAll_cons, feed_opening rfl rfl lambda.opening_kind, feedAll_cons,
    feed_introducer rfl rfl lambda.introducer_kind, feedAll_append,
    feedAll_parameters rfl rfl lambda.parameters_kind, feedAll_cons,
    feed_minus rfl rfl lambda.minus_kind, feedAll_cons,
    feed_greater rfl rfl lambda.greater_kind]
  rfl

/-- A lambda is read without a fault of syntax, whatever brackets are open around it. -/
theorem feedAll_lambda (brackets : Brackets) (lambda : Lambda) :
    (between brackets).feedAll lambda.tokens = (between brackets, lambda.nameProblems) := by
  have houter : (brackets.leave.enter lambda.opening).groupOpen = false := by
    simp [Brackets.groupOpen, Brackets.enter]
  rw [Lambda.tokens_eq_head_append, feedAll_append, feedAll_head, feedAll_append,
    feedAll_body lambda.body rfl rfl rfl, feedAll_cons,
    feed_endBody rfl rfl houter lambda.closing_kind, feedAll_append]
  simp only [Brackets.close, Brackets.enter]
  rw [feedAll_arguments rfl (by simp [lambda.arguments_length]), feedAll_cons,
    feed_terminator rfl rfl lambda.semicolon_kind]
  simp [between, Brackets.leave, unused, Lambda.nameProblems, unusedParameters, names]

theorem feedAll_items (brackets : Brackets) (items : List Item) :
    (between brackets).feedAll (items.flatMap Item.tokens) =
      (between brackets, items.flatMap Item.nameProblems) := by
  induction items with
  | nil => rfl
  | cons item rest ih =>
    rw [List.flatMap_cons, feedAll_append]
    cases item with
    | semicolon token hkind =>
      rw [Item.tokens, feedAll_cons, feed_separator rfl rfl hkind]
      simp [ih, Item.nameProblems]
    | lambda value =>
      rw [Item.tokens, feedAll_lambda]
      simp [ih, Item.nameProblems]

end Checker

end CurriedLambda
