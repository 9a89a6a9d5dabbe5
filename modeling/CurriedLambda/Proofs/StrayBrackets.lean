import CurriedLambda.Proofs.Programs

/-!
Closing brackets where an operand should start. Right after the arrow of a lambda or an
operator of its body a check reads any number of them and stays as it is, whatever groups
are open. So they do no harm to what comes after: strewn into a clean token list, they are
reported one by one, and that is all that is reported.
-/
namespace CurriedLambda

namespace Grammar

/-- The tokens are those of the lambda up to its arrow, or up to an operator of its body. -/
inductive Lambda.BeforeOperand (lambda : Lambda) : List Token → Prop
  | arrow : BeforeOperand lambda lambda.head
  | operator {links later : List Link} {link : Link}
      (h : lambda.body.links = links ++ link :: later) :
      BeforeOperand lambda (lambda.head ++
        (lambda.body.first.tokens ++ (links.flatMap Link.tokens ++ [link.operator])))

/-- The tokens are those of the items up to a place where an operand starts. -/
def EndsBeforeOperand (items : List Item) (tokens : List Token) : Prop :=
  ∃ earlier lambda later before, items = earlier ++ .lambda lambda :: later ∧
    lambda.BeforeOperand before ∧ tokens = earlier.flatMap Item.tokens ++ before

/-- The tokens are a program, and after those that are passed an operand starts in it. Layout
may stand before the operand. -/
def StartsOperand (tokens passed : List Token) : Prop :=
  ∃ items : List Item, significant tokens = items.flatMap Item.tokens ∧
    EndsBeforeOperand items (significant passed)

end Grammar

/-- Tokens with others strewn in between them: on the left the tokens themselves, on the
right the strays. -/
abbrev Strewn := List (Token ⊕ Token)

namespace Strewn

/-- The tokens without the strays. -/
def own (strewn : Strewn) : List Token := strewn.filterMap Sum.getLeft?

def strays (strewn : Strewn) : List Token := strewn.filterMap Sum.getRight?

/-- The tokens with the strays. -/
def whole (strewn : Strewn) : List Token := strewn.map (Sum.elim id id)

end Strewn

namespace Checker

open Grammar

variable {checker : Checker} {passed tokens : List Token}

/-- Nothing is skipped, and an operand has to come next. -/
def AwaitsOperand (checker : Checker) : Prop :=
  (∃ first, checker.phase = .operand first) ∧ checker.skipped = []

theorem awaitsOperand_head (brackets : Brackets) (lambda : Lambda) :
    ((between brackets).feedAll lambda.head).1.AwaitsOperand := by
  rw [feedAll_head]
  exact ⟨⟨true, rfl⟩, rfl⟩

/-- In a body whose brackets balance, an operand comes next after each operator. -/
theorem awaitsOperand_operator {operand : Operand} {links : List Link} {operator : Token}
    {rest : List Token} (hskipped : checker.skipped = []) (hphase : checker.phase = .operand true)
    (houter : checker.brackets.opened.length = checker.brackets.base + 1)
    (hbalanced : balances 0 (operand.tokens ++ (links.flatMap Link.tokens ++ rest)))
    (hoperator : operator.kind.isOperator) :
    (checker.feedAll (operand.tokens ++ (links.flatMap Link.tokens ++ [operator]))).1
      |>.AwaitsOperand := by
  have hnone : checker.brackets.opened = [] ++ checker.brackets.opened := rfl
  obtain ⟨groups, hlinks, hoperand⟩ :=
    feedAll_operand hskipped (.inl hphase) hnone houter hbalanced
  obtain ⟨groups', -, hread⟩ :=
    @feedAll_links_append { checker with
      phase := .operator true
      references := operand.names ++ checker.references
      brackets := ⟨groups ++ checker.brackets.opened, checker.brackets.base⟩ } true links groups
      _ _ hskipped rfl rfl houter hlinks
  rw [feedAll_append, hoperand, feedAll_append, hread, feedAll_cons,
    feed_operator (by exact hskipped) rfl hoperator]
  exact ⟨⟨false, rfl⟩, hskipped⟩

/-- Where the grammar starts an operand, the check awaits one. -/
theorem awaitsOperand_of_startsOperand (h : StartsOperand tokens passed) :
    (after passed).AwaitsOperand := by
  obtain ⟨items, -, earlier, lambda, later, before, -, hbefore, hpassed⟩ := h
  rw [after, ← feedAll_significant, hpassed, feedAll_append, initial, feedAll_items]
  cases hbefore with
  | arrow => exact awaitsOperand_head _ lambda
  | @operator links later link hlinks =>
    have hbalanced := lambda.body.balanced
    rw [hlinks, List.flatMap_append] at hbalanced
    rw [feedAll_append, feedAll_head]
    exact awaitsOperand_operator rfl rfl rfl hbalanced link.operator_kind

/-- What a closing bracket causes where an operand should start. -/
def strayProblems (bracket : Token) : List Problem :=
  [.unmatchedClose bracket, .misplacedClose bracket]

theorem feed_stray {bracket : Token} (h : checker.AwaitsOperand)
    (hkind : bracket.kind = .closeBracket) :
    checker.feed bracket = (checker, strayProblems bracket) := by
  obtain ⟨⟨first, hphase⟩, hskipped⟩ := h
  exact feed_misplaced hskipped hphase hkind

/-- A check of clean tokens and strays is in the state of a check of the tokens alone, after
each of them. -/
theorem feedAll_whole (strewn : Strewn) (hclean : (checker.feedAll strewn.own).2 = [])
    (hstrays : ∀ i bracket, strewn[i]? = some (.inr bracket) → bracket.kind = .closeBracket ∧
      (checker.feedAll (Strewn.own (strewn.take i))).1.AwaitsOperand) :
    checker.feedAll strewn.whole =
      ((checker.feedAll strewn.own).1, strewn.strays.flatMap strayProblems) := by
  induction strewn generalizing checker with
  | nil => rfl
  | cons entry rest ih =>
    cases entry with
    | inl token =>
      have hown : Strewn.own (.inl token :: rest) = token :: Strewn.own rest := rfl
      rw [hown, feedAll_cons, List.append_eq_nil_iff] at hclean
      have hrest := ih hclean.2 fun i bracket hi => hstrays (i + 1) bracket hi
      have hwhole : Strewn.whole (.inl token :: rest) = token :: Strewn.whole rest := rfl
      rw [hwhole, hown, feedAll_cons, feedAll_cons, hrest, hclean.1]
      rfl
    | inr bracket =>
      -- The bracket leaves the state alone, so the rest is read as if it were not there.
      obtain ⟨hkind, hawaits⟩ := hstrays 0 bracket rfl
      have hfeed : checker.feed bracket = (checker, strayProblems bracket) :=
        feed_stray hawaits hkind
      have hrest := ih hclean fun i other hi => hstrays (i + 1) other hi
      have hwhole : Strewn.whole (.inr bracket :: rest) = bracket :: Strewn.whole rest := rfl
      rw [hwhole, feedAll_cons, hfeed, hrest]
      rfl

/-- Tokens that cause no problem end between expressions. -/
theorem endsBetween_of_problems_eq_nil (h : problems tokens = []) : EndsBetween tokens := by
  have hfinish := (List.append_eq_nil_iff.mp h).2
  unfold finish at hfinish
  split at hfinish
  · cases hfinish
  · rename_i hskipped
    split at hfinish
    · exact ⟨‹_›, hskipped⟩
    · cases hfinish

end Checker

/-- The two diagnostics of a closing bracket that stands where an operand should start. -/
def strayReports (bracket : Token) : List Diagnostic :=
  [⟨.unmatchedClose, "closing bracket without matching opening bracket",
      .ofLength bracket.start bracket.length⟩,
    ⟨.misplacedClose, "closing bracket misplaced", .ofLength bracket.start bracket.length⟩]

/-- Closing brackets that are strewn into tokens without diagnostics, each after an arrow or
an operator of a body, cause their own two diagnostics each and no others. -/
theorem diagnose_strewn (strewn : Strewn) (hclean : diagnose strewn.own = [])
    (hstrays : ∀ i bracket, strewn[i]? = some (.inr bracket) → bracket.kind = .closeBracket ∧
      Grammar.StartsOperand strewn.own (Strewn.own (strewn.take i))) :
    diagnose strewn.whole = strewn.strays.flatMap strayReports := by
  have hnone : problems strewn.own = [] := List.map_eq_nil_iff.mp hclean
  obtain ⟨hphase, hskipped⟩ := Checker.endsBetween_of_problems_eq_nil hnone
  have hrun : Checker.initial.feedAll strewn.whole =
      (Checker.after strewn.own, strewn.strays.flatMap Checker.strayProblems) := by
    refine Checker.feedAll_whole strewn (List.append_eq_nil_iff.mp hnone).1 fun i bracket hi => ?_
    obtain ⟨hkind, hstarts⟩ := hstrays i bracket hi
    exact ⟨hkind, Checker.awaitsOperand_of_startsOperand hstarts⟩
  have hends : Checker.EndsBetween strewn.whole := by
    rw [Checker.EndsBetween, Checker.after, hrun]
    exact ⟨hphase, hskipped⟩
  rw [diagnose, hends.problems_eq, hrun, List.map_flatMap]
  rfl

/-- One stray after the arrow, two after the plus sign and one in the group. -/
theorem diagnose_strewn_into_group :
    let strewn : Strewn := (tokenize "(\\x->)x+))(x/)2))3;").zipIdx.map fun (token, place) =>
      if place ∈ [5, 8, 9, 13] then .inr token else .inl token
    diagnose strewn.own = [] ∧
      (∀ i bracket, strewn[i]? = some (.inr bracket) → bracket.kind = .closeBracket ∧
        Grammar.StartsOperand strewn.own (Strewn.own (strewn.take i))) ∧
      diagnose strewn.whole = strewn.strays.flatMap strayReports := by
  intro strewn
  have hclean : diagnose strewn.own = [] := by decide +kernel
  have hkinds : ∀ token ∈ strewn.strays, token.kind = .closeBracket := by decide +kernel
  have hplaces : ∀ i < strewn.length, (strewn[i]?.bind Sum.getRight?).isSome →
      i = 5 ∨ i = 8 ∨ i = 9 ∨ i = 13 := by decide +kernel
  let plus : Grammar.Link :=
    ⟨⟨.plus, "+", 7⟩, ⟨[⟨.openBracket, "(", 10⟩], ⟨.identifier, "x", 11⟩, [], by decide,
      .inl rfl, nofun⟩, rfl⟩
  let division : Grammar.Link :=
    ⟨⟨.divide, "/", 12⟩, ⟨[], ⟨.integer, "2", 14⟩, [⟨.closeBracket, ")", 15⟩], nofun,
      .inr (.inl rfl), by decide⟩, rfl⟩
  let lambda : Grammar.Lambda :=
    { opening := ⟨.openBracket, "(", 0⟩
      introducer := ⟨.lambda, "\\", 1⟩
      parameters := [⟨.identifier, "x", 2⟩]
      minus := ⟨.minus, "-", 3⟩
      greater := ⟨.greater, ">", 4⟩
      body := ⟨⟨[], ⟨.identifier, "x", 6⟩, [], nofun, .inl rfl, nofun⟩, [plus, division], nofun,
        by decide⟩
      closing := ⟨.closeBracket, ")", 16⟩
      arguments := [⟨none, ⟨.integer, "3", 17⟩, nofun, .inl rfl⟩]
      semicolon := ⟨.semicolon, ";", 18⟩
      opening_kind := rfl
      introducer_kind := rfl
      parameters_kind := by decide
      minus_kind := rfl
      greater_kind := rfl
      closing_kind := rfl
      arguments_length := rfl
      semicolon_kind := rfl }
  have hown : significant strewn.own =
      [Grammar.Item.lambda lambda].flatMap Grammar.Item.tokens := by
    decide +kernel
  have hplus : lambda.body.links = [] ++ plus :: [division] := rfl
  have hdivision : lambda.body.links = [plus] ++ division :: [] := rfl
  have hstarts {i : Nat} {before : List Token} (hbefore : lambda.BeforeOperand before)
      (hpassed : significant (Strewn.own (strewn.take i)) = before) :
      Grammar.StartsOperand strewn.own (Strewn.own (strewn.take i)) :=
    ⟨_, hown, [], lambda, [], before, rfl, hbefore, hpassed⟩
  have hstrays : ∀ i bracket, strewn[i]? = some (.inr bracket) → bracket.kind = .closeBracket ∧
      Grammar.StartsOperand strewn.own (Strewn.own (strewn.take i)) := by
    intro i bracket hi
    refine ⟨hkinds bracket (List.mem_filterMap.mpr ⟨_, List.mem_of_getElem? hi, rfl⟩), ?_⟩
    have hlt : i < strewn.length := (List.getElem?_eq_some_iff.mp hi).1
    rcases hplaces i hlt (by rw [hi]; rfl) with rfl | rfl | rfl | rfl
    · exact hstarts .arrow (by decide +kernel)
    · exact hstarts (.operator hplus) (by decide +kernel)
    · exact hstarts (.operator hplus) (by decide +kernel)
    · exact hstarts (.operator hdivision) (by decide +kernel)
  exact ⟨hclean, hstrays, diagnose_strewn strewn hclean hstrays⟩

end CurriedLambda
