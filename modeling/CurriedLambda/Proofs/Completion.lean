import CurriedLambda.Proofs.LegalMoves

/-!
What is left of a program at each place. Legal moves to a place between items spell the
rest of the item under way and then items, so that from the start they spell a program.
And such moves exist from every place where the brackets are as its phase has them: what
has been read by legal moves alone can always be continued to a program.
-/
namespace CurriedLambda

open Grammar

/-- The tokens are the last `count` arguments of an item, its semicolon and a program. -/
def EndsArguments (count : Nat) (tokens : List Token) : Prop :=
  ∃ (arguments : List Argument) (semicolon : Token) (rest : List Token),
    arguments.length = count ∧ semicolon.kind = .semicolon ∧ IsProgram rest ∧
      tokens = arguments.flatMap Argument.tokens ++ semicolon :: rest

/-- The tokens are the bracket that ends a body and what comes after it. -/
def EndsBody (count : Nat) (tokens : List Token) : Prop :=
  ∃ (closing : Token) (rest : List Token),
    closing.kind = .closeBracket ∧ EndsArguments count rest ∧ tokens = closing :: rest

/-- The tokens go on with an operand of a body in which `depth` groups are open. -/
def GoesOnOperand (count : Nat) (first : Bool) (depth : Nat) (tokens : List Token) : Prop :=
  ∃ (operand : Operand) (links : List Link) (rest : List Token),
    (first → links ≠ []) ∧ balances depth (operand.tokens ++ links.flatMap Link.tokens) ∧
      EndsBody count rest ∧ tokens = operand.tokens ++ links.flatMap Link.tokens ++ rest

/-- The tokens go on after an operand of a body in which `depth` groups are open. -/
def GoesOnOperator (count : Nat) (first : Bool) (depth : Nat) (tokens : List Token) : Prop :=
  ∃ (closing : List Token) (links : List Link) (rest : List Token),
    (∀ token ∈ closing, token.kind = .closeBracket) ∧
      (first → links ≠ []) ∧ balances depth (closing ++ links.flatMap Link.tokens) ∧
      EndsBody count rest ∧ tokens = closing ++ links.flatMap Link.tokens ++ rest

/-- The tokens go on after the first `count` parameters. -/
def GoesOnParameters (count : Nat) (tokens : List Token) : Prop :=
  ∃ (parameters : List Token) (minus greater : Token) (rest : List Token),
    (∀ token ∈ parameters, token.kind = .identifier) ∧ minus.kind = .minus ∧
      greater.kind = .greater ∧ GoesOnOperand (count + parameters.length) true 0 rest ∧
      tokens = parameters ++ minus :: greater :: rest

/-- The tokens complete the item under way and go on with a program. -/
def Place.CompletedBy (place : Place) (tokens : List Token) : Prop :=
  match place.phase with
  | .item => IsProgram tokens
  | .lambda => ∃ (introducer : Token) (rest : List Token), introducer.kind = .lambda ∧
      GoesOnParameters place.declared rest ∧ tokens = introducer :: rest
  | .parameter => GoesOnParameters place.declared tokens
  | .arrow => ∃ (greater : Token) (rest : List Token), greater.kind = .greater ∧
      GoesOnOperand place.declared true 0 rest ∧ tokens = greater :: rest
  | .operand first | .group first =>
    GoesOnOperand place.declared first (place.opened - 1) tokens
  | .operator first => GoesOnOperator place.declared first (place.opened - 1) tokens
  | .argument further false => EndsArguments (further + 1) tokens
  | .argument further true => ∃ (number : Token) (rest : List Token),
      (number.kind = .integer ∨ number.kind = .float) ∧ EndsArguments further rest ∧
        tokens = number :: rest
  | .terminator => EndsArguments 0 tokens

/-- A parameter read leaves one parameter less to read. -/
theorem GoesOnParameters.parameter {count : Nat} {token : Token} {tokens : List Token}
    (hkind : token.kind = .identifier) (h : GoesOnParameters (count + 1) tokens) :
    GoesOnParameters count (token :: tokens) := by
  obtain ⟨parameters, minus, greater, rest, hparameters, hminus, hgreater, hrest, rfl⟩ := h
  refine ⟨token :: parameters, minus, greater, rest, ?_, hminus, hgreater, ?_, rfl⟩
  · simpa [hkind] using hparameters
  · rwa [List.length_cons, Nat.add_comm parameters.length, ← Nat.add_assoc]

theorem GoesOnOperand.opening {count depth : Nat} {first : Bool} {token : Token}
    {tokens : List Token} (hkind : token.kind = .openBracket)
    (h : GoesOnOperand count first (depth + 1) tokens) :
    GoesOnOperand count first depth (token :: tokens) := by
  obtain ⟨operand, links, rest, hlinks, hbalanced, hrest, rfl⟩ := h
  refine ⟨⟨token :: operand.opening, operand.atom, operand.closing, ?_, operand.atom_kind,
    operand.closing_kind⟩, links, rest, hlinks, ?_, hrest, rfl⟩
  · simpa [hkind] using operand.opening_kind
  · simpa [Operand.tokens, balances, hkind] using hbalanced

theorem GoesOnOperator.atom {count depth : Nat} {first : Bool} {token : Token}
    {tokens : List Token}
    (hkind : token.kind = .identifier ∨ token.kind = .integer ∨ token.kind = .float)
    (h : GoesOnOperator count first depth tokens) :
    GoesOnOperand count first depth (token :: tokens) := by
  obtain ⟨closing, links, rest, hclosing, hlinks, hbalanced, hrest, rfl⟩ := h
  refine ⟨⟨[], token, closing, by simp, hkind, hclosing⟩, links, rest, hlinks, ?_, hrest, rfl⟩
  have hopen : token.kind ≠ .openBracket := by rcases hkind with h | h | h <;> simp [h]
  have hclose : token.kind ≠ .closeBracket := by rcases hkind with h | h | h <;> simp [h]
  simpa [Operand.tokens, balances_cons hopen hclose] using hbalanced

theorem GoesOnOperator.closing {count depth : Nat} {first : Bool} {token : Token}
    {tokens : List Token} (hkind : token.kind = .closeBracket)
    (h : GoesOnOperator count first depth tokens) :
    GoesOnOperator count first (depth + 1) (token :: tokens) := by
  obtain ⟨closing, links, rest, hclosing, hlinks, hbalanced, hrest, rfl⟩ := h
  refine ⟨token :: closing, links, rest, ?_, hlinks, ?_, hrest, rfl⟩
  · simpa [hkind] using hclosing
  · simpa [balances, hkind] using hbalanced

theorem GoesOnOperand.operator {count depth : Nat} {first : Bool} {token : Token}
    {tokens : List Token} (hkind : token.kind.isOperator)
    (h : GoesOnOperand count false depth tokens) :
    GoesOnOperator count first depth (token :: tokens) := by
  obtain ⟨operand, links, rest, -, hbalanced, hrest, rfl⟩ := h
  refine ⟨[], ⟨token, operand, hkind⟩ :: links, rest, by simp, by simp, ?_, hrest, ?_⟩
  · have hopen : token.kind ≠ .openBracket := by intro h; simp [h, Kind.isOperator] at hkind
    have hclose : token.kind ≠ .closeBracket := by intro h; simp [h, Kind.isOperator] at hkind
    simpa [Link.tokens, balances_cons hopen hclose] using hbalanced
  · simp [Link.tokens]

theorem EndsBody.goesOnOperator {count : Nat} {tokens : List Token} (h : EndsBody count tokens) :
    GoesOnOperator count false 0 tokens :=
  ⟨[], [], tokens, by simp, by simp, rfl, h, rfl⟩

theorem EndsArguments.argument {count : Nat} {number : Token} {tokens : List Token}
    (sign : Option Token) (hsign : ∀ token ∈ sign, token.kind = .plus ∨ token.kind = .minus)
    (hnumber : number.kind = .integer ∨ number.kind = .float) (h : EndsArguments count tokens) :
    EndsArguments (count + 1) (sign.toList ++ number :: tokens) := by
  obtain ⟨arguments, semicolon, rest, rfl, hsemicolon, hrest, rfl⟩ := h
  exact ⟨⟨sign, number, hsign, hnumber⟩ :: arguments, semicolon, rest, rfl, hsemicolon, hrest,
    by simp [Argument.tokens]⟩

/-- A lambda is complete when each of its parts is. -/
theorem IsProgram.of_goesOnParameters {opening introducer : Token} {tokens : List Token}
    (hopening : opening.kind = .openBracket) (hintroducer : introducer.kind = .lambda)
    (h : GoesOnParameters 0 tokens) : IsProgram (opening :: introducer :: tokens) := by
  obtain ⟨parameters, minus, greater, rest, hparameters, hminus, hgreater, hrest, rfl⟩ := h
  obtain ⟨operand, links, rest, hlinks, hbalanced, hrest, rfl⟩ := hrest
  obtain ⟨closing, rest, hclosing, hrest, rfl⟩ := hrest
  obtain ⟨arguments, semicolon, rest, hlength, hsemicolon, hrest, rfl⟩ := hrest
  have hprogram := hrest.lambda ⟨opening, introducer, parameters, minus, greater,
    ⟨operand, links, hlinks rfl, hbalanced⟩, closing, arguments, semicolon, hopening,
    hintroducer, hparameters, hminus, hgreater, hclosing, by simpa using hlength, hsemicolon⟩
  simpa [Lambda.tokens, Body.tokens] using hprogram

theorem completedBy_arguments {count opened n : Nat} {tokens : List Token} :
    (⟨.arguments count, opened, n⟩ : Place).CompletedBy tokens ↔ EndsArguments count tokens := by
  cases count <;> rfl

/-- A legal move puts its token before what completes the item. -/
theorem Move.completedBy {place next : Place} {token : Token} {rest : List Token}
    (hmove : Move place token.kind next) (hrest : next.CompletedBy rest) :
    place.CompletedBy (token :: rest) := by
  generalize hkind : token.kind = kind at hmove
  cases hmove with
  | separator n => exact IsProgram.semicolon hkind hrest
  | opening n =>
    obtain ⟨introducer, rest, hintroducer, hparameters, rfl⟩ := hrest
    exact IsProgram.of_goesOnParameters hkind hintroducer hparameters
  | introducer n => exact ⟨token, rest, hkind, hrest, rfl⟩
  | parameter n => exact GoesOnParameters.parameter hkind hrest
  | minus n =>
    obtain ⟨greater, rest, hgreater, hoperand, rfl⟩ := hrest
    exact ⟨[], token, greater, rest, by simp, hkind, hgreater, hoperand, rfl⟩
  | greater n => exact ⟨token, rest, hkind, hrest, rfl⟩
  | group hphase depth n =>
    rcases hphase with rfl | rfl <;> exact GoesOnOperand.opening hkind hrest
  | atom hphase hatom depth n =>
    rcases hphase with rfl | rfl <;> exact GoesOnOperator.atom (hkind ▸ hatom) hrest
  | endGroup first depth n => exact GoesOnOperator.closing hkind hrest
  | operator first hoperator depth n => exact GoesOnOperand.operator (hkind ▸ hoperator) hrest
  | endBody n =>
    exact EndsBody.goesOnOperator ⟨token, rest, hkind, completedBy_arguments.mp hrest, rfl⟩
  | sign hsign further n =>
    obtain ⟨number, rest, hnumber, harguments, rfl⟩ := hrest
    exact harguments.argument (some token) (by simpa [hkind] using hsign) hnumber
  | number hnumber further n signed =>
    have harguments := completedBy_arguments.mp hrest
    cases signed with
    | false => exact harguments.argument none (by simp) (hkind ▸ hnumber)
    | true => exact ⟨token, rest, hkind ▸ hnumber, harguments, rfl⟩
  | terminator n => exact ⟨[], token, rest, rfl, hkind, hrest, rfl⟩

/-- Legal moves to a place between items spell what completes the item. -/
theorem Moves.completedBy {place last : Place} {tokens : List Token}
    (hmoves : Moves place (tokens.map Token.kind) last) (hlast : last.phase = .item) :
    place.CompletedBy tokens := by
  induction tokens generalizing place with
  | nil =>
    cases hmoves
    simp only [Place.CompletedBy, hlast]
    exact isProgram_nil
  | cons token rest ih =>
    cases hmoves with
    | cons hmove hrest => exact hmove.completedBy (ih hrest)

/-- Legal moves lead from the place to one between items. -/
def Place.Finishable (place : Place) : Prop :=
  ∃ kinds last, Moves place kinds last ∧ last.phase = .item

theorem Move.finishable {place next : Place} {kind : Kind} (hmove : Move place kind next)
    (h : next.Finishable) : place.Finishable := by
  obtain ⟨kinds, last, hmoves, hlast⟩ := h
  exact ⟨kind :: kinds, last, .cons hmove hmoves, hlast⟩

theorem finishable_item (opened n : Nat) : (⟨.item, opened, n⟩ : Place).Finishable :=
  ⟨[], _, .nil _, rfl⟩

theorem finishable_arguments (count n : Nat) :
    (⟨.arguments count, 0, n⟩ : Place).Finishable := by
  induction count with
  | zero => exact (Move.terminator n).finishable (finishable_item 0 0)
  | succ further ih => exact (Move.number (.inl rfl) further n false).finishable ih

theorem finishable_operator (first : Bool) (depth n : Nat) :
    (⟨.operator first, depth + 1, n⟩ : Place).Finishable := by
  -- Only after the second operand may the groups and then the body be closed.
  have hlater : ∀ depth, (⟨.operator false, depth + 1, n⟩ : Place).Finishable := by
    intro depth
    induction depth with
    | zero => exact (Move.endBody n).finishable (finishable_arguments n n)
    | succ depth ih => exact (Move.endGroup false depth n).finishable ih
  cases first with
  | false => exact hlater depth
  | true =>
    have hatom := Move.atom (.inl (rfl : Phase.operand false = .operand false))
      (.inr (.inl (rfl : Kind.integer = .integer))) depth n
    exact (Move.operator true (rfl : Kind.plus.isOperator) depth n).finishable
      (hatom.finishable (hlater depth))

theorem finishable_operand {phase : Phase} {first : Bool}
    (hphase : phase = .operand first ∨ phase = .group first) (depth n : Nat) :
    (⟨phase, depth + 1, n⟩ : Place).Finishable :=
  (Move.atom hphase (.inr (.inl (rfl : Kind.integer = .integer))) depth n).finishable
    (finishable_operator first depth n)

theorem finishable_parameter (n : Nat) : (⟨.parameter, 1, n⟩ : Place).Finishable :=
  (Move.minus n).finishable ((Move.greater n).finishable (finishable_operand (.inl rfl) 0 n))

/-- From every place with the brackets of its phase, the item can be completed. -/
theorem Place.finishable {place : Place} (hholds : place.phase.Holds place.opened) :
    place.Finishable := by
  obtain ⟨phase, opened, n⟩ := place
  cases phase with
  | item => exact finishable_item opened n
  | lambda =>
    obtain rfl : opened = 1 := hholds
    exact (Move.introducer n).finishable (finishable_parameter n)
  | parameter =>
    obtain rfl : opened = 1 := hholds
    exact finishable_parameter n
  | arrow =>
    obtain rfl : opened = 1 := hholds
    exact (Move.greater n).finishable (finishable_operand (.inl rfl) 0 n)
  | operand first =>
    obtain ⟨depth, rfl⟩ := Nat.exists_eq_add_one.mpr hholds
    exact finishable_operand (.inl rfl) depth n
  | group first =>
    obtain ⟨depth, rfl⟩ := Nat.exists_eq_add_one.mpr hholds
    exact finishable_operand (.inr rfl) depth n
  | operator first =>
    obtain ⟨depth, rfl⟩ := Nat.exists_eq_add_one.mpr hholds
    exact finishable_operator first depth n
  | argument further signed =>
    obtain rfl : opened = 0 := hholds
    exact (Move.number (.inl (rfl : Kind.integer = .integer)) further n signed).finishable
      (finishable_arguments further n)
  | terminator =>
    obtain rfl : opened = 0 := hholds
    exact (Move.terminator n).finishable (finishable_item 0 0)

theorem Moves.append {place middle last : Place} {first second : List Kind}
    (hfirst : Moves place first middle) (hsecond : Moves middle second last) :
    Moves place (first ++ second) last := by
  induction hfirst with
  | nil => exact hsecond
  | cons hmove _ ih => exact .cons hmove (ih hsecond)

/-- What legal moves spell from the start can be continued to a program. -/
theorem Moves.viable {last : Place} {tokens : List Token}
    (hmoves : Moves Checker.initial.place (tokens.map Token.kind) last)
    (hholds : last.phase.Holds last.opened) : IsViable tokens := by
  obtain ⟨kinds, item, hrest, hitem⟩ := Place.finishable hholds
  let continuation : List Token := kinds.map fun kind => ⟨kind, "", 0⟩
  have hkinds : continuation.map Token.kind = kinds := by
    simp [continuation, Function.comp_def]
  have hcompleted : Checker.initial.place.CompletedBy (tokens ++ continuation) := by
    refine Moves.completedBy ?_ hitem
    rw [List.map_append, hkinds]
    exact hmoves.append hrest
  exact ⟨continuation, hcompleted⟩

end CurriedLambda
