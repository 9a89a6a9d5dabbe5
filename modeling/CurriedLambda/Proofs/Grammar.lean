import CurriedLambda.Token

/-!
The grammar of curried-lambda source, as data. Each piece of syntax holds its tokens
and the proofs that their kinds fit, so that it is well formed by construction, and
`tokens` writes it out. Names are no matter of syntax: `Resolved` says that the names of
a lambda and its parameters are the same. Layout belongs to no piece of syntax.
-/
namespace CurriedLambda

/-- The tokens that mean something to the grammar. -/
def significant (tokens : List Token) : List Token :=
  tokens.filter fun token => !token.kind.isLayout

theorem isLayout_of_mem_significant {tokens : List Token} {token : Token}
    (h : token ∈ significant tokens) : token.kind.isLayout = false := by
  simpa [significant] using (List.mem_filter.mp h).2

theorem significant_cons {token : Token} (h : token.kind.isLayout = false)
    (tokens : List Token) : significant (token :: tokens) = token :: significant tokens := by
  simp [significant, h]

theorem significant_cons_layout {token : Token} (h : token.kind.isLayout = true)
    (tokens : List Token) : significant (token :: tokens) = significant tokens := by
  simp [significant, h]

theorem significant_append (first second : List Token) :
    significant (first ++ second) = significant first ++ significant second :=
  List.filter_append ..

namespace Grammar

/-- A name or number, with the brackets that stand directly before and after it. -/
structure Operand where
  opening : List Token
  atom : Token
  closing : List Token
  opening_kind : ∀ token ∈ opening, token.kind = .openBracket
  atom_kind : atom.kind = .identifier ∨ atom.kind = .integer ∨ atom.kind = .float
  closing_kind : ∀ token ∈ closing, token.kind = .closeBracket

namespace Operand

def tokens (operand : Operand) : List Token :=
  operand.opening ++ operand.atom :: operand.closing

/-- The operand, if it is a name. -/
def names (operand : Operand) : List Token :=
  if operand.atom.kind = .identifier then [operand.atom] else []

@[simp] theorem reverse_names (operand : Operand) : operand.names.reverse = operand.names := by
  by_cases h : operand.atom.kind = .identifier <;> simp [names, h]

end Operand

/-- An operator and the operand after it. -/
structure Link where
  operator : Token
  operand : Operand
  operator_kind : operator.kind.isOperator

def Link.tokens (link : Link) : List Token :=
  link.operator :: link.operand.tokens

/-- Whether the brackets balance when `depth` groups are open before: none is closed
that is not open, and none is left open. -/
def balances : Nat → List Token → Bool
  | depth, [] => depth = 0
  | depth, token :: rest =>
    match token.kind, depth with
    | .openBracket, _ => balances (depth + 1) rest
    | .closeBracket, 0 => false
    | .closeBracket, outer + 1 => balances outer rest
    | _, _ => balances depth rest

/-- At least two operands, with an operator between each and the next. -/
structure Body where
  first : Operand
  links : List Link
  links_ne_nil : links ≠ []
  balanced : balances 0 (first.tokens ++ links.flatMap Link.tokens)

namespace Body

def tokens (body : Body) : List Token :=
  body.first.tokens ++ body.links.flatMap Link.tokens

/-- The operands that are names, in order. -/
def names (body : Body) : List Token :=
  body.first.names ++ body.links.flatMap fun link => link.operand.names

end Body

/-- A number, perhaps with a sign. -/
structure Argument where
  sign : Option Token
  number : Token
  sign_kind : ∀ token ∈ sign, token.kind = .plus ∨ token.kind = .minus
  number_kind : number.kind = .integer ∨ number.kind = .float

def Argument.tokens (argument : Argument) : List Token :=
  argument.sign.toList ++ [argument.number]

/-- A lambda and the arguments that it is applied to, one for each parameter. -/
structure Lambda where
  opening : Token
  introducer : Token
  parameters : List Token
  minus : Token
  greater : Token
  body : Body
  closing : Token
  arguments : List Argument
  semicolon : Token
  opening_kind : opening.kind = .openBracket
  introducer_kind : introducer.kind = .lambda
  parameters_kind : ∀ token ∈ parameters, token.kind = .identifier
  minus_kind : minus.kind = .minus
  greater_kind : greater.kind = .greater
  closing_kind : closing.kind = .closeBracket
  arguments_length : arguments.length = parameters.length
  semicolon_kind : semicolon.kind = .semicolon

namespace Lambda

def tokens (lambda : Lambda) : List Token :=
  lambda.opening :: lambda.introducer :: (lambda.parameters ++
    lambda.minus :: lambda.greater :: (lambda.body.tokens ++
      lambda.closing :: (lambda.arguments.flatMap Argument.tokens ++ [lambda.semicolon])))

/-- The part before the body. -/
def head (lambda : Lambda) : List Token :=
  lambda.opening :: lambda.introducer :: (lambda.parameters ++ [lambda.minus, lambda.greater])

theorem tokens_eq_head_append (lambda : Lambda) :
    lambda.tokens = lambda.head ++ (lambda.body.tokens ++
      lambda.closing :: (lambda.arguments.flatMap Argument.tokens ++ [lambda.semicolon])) := by
  simp [tokens, head]

/-- Every name of the body is a parameter, and every parameter is a name of the body. -/
def Resolved (lambda : Lambda) : Prop :=
  (∀ name ∈ lambda.body.names, ∃ parameter ∈ lambda.parameters, parameter.text = name.text) ∧
    ∀ parameter ∈ lambda.parameters, ∃ name ∈ lambda.body.names, name.text = parameter.text

end Lambda

inductive Item
  | semicolon (token : Token) (kind_eq : token.kind = .semicolon)
  | lambda (value : Lambda)

namespace Item

def tokens : Item → List Token
  | semicolon token _ => [token]
  | lambda value => value.tokens

def Resolved : Item → Prop
  | semicolon .. => True
  | lambda value => value.Resolved

end Item

/-- The tokens are those of some items, one after the other. -/
def IsProgram (tokens : List Token) : Prop :=
  ∃ items : List Item, tokens = items.flatMap Item.tokens

/-- The tokens can be continued to a program. -/
def IsViable (tokens : List Token) : Prop :=
  ∃ continuation, IsProgram (tokens ++ continuation)

theorem IsProgram.viable {tokens : List Token} (h : IsProgram tokens) : IsViable tokens :=
  ⟨[], by simpa using h⟩

theorem isProgram_nil : IsProgram [] :=
  ⟨[], rfl⟩

theorem IsProgram.semicolon {token : Token} {tokens : List Token}
    (hkind : token.kind = .semicolon) (h : IsProgram tokens) : IsProgram (token :: tokens) := by
  obtain ⟨items, rfl⟩ := h
  exact ⟨.semicolon token hkind :: items, by simp [Item.tokens]⟩

theorem IsProgram.lambda {tokens : List Token} (lambda : Lambda) (h : IsProgram tokens) :
    IsProgram (lambda.tokens ++ tokens) := by
  obtain ⟨items, rfl⟩ := h
  exact ⟨.lambda lambda :: items, by simp [Item.tokens]⟩

theorem balances_opening {opening : List Token}
    (hopening : ∀ token ∈ opening, token.kind = .openBracket) (depth : Nat)
    (tokens : List Token) :
    balances depth (opening ++ tokens) = balances (depth + opening.length) tokens := by
  induction opening generalizing depth with
  | nil => rfl
  | cons token rest ih =>
    have hkind := hopening token (List.mem_cons_self ..)
    have hrest := ih (fun t ht => hopening t (List.mem_cons_of_mem _ ht)) (depth + 1)
    simp only [List.cons_append, balances, hkind, List.length_cons]
    rw [hrest, Nat.add_assoc, Nat.add_comm 1]

theorem balances_closing {closing : List Token}
    (hclosing : ∀ token ∈ closing, token.kind = .closeBracket) (depth : Nat)
    (tokens : List Token) :
    balances depth (closing ++ tokens) =
      (decide (closing.length ≤ depth) && balances (depth - closing.length) tokens) := by
  induction closing generalizing depth with
  | nil => simp
  | cons token rest ih =>
    have hkind := hclosing token (List.mem_cons_self ..)
    have hrest := ih (fun t ht => hclosing t (List.mem_cons_of_mem _ ht))
    cases depth with
    | zero => simp [balances, hkind]
    | succ outer => simp [balances, hkind, hrest]

theorem balances_cons {token : Token} (hopen : token.kind ≠ .openBracket)
    (hclose : token.kind ≠ .closeBracket) (depth : Nat) (tokens : List Token) :
    balances depth (token :: tokens) = balances depth tokens := by
  cases hkind : token.kind <;> simp_all [balances]

end Grammar

end CurriedLambda
