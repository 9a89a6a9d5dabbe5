import CurriedLambda.Json.Lexeme

/-!
Reading a JSON value from its lexemes, one at a time. The arrays and objects that are
still open lie on a stack, each with what it holds so far, latest first. A text is a
value if its last lexeme completes one and leaves nothing open.
-/
namespace CurriedLambda.Json

inductive Frame
  | array (elements : List Json)
  /-- An object whose member of this key is being read. -/
  | object (members : List (List CodePoint × Json)) (key : List CodePoint)

inductive Stage
  /-- Before a value. -/
  | value
  /-- After the opening bracket of an array. -/
  | firstElement
  /-- After the opening brace of an object. -/
  | firstMember
  /-- After the comma that follows these members. -/
  | nextMember (members : List (List CodePoint × Json))
  /-- After a key. -/
  | colon (members : List (List CodePoint × Json)) (key : List CodePoint)
  | complete (value : Json)

structure Builder where
  frames : List Frame
  stage : Stage

namespace Builder

def initial : Builder := ⟨[], .value⟩

/-- Starts a value with its first lexeme. -/
def start (frames : List Frame) : Lexeme → Option Builder
  | .text content => some ⟨frames, .complete (.string content)⟩
  | .atom value => some ⟨frames, .complete value⟩
  | .openArray => some ⟨frames, .firstElement⟩
  | .openObject => some ⟨frames, .firstMember⟩
  | _ => none

/-- Goes on after a complete value. -/
def resume (value : Json) : List Frame → Lexeme → Option Builder
  | .array elements :: outer, .comma => some ⟨.array (value :: elements) :: outer, .value⟩
  | .array elements :: outer, .closeArray =>
    some ⟨outer, .complete (.array (value :: elements).reverse)⟩
  | .object members key :: outer, .comma => some ⟨outer, .nextMember ((key, value) :: members)⟩
  | .object members key :: outer, .closeObject =>
    some ⟨outer, .complete (.object ((key, value) :: members).reverse)⟩
  | _, _ => none

def step (builder : Builder) (lexeme : Lexeme) : Option Builder :=
  match builder.stage, lexeme with
  | .value, _ => start builder.frames lexeme
  | .firstElement, .closeArray => some ⟨builder.frames, .complete (.array [])⟩
  | .firstElement, _ => start (.array [] :: builder.frames) lexeme
  | .firstMember, .closeObject => some ⟨builder.frames, .complete (.object [])⟩
  | .firstMember, .text key => some ⟨builder.frames, .colon [] key⟩
  | .nextMember members, .text key => some ⟨builder.frames, .colon members key⟩
  | .colon members key, .colon => some ⟨.object members key :: builder.frames, .value⟩
  | .complete value, _ => resume value builder.frames lexeme
  | _, _ => none

def steps (builder : Builder) : List Lexeme → Option Builder
  | [] => some builder
  | lexeme :: rest => (builder.step lexeme).bind (·.steps rest)

/-- The value read, if it is complete and nothing is open. -/
def result? (builder : Builder) : Option Json :=
  match builder.frames, builder.stage with
  | [], .complete value => some value
  | _, _ => none

end Builder

/-- The value that a text spells. -/
def parse (text : String) : Option Json := do
  let lexemes ← Lexeme.readAll text.toList
  (← Builder.initial.steps lexemes).result?

end CurriedLambda.Json
