import Mathlib.Data.Nat.Basic
import Mathlib.Order.Basic
import CurriedLambda.Checker
import CurriedLambda.Proofs.Grammar

/-!
Checking by recursive descent, with one production for each rule of the grammar and a cursor
into the tokens. A production reads on from the cursor, or gives up when nothing fits before
the tokens end. A loop consists of turns, each of which carries a proof that it either moves
the cursor forward or leaves the loop, so that descent ends.
-/
namespace CurriedLambda

structure Descent where
  /-- All the tokens but white space. -/
  tokens : List Token
  /-- The number of tokens passed. -/
  cursor : Nat
  /-- The places where the cursor has been before, latest first. -/
  trail : List Nat
  parameters : List Token
  references : List Token
  brackets : Brackets
  found : List Problem
  kind_ne_whitespace : ∀ token ∈ tokens, token.kind ≠ .whitespace

namespace Descent

def ofTokens (tokens : List Token) : Descent where
  tokens := tokens.filter (·.kind ≠ .whitespace)
  cursor := 0
  trail := []
  parameters := []
  references := []
  brackets := ⟨[], 0⟩
  found := []
  kind_ne_whitespace _ h := of_decide_eq_true (List.mem_filter.mp h).2

/-- The tokens still to come. -/
def rest (descent : Descent) : List Token :=
  descent.tokens.drop descent.cursor

def moveTo (descent : Descent) (place : Nat) : Descent :=
  { descent with cursor := place, trail := descent.cursor :: descent.trail }

def pass (descent : Descent) : Descent :=
  descent.moveTo (descent.cursor + 1)

/-- Steps over line breaks. -/
def settle (descent : Descent) : Descent :=
  descent.moveTo (descent.cursor + (descent.rest.takeWhile (·.kind = .newline)).length)

def report (descent : Descent) (problems : List Problem) : Descent :=
  { descent with found := descent.found ++ problems }

/-- Takes over what has become of the brackets, and the problems with them. -/
def account (descent : Descent) (result : Brackets × List Problem) : Descent :=
  { descent with brackets := result.1, found := descent.found ++ result.2 }

def enter (descent : Descent) (bracket : Token) : Descent :=
  { descent with
    parameters := [], references := [], brackets := descent.brackets.enter bracket }

def declare (descent : Descent) (parameter : Token) : Descent :=
  { descent with parameters := descent.parameters ++ [parameter] }

def refer (descent : Descent) (reference : Token) : Descent :=
  { descent with
    references := reference :: descent.references
    found := descent.found ++
      if Checker.names descent.parameters reference.text then [] else [.unknownName reference] }

/-- The parameters that no operand names. -/
def unused (descent : Descent) : List Token :=
  descent.parameters.filter fun parameter => !Checker.names descent.references parameter.text

/-- Reads tokens and returns a value, or gives up. -/
abbrev Production (α : Type) := EStateM Unit Descent α

/-- The next token but line breaks, if there is one. -/
def peek : Production (Option Token) := fun descent =>
  .ok descent.settle.rest.head? descent.settle

/-- Skips tokens up to the first that fits, and reads that one. What is skipped is reported as
one problem, and the brackets in it still count. -/
def neutralize (expected : Expected) : Production Token := fun descent =>
  match descent.rest with
  | [] => .error () (descent.report [.exhausted expected descent.tokens.getLast?])
  | found :: _ =>
    let skipped := descent.rest.takeWhile fun token => !expected.accepts token.kind
    let settled := descent.brackets.skip skipped
    match descent.rest.dropWhile fun token => !expected.accepts token.kind with
    | [] =>
      .error () (((descent.moveTo descent.tokens.length).report
        [.unexpected expected found []]).account settled)
    | target :: _ =>
      .ok target (((descent.moveTo (descent.cursor + skipped.length + 1)).report
        [.unexpected expected found (significant skipped)]).account settled)

def expect (expected : Expected) : Production Token := do
  match ← peek with
  | some token =>
    if expected.accepts token.kind then
      modify pass
      return token
    else neutralize expected
  | none => neutralize expected

section Progress

/-- How a descent stands to an earlier state of it. -/
structure Follows (earlier later : Descent) : Prop where
  tokens_eq : later.tokens = earlier.tokens
  cursor_le : earlier.cursor ≤ later.cursor
  inside : earlier.cursor ≤ earlier.tokens.length → later.cursor ≤ later.tokens.length
  trail_sorted : (earlier.cursor :: earlier.trail).Pairwise (· ≥ ·) →
    (later.cursor :: later.trail).Pairwise (· ≥ ·)

/-- Tokens have been passed since an earlier state. -/
structure Passes (earlier later : Descent) : Prop extends Follows earlier later where
  cursor_lt : earlier.cursor < later.cursor
  cursor_le_length : later.cursor ≤ later.tokens.length

variable {α β : Type} {first second third descent : Descent}

theorem Follows.refl (descent : Descent) : descent.Follows descent :=
  ⟨rfl, le_rfl, id, id⟩

theorem Follows.trans (hfirst : first.Follows second) (hsecond : second.Follows third) :
    first.Follows third where
  tokens_eq := hsecond.tokens_eq.trans hfirst.tokens_eq
  cursor_le := hfirst.cursor_le.trans hsecond.cursor_le
  inside h := hsecond.inside (hfirst.inside h)
  trail_sorted h := hsecond.trail_sorted (hfirst.trail_sorted h)

theorem Follows.trans_passes (hfirst : first.Follows second) (hsecond : second.Passes third) :
    first.Passes third :=
  ⟨hfirst.trans hsecond.toFollows, hfirst.cursor_le.trans_lt hsecond.cursor_lt,
    hsecond.cursor_le_length⟩

theorem Passes.trans_follows (hfirst : first.Passes second) (hsecond : second.Follows third) :
    first.Passes third :=
  ⟨hfirst.toFollows.trans hsecond, hfirst.cursor_lt.trans_le hsecond.cursor_le,
    hsecond.inside hfirst.cursor_le_length⟩

theorem follows_moveTo {place : Nat} (hle : descent.cursor ≤ place)
    (hinside : descent.cursor ≤ descent.tokens.length → place ≤ descent.tokens.length) :
    descent.Follows (descent.moveTo place) where
  tokens_eq := rfl
  cursor_le := hle
  inside := hinside
  trail_sorted h := by
    refine List.pairwise_cons.mpr ⟨fun earlier hmem => ?_, h⟩
    rcases List.mem_cons.mp hmem with rfl | hmem
    · exact hle
    · exact ((List.pairwise_cons.mp h).1 earlier hmem).trans hle

theorem passes_moveTo {place : Nat} (hlt : descent.cursor < place)
    (hinside : place ≤ descent.tokens.length) : descent.Passes (descent.moveTo place) :=
  ⟨follows_moveTo hlt.le fun _ => hinside, hlt, hinside⟩

/-- A change of anything but the place is no move. -/
theorem Follows.of_eq (htokens : second.tokens = first.tokens)
    (hcursor : second.cursor = first.cursor) (htrail : second.trail = first.trail) :
    first.Follows second where
  tokens_eq := htokens
  cursor_le := hcursor.ge
  inside h := by rwa [hcursor, htokens]
  trail_sorted h := by rwa [hcursor, htrail]

theorem follows_account (descent : Descent) (problems : List Problem)
    (result : Brackets × List Problem) :
    descent.Follows ((descent.report problems).account result) :=
  .of_eq rfl rfl rfl

theorem length_rest (descent : Descent) :
    descent.rest.length = descent.tokens.length - descent.cursor :=
  List.length_drop ..

theorem follows_settle (descent : Descent) : descent.Follows descent.settle := by
  refine follows_moveTo (Nat.le_add_right ..) fun hinside => ?_
  have hle := (List.takeWhile_sublist (l := descent.rest) (·.kind = .newline)).length_le
  rw [length_rest] at hle
  omega

theorem passes_pass {token : Token} (h : descent.rest.head? = some token) :
    descent.Passes descent.pass := by
  have hpos : 0 < descent.rest.length := by
    cases hrest : descent.rest with
    | nil => simp [hrest] at h
    | cons => simp
  rw [length_rest] at hpos
  exact passes_moveTo (Nat.lt_succ_self _) (by omega)

/-- From a state with the first property the production ends in one with the second, or it
gives up in one with the third. -/
def Ensures (before : Descent → Prop) (production : Production α) (after : α → Descent → Prop)
    (failed : Descent → Prop) : Prop :=
  ∀ descent, before descent →
    match production descent with
    | .ok value next => after value next
    | .error _ last => failed last

variable {before : Descent → Prop} {after : α → Descent → Prop} {failed : Descent → Prop}
  {production : Production α}

theorem ensures_pure {value : α} (h : ∀ descent, before descent → after value descent) :
    Ensures before (pure value) after failed :=
  h

theorem ensures_modify {change : Descent → Descent} {after : Unit → Descent → Prop}
    (h : ∀ descent, before descent → after () (change descent)) :
    Ensures before (modify change) after failed :=
  h

theorem Ensures.bind {next : α → Production β} {last : β → Descent → Prop}
    (hfirst : Ensures before production after failed)
    (hnext : ∀ value, Ensures (after value) (next value) last failed) :
    Ensures before (production >>= next) last failed := by
  intro descent hbefore
  have hafter := hfirst descent hbefore
  change match EStateM.bind production next descent with
    | .ok value next => last value next
    | .error _ last => failed last
  unfold EStateM.bind
  split at hafter
  next value between hrun => rw [hrun]; exact hnext value between hafter
  next hrun => rw [hrun]; exact hafter

theorem Ensures.bind_modify {change : Descent → Descent} {next : Unit → Production α}
    {between : Descent → Prop} (hnext : Ensures between (next ()) after failed)
    (hchange : ∀ descent, before descent → between (change descent)) :
    Ensures before (modify change >>= next) after failed :=
  fun descent hbefore => hnext (change descent) (hchange descent hbefore)

theorem Ensures.bind_get {next : Descent → Production α}
    (h : ∀ descent, Ensures (fun state => state = descent ∧ before state) (next descent) after
      failed) : Ensures before (get >>= next) after failed :=
  fun descent hbefore => h descent descent ⟨rfl, hbefore⟩

theorem Ensures.mono {before' failed' : Descent → Prop} {after' : α → Descent → Prop}
    (h : Ensures before production after failed)
    (hbefore : ∀ descent, before' descent → before descent)
    (hafter : ∀ value descent, after value descent → after' value descent)
    (hfailed : ∀ descent, failed descent → failed' descent) :
    Ensures before' production after' failed' := by
  intro descent hdescent
  have hend := h descent (hbefore descent hdescent)
  split at hend
  next hrun => exact hafter _ _ hend
  next hrun => exact hfailed _ hend

/-- The cursor never moves back, nor past the end. -/
def Forward (production : Production α) : Prop :=
  ∀ start, Ensures (Follows start) production (fun _ => Follows start) (Follows start)

/-- A production that does not give up reads a token. -/
def Strict (production : Production α) : Prop :=
  ∀ start, Ensures (Follows start) production (fun _ => Passes start) (Follows start)

theorem Strict.forward (h : Strict production) : Forward production := fun start =>
  (h start).mono (fun _ => id) (fun _ _ => Passes.toFollows) fun _ => id

theorem Forward.passes (h : Forward production) (start : Descent) :
    Ensures (Passes start) production (fun _ => Passes start) (Follows start) := by
  intro descent hpasses
  have hend := h descent descent (.refl descent)
  split at hend
  next => exact hpasses.trans_follows hend
  next => exact hpasses.toFollows.trans hend

theorem Forward.bind {next : α → Production β} (hfirst : Forward production)
    (hnext : ∀ value, Forward (next value)) : Forward (production >>= next) := fun start =>
  (hfirst start).bind fun value => hnext value start

theorem Forward.bind_get {next : Descent → Production α} (h : ∀ descent, Forward (next descent)) :
    Forward (get >>= next) := fun start =>
  .bind_get fun descent => (h descent start).mono (fun _ => And.right) (fun _ _ => id) fun _ => id

theorem Strict.bind {next : α → Production β} (hfirst : Strict production)
    (hnext : ∀ value, Forward (next value)) : Strict (production >>= next) := fun start =>
  (hfirst start).bind fun value => (hnext value).passes start

theorem forward_pure (value : α) : Forward (pure value) := fun _ _ h => h

theorem forward_modify {change : Descent → Descent}
    (h : ∀ descent, Follows descent (change descent)) : Forward (modify change) :=
  fun _ descent hfollows => hfollows.trans (h descent)

theorem forward_peek : Forward peek := fun _ descent hfollows =>
  hfollows.trans (follows_settle descent)

theorem ensures_peek (start : Descent) :
    Ensures (Follows start) peek
      (fun next descent => start.Follows descent ∧ descent.rest.head? = next) (Follows start) :=
  fun _ hfollows => ⟨forward_peek start _ hfollows, rfl⟩

theorem ensures_pass (start : Descent) (token : Token) :
    Ensures (fun descent => start.Follows descent ∧ descent.rest.head? = some token) (modify pass)
      (fun _ => Passes start) (Follows start) :=
  ensures_modify fun _ h => h.1.trans_passes (passes_pass h.2)

theorem strict_neutralize (expected : Expected) : Strict (neutralize expected) := by
  intro start descent hfollows
  have hsplit := congrArg List.length (List.takeWhile_append_dropWhile (l := descent.rest)
    (p := fun token => !expected.accepts token.kind))
  rw [List.length_append, length_rest] at hsplit
  unfold neutralize
  cases hrest : descent.rest with
  | nil => exact hfollows.trans (.of_eq rfl rfl rfl)
  | cons found more =>
    have hlength := congrArg List.length hrest
    rw [length_rest, List.length_cons] at hlength
    rw [hrest] at hsplit
    cases hdrop : (found :: more).dropWhile fun token => !expected.accepts token.kind with
    | nil =>
      exact (hfollows.trans (follows_moveTo (by omega) fun _ => le_rfl)).trans (follows_account ..)
    | cons target later =>
      rw [hdrop, List.length_cons] at hsplit
      exact (hfollows.trans_passes (passes_moveTo (by omega) (by omega))).trans_follows
        (follows_account ..)

/-- What is expected is read, or the production gives up. -/
theorem strict_expect (expected : Expected) : Strict (expect expected) := by
  intro start
  refine (ensures_peek start).bind fun next => ?_
  have hskips : Ensures (fun descent => start.Follows descent ∧ descent.rest.head? = next)
      (neutralize expected) (fun _ => Passes start) (Follows start) :=
    (strict_neutralize expected start).mono (fun _ => And.left) (fun _ _ => id) fun _ => id
  cases next with
  | none => exact hskips
  | some token =>
    dsimp only
    split
    · exact (ensures_pass start token).bind fun _ => ensures_pure fun _ => id
    · exact hskips

end Progress

inductive TurnEnd
  | again
  | leave

/-- What a loop does over and over. A turn that asks for another one has moved the cursor. -/
structure Turn where
  run : Production TurnEnd
  forward : ∀ start, Ensures (Follows start) run
    (fun turnEnd next => start.Follows next ∧ (turnEnd = .again → start.Passes next))
    (Follows start)

namespace Turn

/-- The end of a turn that has read a token. -/
theorem ensures_end (start : Descent) (turnEnd : TurnEnd) :
    Ensures (Passes start) (pure turnEnd)
      (fun turnEnd next => start.Follows next ∧ (turnEnd = .again → start.Passes next))
      (Follows start) :=
  ensures_pure fun _ h => ⟨h.toFollows, fun _ => h⟩

theorem passes_of_again {turn : Turn} {descent next : Descent}
    (h : turn.run descent = .ok .again next) : descent.Passes next := by
  have hend := turn.forward descent descent (.refl descent)
  rw [h] at hend
  exact hend.2 rfl

/-- Takes turns up to the one that leaves the loop. -/
def loop (turn : Turn) : Production Unit := fun descent =>
  match _h : turn.run descent with
  | .ok .again next => turn.loop next
  | .ok .leave next => .ok () next
  | .error _ last => .error () last
termination_by descent => descent.tokens.length - descent.cursor
decreasing_by
  have hpasses := passes_of_again _h
  have hlt := hpasses.cursor_lt
  have hle := hpasses.cursor_le_length
  rw [hpasses.tokens_eq] at hle ⊢
  omega

theorem loop_eq (turn : Turn) (descent : Descent) :
    turn.loop descent = match turn.run descent with
      | .ok .again next => turn.loop next
      | .ok .leave next => .ok () next
      | .error _ last => .error () last := by
  rw [loop]
  split <;> simp only [*]

/-- What each turn preserves holds until the loop is left. -/
theorem ensures_loop {turn : Turn} {invariant after failed : Descent → Prop}
    (h : Ensures invariant turn.run (fun turnEnd next =>
      match turnEnd with
      | .again => invariant next
      | .leave => after next) failed) :
    Ensures invariant turn.loop (fun _ => after) failed := by
  intro descent hinvariant
  induction hremaining : descent.tokens.length - descent.cursor using Nat.strong_induction_on
    generalizing descent with
  | _ remaining ih =>
    have hturn := h descent hinvariant
    rw [loop_eq]
    cases hrun : turn.run descent with
    | error _ last => rwa [hrun] at hturn
    | ok turnEnd next =>
      rw [hrun] at hturn
      cases turnEnd with
      | leave => exact hturn
      | again =>
        have hpasses := passes_of_again hrun
        have hlt := hpasses.cursor_lt
        have hle := hpasses.cursor_le_length
        rw [hpasses.tokens_eq] at hle
        exact ih _ (by rw [hpasses.tokens_eq]; omega) next hturn rfl

theorem forward_loop (turn : Turn) : Forward turn.loop := fun start =>
  ensures_loop <| (turn.forward start).mono (fun _ => id)
    (fun turnEnd _ h => by cases turnEnd <;> exact h.1) fun _ => id

end Turn

/-- Reads brackets of one kind as long as the open ones allow it. -/
def bracketTurn (kind : Kind) (allowed : Brackets → Bool)
    (read : Token → Brackets → Brackets × List Problem) : Turn where
  run := do
    match ← peek with
    | some token =>
      if token.kind = kind ∧ allowed (← get).brackets then
        modify pass
        modify fun descent => descent.account (read token descent.brackets)
        return .again
      else return .leave
    | none => return .leave
  forward start := by
    refine (ensures_peek start).bind fun next => ?_
    cases next with
    | none => exact ensures_pure fun _ h => ⟨h.1, nofun⟩
    | some token =>
      refine .bind_get fun descent => ?_
      split
      · refine ((ensures_pass start token).mono (fun _ => And.right) (fun _ _ => id)
          fun _ => id).bind fun _ => ?_
        exact ((forward_modify fun _ => by exact .of_eq rfl rfl rfl).passes start).bind fun _ =>
          Turn.ensures_end start _
      · exact ensures_pure fun _ h => ⟨h.2.1, nofun⟩

/-- Closing brackets before an operand close nothing. -/
def misplacedBrackets : Turn :=
  bracketTurn .closeBracket (fun _ => true) fun token brackets =>
    (brackets, [.unmatchedClose token, .misplacedClose token])

def openBrackets : Turn :=
  bracketTurn .openBracket (fun _ => true) fun token brackets => (brackets.push token, [])

/-- The bracket of the expression is left for the end of the body. -/
def closeBrackets : Turn :=
  bracketTurn .closeBracket Brackets.groupOpen fun token brackets => brackets.close token

def sign : Production Unit := do
  match ← peek with
  | some token => if token.kind = .plus ∨ token.kind = .minus then modify pass
  | none => return ()

theorem forward_sign : Forward sign := by
  intro start
  refine (ensures_peek start).bind fun next => ?_
  cases next with
  | none => exact ensures_pure fun _ => And.left
  | some token =>
    dsimp only
    split
    · exact ensures_modify fun _ h => h.1.trans (passes_pass h.2).toFollows
    · exact ensures_pure fun _ => And.left

def arguments : Nat → Production Unit
  | 0 => return ()
  | further + 1 => do
    sign
    let _ ← expect .number
    arguments further

def numbers : Production Unit := do
  arguments (← get).parameters.length
  let _ ← expect .semicolon
  modify fun descent => descent.report (descent.unused.map .unusedParameter)

theorem forward_arguments (count : Nat) : Forward (arguments count) := by
  induction count with
  | zero => exact forward_pure ()
  | succ further ih =>
    exact forward_sign.bind fun _ => (strict_expect .number).forward.bind fun _ => ih

theorem forward_numbers : Forward numbers :=
  .bind_get fun descent => (forward_arguments descent.parameters.length).bind fun _ =>
    (strict_expect .semicolon).forward.bind fun _ =>
      forward_modify fun _ => by exact .of_eq rfl rfl rfl

def operand : Production Unit := do
  let token ← expect .operand
  if token.kind = .identifier then modify (·.refer token)

/-- An operand with the brackets before it. -/
def openedOperand : Production Unit := do
  misplacedBrackets.loop
  openBrackets.loop
  operand

theorem strict_openedOperand : Strict openedOperand := by
  intro start
  refine (misplacedBrackets.forward_loop start).bind fun _ => ?_
  refine (openBrackets.forward_loop start).bind fun _ => ?_
  refine (strict_expect .operand).bind (fun token => ?_) start
  split
  · exact forward_modify fun _ => by exact .of_eq rfl rfl rfl
  · exact forward_pure ()

/-- An operator and the operand after it, or the bracket that ends the body and what follows. -/
def operationTurn : Turn where
  run := do
    openedOperand
    closeBrackets.loop
    let token ← expect .operatorOrClose
    if token.kind = .closeBracket then
      modify fun descent => descent.account (descent.brackets.close token)
      numbers
      return .leave
    else return .again
  forward start := by
    refine (strict_openedOperand start).bind fun _ => ?_
    refine (closeBrackets.forward_loop.passes start).bind fun _ => ?_
    refine ((strict_expect .operatorOrClose).forward.passes start).bind fun token => ?_
    split
    · refine ((forward_modify fun _ => by exact .of_eq rfl rfl rfl).passes start).bind fun _ => ?_
      exact (forward_numbers.passes start).bind fun _ => Turn.ensures_end start _
    · exact Turn.ensures_end start _

def operation : Production Unit := do
  closeBrackets.loop
  let _ ← expect .operator
  operationTurn.loop

theorem forward_operation : Forward operation :=
  closeBrackets.forward_loop.bind fun _ => (strict_expect .operator).forward.bind fun _ =>
    operationTurn.forward_loop

def firstOperand : Production Unit := do
  openedOperand
  operation

def arrow : Production Unit := do
  let _ ← expect .arrow
  firstOperand

theorem forward_arrow : Forward arrow :=
  (strict_expect .arrow).forward.bind fun _ =>
    strict_openedOperand.forward.bind fun _ => forward_operation

/-- A parameter, or the minus of the arrow and what follows it. -/
def parameterTurn : Turn where
  run := do
    let token ← expect .parameter
    if token.kind = .identifier then
      modify (·.declare token)
      return .again
    else
      arrow
      return .leave
  forward start := by
    refine (strict_expect .parameter start).bind fun token => ?_
    split
    · refine ((forward_modify fun _ => by exact .of_eq rfl rfl rfl).passes start).bind fun _ => ?_
      exact Turn.ensures_end start _
    · exact (forward_arrow.passes start).bind fun _ => Turn.ensures_end start _

def expression : Production Unit := do
  let bracket ← expect .openBracket
  modify (·.enter bracket)
  let _ ← expect .lambda
  parameterTurn.loop

theorem strict_expression : Strict expression :=
  (strict_expect .openBracket).bind fun _ =>
    (forward_modify fun _ => by exact .of_eq rfl rfl rfl).bind fun _ =>
      (strict_expect .lambda).forward.bind fun _ => parameterTurn.forward_loop

/-- Leaves the loop if the production gives up. -/
def orLeave (production : Production Unit) : Production TurnEnd := fun descent =>
  match production descent with
  | .ok _ next => .ok .again next
  | .error _ last => .ok .leave last

theorem ensures_orLeave {production : Production Unit} {before failed : Descent → Prop}
    {after : TurnEnd → Descent → Prop}
    (h : Ensures before production (fun _ => after .again) (after .leave)) :
    Ensures before (orLeave production) after failed := by
  intro descent hbefore
  have hend := h descent hbefore
  rw [orLeave]
  cases hrun : production descent <;> rwa [hrun] at hend

/-- A semicolon, a closing bracket or an expression. -/
def itemTurn : Turn where
  run := do
    match ← peek with
    | some token =>
      if token.kind = .semicolon then
        modify pass
        return .again
      else if token.kind = .closeBracket then
        modify pass
        modify fun descent => descent.account (descent.brackets.close token)
        return .again
      else orLeave expression
    | none => return .leave
  forward start := by
    refine (ensures_peek start).bind fun next => ?_
    cases next with
    | none => exact ensures_pure fun _ h => ⟨h.1, nofun⟩
    | some token =>
      dsimp only
      split_ifs
      · exact (ensures_pass start token).bind fun _ => Turn.ensures_end start _
      · refine (ensures_pass start token).bind fun _ => ?_
        exact ((forward_modify fun _ => by exact .of_eq rfl rfl rfl).passes start).bind fun _ =>
          Turn.ensures_end start _
      · exact ensures_orLeave ((strict_expression start).mono (fun _ => And.left)
          (fun _ _ h => ⟨h.toFollows, fun _ => h⟩) fun _ h => ⟨h, nofun⟩)

def program : Production Unit :=
  itemTurn.loop

theorem forward_program : Forward program :=
  itemTurn.forward_loop

end Descent

end CurriedLambda
