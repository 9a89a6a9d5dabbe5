import CurriedLambda.Proofs.Reading

/-!
The legal moves of a check: which kinds of token may come next at a place, and the place
that each leads to. A check is clean as long as all its moves are legal. From a clean
state a token of a legal kind leads to a clean state and causes no problem but one with
a name; any other token is refused, and the next problem of the check is reported where
that token starts. From every place the legal moves lead on to the end of an item.
-/
namespace CurriedLambda

/-- Faults of syntax, as opposed to names that do not match. -/
def Code.isSyntax : Code → Bool
  | unknownName | unusedParameter => false
  | _ => true

/-- Whether only names are at fault. -/
def NamesOnly (problems : List Problem) : Prop :=
  ∀ problem ∈ problems, problem.code.isSyntax = false

theorem namesOnly_nil : NamesOnly [] := by
  simp [NamesOnly]

theorem namesOnly_append {first second : List Problem} :
    NamesOnly (first ++ second) ↔ NamesOnly first ∧ NamesOnly second := by
  simp [NamesOnly, or_imp, forall_and]

/-- Where a check stands as far as syntax goes: its phase, the number of brackets that
are open and the number of parameters of the current expression. -/
structure Place where
  phase : Phase
  opened : Nat
  declared : Nat

inductive Move : Place → Kind → Place → Prop
  | separator (n : Nat) : Move ⟨.item, 0, n⟩ .semicolon ⟨.item, 0, n⟩
  | opening (n : Nat) : Move ⟨.item, 0, n⟩ .openBracket ⟨.lambda, 1, 0⟩
  | introducer (n : Nat) : Move ⟨.lambda, 1, n⟩ .lambda ⟨.parameter, 1, n⟩
  | parameter (n : Nat) : Move ⟨.parameter, 1, n⟩ .identifier ⟨.parameter, 1, n + 1⟩
  | minus (n : Nat) : Move ⟨.parameter, 1, n⟩ .minus ⟨.arrow, 1, n⟩
  | greater (n : Nat) : Move ⟨.arrow, 1, n⟩ .greater ⟨.operand true, 1, n⟩
  | group {phase : Phase} {first : Bool} (hphase : phase = .operand first ∨ phase = .group first)
      (depth n : Nat) : Move ⟨phase, depth + 1, n⟩ .openBracket ⟨.group first, depth + 2, n⟩
  | atom {phase : Phase} {first : Bool} (hphase : phase = .operand first ∨ phase = .group first)
      {kind : Kind} (hkind : kind = .identifier ∨ kind = .integer ∨ kind = .float)
      (depth n : Nat) : Move ⟨phase, depth + 1, n⟩ kind ⟨.operator first, depth + 1, n⟩
  | endGroup (first : Bool) (depth n : Nat) :
      Move ⟨.operator first, depth + 2, n⟩ .closeBracket ⟨.operator first, depth + 1, n⟩
  | operator (first : Bool) {kind : Kind} (hkind : kind.isOperator) (depth n : Nat) :
      Move ⟨.operator first, depth + 1, n⟩ kind ⟨.operand false, depth + 1, n⟩
  | endBody (n : Nat) : Move ⟨.operator false, 1, n⟩ .closeBracket ⟨.arguments n, 0, n⟩
  | sign {kind : Kind} (hkind : kind = .plus ∨ kind = .minus) (further n : Nat) :
      Move ⟨.argument further false, 0, n⟩ kind ⟨.argument further true, 0, n⟩
  | number {kind : Kind} (hkind : kind = .integer ∨ kind = .float) (further n : Nat)
      (signed : Bool) : Move ⟨.argument further signed, 0, n⟩ kind ⟨.arguments further, 0, n⟩
  | terminator (n : Nat) : Move ⟨.terminator, 0, n⟩ .semicolon ⟨.item, 0, 0⟩

/-- Legal moves one after the other. -/
inductive Moves : Place → List Kind → Place → Prop
  | nil (place : Place) : Moves place [] place
  | cons {place next last : Place} {kind : Kind} {kinds : List Kind} :
      Move place kind next → Moves next kinds last → Moves place (kind :: kinds) last

/-- The number of brackets that are open in a phase, before anything went wrong. -/
def Phase.Holds (opened : Nat) : Phase → Prop
  | item | argument .. | terminator => opened = 0
  | lambda | parameter | arrow => opened = 1
  | operand _ | group _ | operator _ => 0 < opened

theorem Phase.holds_arguments (count : Nat) : (Phase.arguments count).Holds 0 := by
  cases count <;> rfl

namespace Checker

def place (checker : Checker) : Place :=
  ⟨checker.phase, checker.brackets.opened.length, checker.parameters.length⟩

/-- No recovery is under way, and just the brackets are open that the phase says. -/
structure Clean (checker : Checker) : Prop where
  skipped_eq : checker.skipped = []
  base_eq : checker.brackets.base = 0
  opened_holds : checker.phase.Holds checker.brackets.opened.length

theorem clean_initial : initial.Clean := ⟨rfl, rfl, rfl⟩

/-- A token that does not fit: a closing bracket that is reported at once, or a token
that starts a recovery. -/
def Refuses (checker : Checker) (token : Token) : Prop :=
  (∃ others, (checker.feed token).2 = .unmatchedClose token :: others) ∨
    (checker.feed token).2 = [] ∧ (checker.feed token).1.skipped = [token]

theorem Refuses.problemsFrom {checker : Checker} {token : Token} (h : checker.Refuses token)
    (last : Option Token) (rest : List Token) :
    ∃ problem others, checker.problemsFrom last (token :: rest) = problem :: others ∧
      problem.code.isSyntax ∧ problem.code ≠ .unexpectedEnd ∧
        problem.span.start = token.start := by
  rcases h with ⟨others, hothers⟩ | ⟨hnone, hskipped⟩
  · exact ⟨.unmatchedClose token, _, by rw [Checker.problemsFrom, hothers, List.cons_append],
      rfl, by simp [Problem.code], rfl⟩
  · obtain ⟨skipped, others, heq⟩ := problemsFrom_recovering last rest hskipped
    exact ⟨_, others, by rw [Checker.problemsFrom, hnone, heq, List.nil_append],
      rfl, by simp [Problem.code], rfl⟩

/-- In a clean check the expected kinds are legal, unless the token is optional. -/
theorem Clean.move_of_accepts {checker : Checker} (hclean : checker.Clean) {token : Token}
    (habsorb : checker.absorb token = none)
    (haccepts : checker.expected.accepts token.kind = true) :
    ∃ next, Move checker.place token.kind next := by
  obtain ⟨-, hbase, hholds⟩ := hclean
  generalize hplace : checker.place = place
  obtain ⟨phase, opened, n⟩ := place
  obtain ⟨hphase, hopened, -⟩ := Place.mk.inj hplace
  rw [hphase, hopened] at hholds
  have hkind : token.kind ∈ phase.expected.kinds := by
    simpa [expected, hphase, Expected.accepts] using haccepts
  cases phase with
  | item =>
    obtain rfl : opened = 0 := hholds
    rw [List.mem_singleton.mp hkind]
    exact ⟨_, .opening n⟩
  | lambda =>
    obtain rfl : opened = 1 := hholds
    rw [List.mem_singleton.mp hkind]
    exact ⟨_, .introducer n⟩
  | parameter =>
    obtain rfl : opened = 1 := hholds
    rcases List.mem_cons.mp hkind with hkind | hkind
    · rw [hkind]
      exact ⟨_, .parameter n⟩
    · rw [List.mem_singleton.mp hkind]
      exact ⟨_, .minus n⟩
  | arrow =>
    obtain rfl : opened = 1 := hholds
    rw [List.mem_singleton.mp hkind]
    exact ⟨_, .greater n⟩
  | operand first =>
    obtain ⟨depth, rfl⟩ := Nat.exists_eq_add_one.mpr hholds
    exact ⟨_, .atom (.inl rfl) (by simpa [Phase.expected, Expected.kinds] using hkind) depth n⟩
  | group first =>
    obtain ⟨depth, rfl⟩ := Nat.exists_eq_add_one.mpr hholds
    exact ⟨_, .atom (.inr rfl) (by simpa [Phase.expected, Expected.kinds] using hkind) depth n⟩
  | operator first =>
    obtain ⟨depth, rfl⟩ := Nat.exists_eq_add_one.mpr hholds
    by_cases hclose : token.kind = .closeBracket
    · have hshut : checker.brackets.groupOpen = false := by
        simpa [absorb, hphase, hclose] using habsorb
      obtain rfl : depth = 0 := by
        simpa [Brackets.groupOpen, hbase, hopened] using hshut
      cases first with
      | false =>
        rw [hclose]
        exact ⟨_, .endBody n⟩
      | true => simp [Phase.expected, Expected.kinds, hclose] at hkind
    · have hoperator : token.kind.isOperator := by
        cases first <;> cases h : token.kind <;>
          simp_all [Phase.expected, Expected.kinds, Kind.isOperator]
      exact ⟨_, .operator first hoperator depth n⟩
  | argument further signed =>
    obtain rfl : opened = 0 := hholds
    exact ⟨_, .number (by simpa [Phase.expected, Expected.kinds] using hkind) further n signed⟩
  | terminator =>
    obtain rfl : opened = 0 := hholds
    rw [List.mem_singleton.mp hkind]
    exact ⟨_, .terminator n⟩

/-- In a clean check an optional token is legal or a closing bracket without a partner. -/
theorem Clean.move_of_absorb {checker : Checker} (hclean : checker.Clean) {token : Token}
    {result : Checker × List Problem} (habsorb : checker.absorb token = some result) :
    (∃ next, Move checker.place token.kind next) ∨
      ∃ others, result.2 = .unmatchedClose token :: others := by
  obtain ⟨-, hbase, hholds⟩ := hclean
  have hplace : checker.place =
    ⟨checker.phase, checker.brackets.opened.length, checker.parameters.length⟩ := rfl
  unfold absorb at habsorb
  split at habsorb
  case h_1 hphase hkind =>
    rw [hphase] at hplace hholds
    rw [hplace, hkind, show checker.brackets.opened.length = 0 from hholds]
    exact Or.inl ⟨_, .separator _⟩
  case h_2 hphase hkind =>
    have hopened : checker.brackets.opened = [] := by
      simpa [hphase, Phase.Holds] using hholds
    simp only [Brackets.close, hopened, Option.some.injEq] at habsorb
    exact Or.inr ⟨[], by rw [← habsorb]⟩
  case h_3 => exact Or.inr ⟨_, by rw [← Option.some.inj habsorb]⟩
  case h_4 first hphase hkind =>
    rw [hphase] at hplace hholds
    obtain ⟨depth, hdepth⟩ := Nat.exists_eq_add_one.mpr hholds
    rw [hplace, hkind, hdepth]
    exact Or.inl ⟨_, .group (.inl rfl) depth _⟩
  case h_5 first hphase hkind =>
    rw [hphase] at hplace hholds
    obtain ⟨depth, hdepth⟩ := Nat.exists_eq_add_one.mpr hholds
    rw [hplace, hkind, hdepth]
    exact Or.inl ⟨_, .group (.inr rfl) depth _⟩
  case h_6 first hphase hkind =>
    split at habsorb
    · rename_i hopen
      have hopened : 1 < checker.brackets.opened.length := by
        simpa [Brackets.groupOpen, hbase] using hopen
      obtain ⟨depth, hdepth⟩ := Nat.exists_eq_add_of_lt hopened
      rw [hplace, hphase, hkind, hdepth, show 1 + depth + 1 = depth + 2 by omega]
      exact Or.inl ⟨_, .endGroup first depth _⟩
    · simp at habsorb
  case h_7 further hphase hkind =>
    rw [hphase] at hplace hholds
    rw [hplace, hkind, show checker.brackets.opened.length = 0 from hholds]
    exact Or.inl ⟨_, .sign (.inl rfl) further _⟩
  case h_8 further hphase hkind =>
    rw [hphase] at hplace hholds
    rw [hplace, hkind, show checker.brackets.opened.length = 0 from hholds]
    exact Or.inl ⟨_, .sign (.inr rfl) further _⟩
  case h_9 => simp at habsorb

/-- Whatever is no legal move is refused. -/
theorem Clean.move_or_refuses {checker : Checker} (hclean : checker.Clean) {token : Token}
    (hlayout : token.kind.isLayout = false) :
    (∃ next, Move checker.place token.kind next) ∨ checker.Refuses token := by
  cases habsorb : checker.absorb token with
  | some result =>
    rcases hclean.move_of_absorb habsorb with hmove | ⟨others, hothers⟩
    · exact Or.inl hmove
    · refine Or.inr (Or.inl ⟨others, ?_⟩)
      rw [feed_of_absorb hclean.skipped_eq habsorb, hothers]
  | none =>
    by_cases haccepts : checker.expected.accepts token.kind = true
    · exact Or.inl (hclean.move_of_accepts habsorb haccepts)
    · have hfeed := feed_of_refuses hclean.skipped_eq hlayout habsorb
        (Bool.eq_false_iff.mpr haccepts)
      exact Or.inr (Or.inr ⟨by rw [hfeed], by rw [hfeed]⟩)

/-- A token of a legal kind keeps a check clean, and leads where the move says. -/
theorem Clean.feed_of_move {checker : Checker} (hclean : checker.Clean) {token : Token}
    {next : Place} (hmove : Move checker.place token.kind next) :
    (checker.feed token).1.Clean ∧ (checker.feed token).1.place = next ∧
      NamesOnly (checker.feed token).2 := by
  obtain ⟨hskipped, hbase, -⟩ := hclean
  generalize hplace : checker.place = start at hmove
  generalize hkind : token.kind = kind at hmove
  cases hmove with
  | separator n =>
    obtain ⟨hphase, hopened, rfl⟩ := Place.mk.inj hplace
    rw [feed_separator hskipped hphase hkind]
    exact ⟨⟨hskipped, hbase, by rw [hphase]; exact hopened⟩, hplace, namesOnly_nil⟩
  | opening n =>
    obtain ⟨hphase, hopened, rfl⟩ := Place.mk.inj hplace
    rw [feed_opening hskipped hphase hkind]
    have hone : (checker.brackets.enter token).opened.length = 1 := by
      simp [Brackets.enter, hopened]
    exact ⟨⟨rfl, hopened, hone⟩, by simp [place, hone], namesOnly_nil⟩
  | introducer n =>
    obtain ⟨hphase, hopened, rfl⟩ := Place.mk.inj hplace
    rw [feed_introducer hskipped hphase hkind]
    exact ⟨⟨hskipped, hbase, hopened⟩, by simp [place, hopened], namesOnly_nil⟩
  | parameter n =>
    obtain ⟨hphase, hopened, rfl⟩ := Place.mk.inj hplace
    rw [feed_parameter hskipped hphase hkind]
    exact ⟨⟨hskipped, hbase, by rw [hphase]; exact hopened⟩,
      by simp [place, hopened, hphase], namesOnly_nil⟩
  | minus n =>
    obtain ⟨hphase, hopened, rfl⟩ := Place.mk.inj hplace
    rw [feed_minus hskipped hphase hkind]
    exact ⟨⟨hskipped, hbase, hopened⟩, by simp [place, hopened], namesOnly_nil⟩
  | greater n =>
    obtain ⟨hphase, hopened, rfl⟩ := Place.mk.inj hplace
    rw [feed_greater hskipped hphase hkind]
    exact ⟨⟨hskipped, hbase, Nat.lt_of_lt_of_eq Nat.one_pos hopened.symm⟩,
      by simp [place, hopened], namesOnly_nil⟩
  | group hstart depth n =>
    obtain ⟨hphase, hopened, rfl⟩ := Place.mk.inj hplace
    rw [feed_group hskipped (hphase ▸ hstart) hkind]
    have hpush : (checker.brackets.push token).opened.length = depth + 2 := by
      simp [Brackets.push, hopened]
    exact ⟨⟨hskipped, hbase, by simp [Phase.Holds, hpush]⟩, by simp [place, hpush],
      namesOnly_nil⟩
  | atom hstart hatom depth n =>
    obtain ⟨hphase, hopened, rfl⟩ := Place.mk.inj hplace
    have hheld : 0 < checker.brackets.opened.length := by omega
    rcases hatom with rfl | hnumeral
    · rw [feed_name hskipped (hphase ▸ hstart) hkind]
      refine ⟨⟨hskipped, hbase, hheld⟩, by simp [place, hopened], ?_⟩
      intro problem hproblem
      split at hproblem
      · simp at hproblem
      · rw [List.mem_singleton.mp hproblem]
        rfl
    · rw [feed_numeral hskipped (hphase ▸ hstart) (hkind ▸ hnumeral)]
      exact ⟨⟨hskipped, hbase, hheld⟩, by simp [place, hopened], namesOnly_nil⟩
  | endGroup first depth n =>
    obtain ⟨hphase, hopened, rfl⟩ := Place.mk.inj hplace
    rw [feed_endGroup hskipped hphase (by simp [Brackets.groupOpen, hbase, hopened]) hkind]
    obtain ⟨own, outer, hcons⟩ := List.exists_cons_of_length_eq_add_one hopened
    rw [hcons] at hopened
    have houter : outer.length = depth + 1 := by simpa using hopened
    simp only [Brackets.close, hcons]
    exact ⟨⟨hskipped, hbase, by simp [Phase.Holds, hphase, houter]⟩,
      by simp [place, hphase, houter], namesOnly_nil⟩
  | operator first hoperator depth n =>
    obtain ⟨hphase, hopened, rfl⟩ := Place.mk.inj hplace
    rw [feed_operator hskipped hphase (hkind ▸ hoperator)]
    exact ⟨⟨hskipped, hbase, by simp [Phase.Holds, hopened]⟩, by simp [place, hopened],
      namesOnly_nil⟩
  | endBody n =>
    obtain ⟨hphase, hopened, rfl⟩ := Place.mk.inj hplace
    rw [feed_endBody hskipped hphase (by simp [Brackets.groupOpen, hbase, hopened]) hkind]
    obtain ⟨own, hcons⟩ := List.length_eq_one_iff.mp hopened
    simp only [Brackets.close, hcons]
    exact ⟨⟨hskipped, hbase, Phase.holds_arguments _⟩, by simp [place], namesOnly_nil⟩
  | sign hsign further n =>
    obtain ⟨hphase, hopened, rfl⟩ := Place.mk.inj hplace
    rw [feed_sign hskipped hphase (hkind ▸ hsign)]
    exact ⟨⟨hskipped, hbase, hopened⟩, by simp [place, hopened], namesOnly_nil⟩
  | number hnumeral further n signed =>
    obtain ⟨hphase, hopened, rfl⟩ := Place.mk.inj hplace
    rw [feed_number hskipped hphase (hkind ▸ hnumeral)]
    exact ⟨⟨hskipped, hbase, hopened ▸ Phase.holds_arguments _⟩, by simp [place, hopened],
      namesOnly_nil⟩
  | terminator n =>
    obtain ⟨hphase, hopened, rfl⟩ := Place.mk.inj hplace
    rw [feed_terminator hskipped hphase hkind]
    refine ⟨⟨rfl, rfl, hopened⟩, by simp [place, between, Brackets.leave, hopened], ?_⟩
    intro problem hproblem
    obtain ⟨parameter, -, rfl⟩ := List.mem_map.mp hproblem
    rfl

theorem Clean.feedAll_of_moves {checker : Checker} (hclean : checker.Clean)
    (tokens : List Token) {last : Place}
    (hmoves : Moves checker.place (tokens.map Token.kind) last) :
    (checker.feedAll tokens).1.Clean ∧ (checker.feedAll tokens).1.place = last ∧
      NamesOnly (checker.feedAll tokens).2 := by
  induction tokens generalizing checker with
  | nil =>
    cases hmoves
    exact ⟨hclean, rfl, namesOnly_nil⟩
  | cons token rest ih =>
    cases hmoves with
    | cons hmove hrest =>
      obtain ⟨hnext, rfl, hfound⟩ := hclean.feed_of_move hmove
      obtain ⟨hafter, hlast, hmore⟩ := ih hnext hrest
      exact ⟨hafter, hlast, namesOnly_append.mpr ⟨hfound, hmore⟩⟩

/-- Reading goes on by legal moves to the end, or up to a token that is refused. -/
theorem Clean.moves_or_refuses {checker : Checker} (hclean : checker.Clean)
    {tokens : List Token} (hlayout : ∀ token ∈ tokens, token.kind.isLayout = false) :
    (∃ last, Moves checker.place (tokens.map Token.kind) last) ∨
      ∃ before token after last, tokens = before ++ token :: after ∧
        Moves checker.place (before.map Token.kind) last ∧
        (checker.feedAll before).1.Refuses token := by
  induction tokens generalizing checker with
  | nil => exact Or.inl ⟨_, .nil _⟩
  | cons token rest ih =>
    rcases hclean.move_or_refuses (hlayout token (List.mem_cons_self ..)) with
      ⟨next, hmove⟩ | hrefuses
    · obtain ⟨hnext, rfl, -⟩ := hclean.feed_of_move hmove
      rcases ih hnext (fun t ht => hlayout t (List.mem_cons_of_mem _ ht)) with
        ⟨last, hmoves⟩ | ⟨before, stopper, after, last, rfl, hmoves, hrefuses⟩
      · exact Or.inl ⟨last, .cons hmove hmoves⟩
      · exact Or.inr ⟨token :: before, stopper, after, last, rfl, .cons hmove hmoves, hrefuses⟩
    · exact Or.inr ⟨[], token, rest, _, rfl, .nil _, hrefuses⟩

end Checker

end CurriedLambda
