import CurriedLambda.Proofs.BracketMatching
import CurriedLambda.Proofs.ReportOrder

/-!
One recovery, from any state and over any tokens of a text. It starts at a token that is not
expected and ends with the first one that is, or with the tokens. It changes nothing but the
brackets. What is skipped is reported once, line by line if the recovery ends, and after it
the closing brackets among the skipped tokens that find the stack empty.
-/
namespace CurriedLambda

/-- Each set of kinds is what some phase expects. -/
theorem Phase.expected_surjective : Function.Surjective Phase.expected := by
  intro expected
  cases expected with
  | openBracket => exact ⟨.item, rfl⟩
  | lambda => exact ⟨.lambda, rfl⟩
  | parameter => exact ⟨.parameter, rfl⟩
  | arrow => exact ⟨.arrow, rfl⟩
  | operand => exact ⟨.operand true, rfl⟩
  | operator => exact ⟨.operator true, rfl⟩
  | operatorOrClose => exact ⟨.operator false, rfl⟩
  | number => exact ⟨.argument 0 false, rfl⟩
  | semicolon => exact ⟨.terminator, rfl⟩

/-- The lines of a message. -/
def linesOf (message : String) : List String :=
  (message.toList.splitOn '\n').map String.ofList

/-- What a message says about a token that is skipped. -/
def skippedLine (token : Token) : String :=
  "  skipped " ++ token.describe ++ " at " ++ toString token.start

def OneLine (line : String) : Prop :=
  '\n' ∉ line.toList

instance (line : String) : Decidable (OneLine line) :=
  inferInstanceAs (Decidable (¬ _))

section Lines

variable {first second : String} {token : Token} {tokens : List Token}

theorem OneLine.append (hfirst : OneLine first) (hsecond : OneLine second) :
    OneLine (first ++ second) := by
  rw [OneLine, String.toList_append, List.mem_append, not_or]
  exact ⟨hfirst, hsecond⟩

theorem toList_toString (n : Nat) : (toString n).toList = Nat.toDigits 10 n := by
  rw [Nat.toString_eq_repr, Nat.repr, String.toList_ofList]

theorem isDigit_of_mem_toString {n : Nat} {c : Char} (h : c ∈ (toString n).toList) :
    c.isDigit = true := by
  rw [toList_toString] at h
  exact Nat.isDigit_of_mem_toDigits (by decide) (by decide) h

theorem oneLine_toString (n : Nat) : OneLine (toString n) := fun hmem =>
  absurd (isDigit_of_mem_toString hmem) (by decide)

theorem oneLine_wording (expected : Expected) : OneLine expected.wording := by
  cases expected <;> decide

/-- Only the token of a line break has one in its text. -/
theorem oneLine_text_of_ne_newline {text : String} (h : token ∈ tokenize text)
    (hkind : token.kind ≠ .newline) : OneLine token.text := by
  obtain ⟨-, lexeme, -, -, hshape, htext, -⟩ := (lexes_tokenize text).exists_lexeme h
  rw [OneLine, htext, String.toList_ofList]
  exact fun hbreak => hkind (Lexeme.kind_eq_newline_of_mem hshape hbreak)

theorem oneLine_text {text : String} (h : token ∈ significant (tokenize text)) :
    OneLine token.text := by
  obtain ⟨hmem, hkind⟩ := mem_of_mem_significant h
  exact oneLine_text_of_ne_newline hmem hkind

theorem oneLine_describe (h : OneLine token.text) : OneLine token.describe := by
  have hwording : OneLine token.kind.wording := by
    cases token.kind <;> decide
  unfold Token.describe
  split
  · exact ((hwording.append (by decide)).append h).append (by decide)
  · exact hwording

theorem oneLine_skippedLine (h : OneLine token.text) : OneLine (skippedLine token) := by
  have hskipped : OneLine "  skipped " := by decide
  have hat : OneLine " at " := by decide
  exact ((hskipped.append (oneLine_describe h)).append hat).append (oneLine_toString _)

theorem toList_append_skippedLines (first : String) (tokens : List Token) :
    (first ++ Problem.skippedLines tokens).toList =
      ['\n'].intercalate ((first :: tokens.map skippedLine).map String.toList) := by
  induction tokens generalizing first with
  | nil => simp [Problem.skippedLines]
  | cons token rest ih =>
    have hline : first ++ Problem.skippedLines (token :: rest) =
        first ++ ("\n" ++ (skippedLine token ++ Problem.skippedLines rest)) := by
      simp only [Problem.skippedLines, skippedLine, String.append_assoc]
      rfl
    rw [hline, String.toList_append, String.toList_append, ih]
    simp

theorem linesOf_append_skippedLines (hfirst : OneLine first)
    (htokens : ∀ token ∈ tokens, OneLine token.text) :
    linesOf (first ++ Problem.skippedLines tokens) = first :: tokens.map skippedLine := by
  have hlines : ∀ line ∈ first :: tokens.map skippedLine, OneLine line := by
    intro line hline
    rcases List.mem_cons.mp hline with rfl | hline
    · exact hfirst
    · obtain ⟨token, hmem, rfl⟩ := List.mem_map.mp hline
      exact oneLine_skippedLine (htokens token hmem)
  rw [linesOf, toList_append_skippedLines,
    List.splitOn_intercalate _ (List.forall_mem_map.mpr hlines) (by simp), List.map_map]
  simp

theorem toList_join_lines (lines : List String) :
    (String.join (lines.map (· ++ "\n"))).toList =
      ['\n'].intercalate ((lines ++ [""]).map String.toList) := by
  induction lines with
  | nil => simp
  | cons line rest ih =>
    rw [List.cons_append, List.map_cons, List.map_cons,
      List.intercalate_cons_of_ne_nil (by simp), ← ih]
    simp

/-- Lines that are each ended by a line feed leave nothing behind the last one. -/
theorem linesOf_join {lines : List String} (hlines : ∀ line ∈ lines, OneLine line) :
    linesOf (String.join (lines.map (· ++ "\n"))) = lines ++ [""] := by
  have hended : ∀ line ∈ lines ++ [""], OneLine line := by
    intro line hline
    rcases List.mem_append.mp hline with hline | hline
    · exact hlines line hline
    · rw [List.mem_singleton.mp hline]
      decide
  rw [linesOf, toList_join_lines,
    List.splitOn_intercalate _ (List.forall_mem_map.mpr hended) (by simp), List.map_map]
  simp

end Lines

/-- The diagnostic of a recovery at `found` that lists these tokens as skipped. -/
structure ReportsSkipped (expected : Expected) (found : Token) (skipped : List Token)
    (diagnostic : Diagnostic) : Prop where
  code_eq : diagnostic.code = .unexpectedToken
  start_eq : diagnostic.span.start = found.start
  stop_eq : diagnostic.span.stop = (skipped.getLastD found).stop
  lines_eq : linesOf diagnostic.message =
    ("expected " ++ expected.wording ++ ", found " ++ found.describe) :: skipped.map skippedLine

theorem reportsSkipped_unexpected {text : String} {found : Token} {more skipped : List Token}
    (hmore : (found :: more).Sublist (significant (tokenize text)))
    (hskipped : skipped = [] ∨ skipped = found :: more) (expected : Expected) :
    ReportsSkipped expected found skipped
      (Problem.unexpected expected found skipped).toDiagnostic := by
  have horder : InOrder (found :: more) :=
    (inOrder_tokenize text).sublist (hmore.trans List.filter_sublist)
  have hline : ∀ token ∈ found :: more, OneLine token.text := fun token hmem =>
    oneLine_text (hmore.subset hmem)
  have hfound : OneLine ("expected " ++ expected.wording ++ ", found " ++ found.describe) := by
    have hexpected : OneLine "expected " := by decide
    have hdescribe := oneLine_describe (hline found List.mem_cons_self)
    exact ((hexpected.append (oneLine_wording expected)).append (by decide)).append hdescribe
  refine ⟨rfl, rfl, ?_, linesOf_append_skippedLines hfound fun token htoken => ?_⟩
  · have hlast : skipped.getLastD found ∈ found :: more := by
      rcases hskipped with rfl | rfl
      · exact List.mem_cons_self
      · rw [List.getLastD_cons]
        exact List.getLastD_mem_cons
    have hle := horder.start_le hlast
    have hpos := horder.length_pos _ hlast
    simp only [Problem.toDiagnostic, Problem.span, Span.between, Span.ofLength, Span.stop,
      Token.stop]
    omega
  · rcases hskipped with rfl | rfl
    · cases htoken
    · exact hline token htoken

namespace Checker

variable {checker : Checker} {found target : Token} {tokens early later more : List Token}

/-- Reads tokens where one of the expected kinds has to come next and nothing is optional. -/
def meetAll (checker : Checker) : List Token → Checker × List Problem
  | [] => (checker, [])
  | token :: rest =>
    if token.kind.isLayout then checker.meetAll rest
    else
      let (next, problems) := checker.meet token
      let (after, more) := next.feedAll rest
      (after, problems ++ more)

theorem meetAll_layout {token : Token} (h : token.kind.isLayout = true) (rest : List Token) :
    checker.meetAll (token :: rest) = checker.meetAll rest := by
  rw [meetAll, if_pos h]

theorem meetAll_cons {token : Token} (h : token.kind.isLayout = false) (rest : List Token) :
    checker.meetAll (token :: rest) =
      (((checker.meet token).1.feedAll rest).1,
        (checker.meet token).2 ++ ((checker.meet token).1.feedAll rest).2) := by
  rw [meetAll, if_neg (by simp [h])]

/-- A check reads its tokens so when the first that is no layout is not optional. -/
theorem feedAll_eq_meetAll (hfound : (significant tokens).head? = some found)
    (habsorb : checker.absorb found = none) : checker.feedAll tokens = checker.meetAll tokens := by
  induction tokens with
  | nil => rfl
  | cons token rest ih =>
    cases hlayout : token.kind.isLayout with
    | true =>
      rw [significant_cons_layout hlayout] at hfound
      rw [meetAll_layout hlayout, feedAll_cons, feed_layout hlayout, ih hfound]
      rfl
    | false =>
      rw [significant_cons hlayout] at hfound
      obtain rfl := Option.some.inj hfound
      rw [meetAll_cons hlayout, feedAll_cons, feed_eq_meet hlayout fun _ => habsorb]

theorem feedAll_of_refuses (hskipped : checker.skipped ≠ [])
    (hrefuses : ∀ token ∈ tokens, checker.expected.accepts token.kind = false) :
    checker.feedAll tokens =
      ({ checker with skipped := checker.skipped ++ significant tokens }, []) := by
  induction tokens generalizing checker with
  | nil => simp [significant]
  | cons token rest ih =>
    have hrest := fun other hother => hrefuses other (List.mem_cons_of_mem _ hother)
    rw [feedAll_cons]
    cases hlayout : token.kind.isLayout with
    | true =>
      rw [feed_layout hlayout, significant_cons_layout hlayout, ih hskipped hrest]
      rfl
    | false =>
      have hnext := @ih { checker with skipped := checker.skipped ++ [token] } (by simp) hrest
      rw [List.append_assoc] at hnext
      rw [feed_eq_meet hlayout fun hnil => absurd hnil hskipped,
        meet_of_refuses (hrefuses token List.mem_cons_self), significant_cons hlayout, hnext]
      rfl

/-- As long as no token fits, the tokens are skipped and nothing is reported. -/
theorem meetAll_of_refuses (hskipped : checker.skipped = [])
    (hrefuses : ∀ token ∈ tokens, checker.expected.accepts token.kind = false) :
    checker.meetAll tokens = ({ checker with skipped := significant tokens }, []) := by
  induction tokens with
  | nil => exact congrArg (·, []) (eq_of_skipped_eq_nil hskipped)
  | cons token rest ih =>
    have hrest := fun other hother => hrefuses other (List.mem_cons_of_mem _ hother)
    cases hlayout : token.kind.isLayout with
    | true => rw [meetAll_layout hlayout, significant_cons_layout hlayout, ih hrest]
    | false =>
      have hnext := @feedAll_of_refuses { checker with skipped := [token] } rest (by simp) hrest
      rw [meetAll_cons hlayout, meet_of_refuses (hrefuses token List.mem_cons_self), hskipped,
        List.nil_append, hnext, significant_cons hlayout]
      rfl

theorem meetAll_append (hearly : significant early ≠ []) (later : List Token) :
    checker.meetAll (early ++ later) =
      (((checker.meetAll early).1.feedAll later).1,
        (checker.meetAll early).2 ++ ((checker.meetAll early).1.feedAll later).2) := by
  induction early with
  | nil => exact absurd rfl hearly
  | cons token rest ih =>
    rw [List.cons_append]
    cases hlayout : token.kind.isLayout with
    | true =>
      rw [significant_cons_layout hlayout] at hearly
      rw [meetAll_layout hlayout, meetAll_layout hlayout, ih hearly]
    | false =>
      rw [meetAll_cons hlayout, meetAll_cons hlayout, feedAll_append, List.append_assoc]

/-- The first token that fits ends the recovery. -/
theorem meetAll_of_accepts (hskipped : checker.skipped = [])
    (hearly : significant early = found :: more)
    (hrefuses : ∀ token ∈ early, checker.expected.accepts token.kind = false)
    (haccepts : checker.expected.accepts target.kind = true) :
    let resumed := { checker with
      brackets := (checker.brackets.skip (significant early)).1, skipped := [] }
    checker.meetAll (early ++ [target]) = ((resumed.take target).1,
      .unexpected checker.expected found (significant early) ::
        ((checker.brackets.skip (significant early)).2 ++ (resumed.take target).2)) := by
  intro resumed
  have hstate := meetAll_of_refuses hskipped hrefuses
  have htarget : { checker with skipped := significant early }.feed target =
      ((resumed.take target).1, .unexpected checker.expected found (significant early) ::
        ((checker.brackets.skip (significant early)).2 ++ (resumed.take target).2)) := by
    rw [feed_eq_meet (isLayout_of_accepts haccepts) fun hnil => by simp [hearly] at hnil]
    exact @meet_of_accepts { checker with skipped := significant early } _ _ _ haccepts hearly
  rw [meetAll_append (by simp [hearly]), hstate, feedAll_cons, htarget]
  simp

theorem finish_of_skipped {last : Option Token} (h : checker.skipped = found :: more) :
    checker.finish last =
      .unexpected checker.expected found [] :: (checker.brackets.skip checker.skipped).2 := by
  rw [finish, h]

/-- The token at which a recovery starts stands before the one that ends it. -/
theorem exists_significant_eq (hfound : (significant (early ++ target :: later)).head? = some found)
    (hrefuses : checker.expected.accepts found.kind = false)
    (haccepts : checker.expected.accepts target.kind = true) :
    ∃ more, significant early = found :: more := by
  rw [significant_append, significant_cons (isLayout_of_accepts haccepts)] at hfound
  cases hearly : significant early with
  | nil =>
    rw [hearly] at hfound
    rw [Option.some.inj hfound, hrefuses] at haccepts
    cases haccepts
  | cons first more =>
    rw [hearly] at hfound
    exact ⟨more, congrArg (· :: more) (Option.some.inj hfound)⟩

/-- What is reported of the brackets among skipped tokens. -/
theorem map_skip_significant (brackets : Brackets) (tokens : List Token) :
    (brackets.skip (significant tokens)).2.map Problem.toDiagnostic =
      (unmatchedCloses brackets.opened (bracketsOf tokens)).map
        fun bracket => (Problem.unmatchedClose bracket).toDiagnostic := by
  rw [Brackets.skip_eq_unmatchedCloses rfl, bracketsOf_significant, List.map_map]
  rfl

/-- A recovery ends if and only if a token fits. -/
theorem exists_resumed_iff (hskipped : checker.skipped = [])
    (hfound : (significant tokens).head? = some found)
    (hrefuses : checker.expected.accepts found.kind = false) :
    (∃ early later, tokens = early ++ later ∧ found ∈ early ∧
        (checker.meetAll early).1.skipped = []) ↔
      ∃ token ∈ tokens, checker.expected.accepts token.kind = true := by
  constructor
  · intro ⟨early, later, htokens, hmem, hresumed⟩
    by_contra hnone
    have hearly : ∀ token ∈ early, checker.expected.accepts token.kind = false := by
      intro token htoken
      rw [← Bool.not_eq_true]
      exact fun haccepts => hnone ⟨token, by simp [htokens, htoken], haccepts⟩
    rw [meetAll_of_refuses hskipped hearly] at hresumed
    have hlayout := (List.mem_filter.mp (List.mem_of_head? hfound)).2
    have hkept : found ∈ significant early := List.mem_filter.mpr ⟨hmem, hlayout⟩
    exact List.ne_nil_of_mem hkept hresumed
  · intro ⟨token, hmem, haccepts⟩
    obtain ⟨target, hfirst⟩ : ∃ target,
        tokens.find? (checker.expected.accepts ·.kind) = some target :=
      Option.isSome_iff_exists.mp (List.find?_isSome.mpr ⟨token, hmem, haccepts⟩)
    obtain ⟨htarget, early, later, rfl, hearly⟩ := List.find?_eq_some_iff_append.mp hfirst
    obtain ⟨more, hmore⟩ := exists_significant_eq hfound hrefuses htarget
    refine ⟨early ++ [target], later, by simp, ?_, ?_⟩
    · have hkept : found ∈ significant early := hmore ▸ List.mem_cons_self
      exact List.mem_append_left _ (List.mem_filter.mp hkept).1
    · rw [meetAll_of_accepts hskipped hmore (by simpa using hearly) htarget]
      exact (takes_take _ target).skipped_eq_nil rfl

/-- What one recovery does, in any state over the tokens of a text and whatever is expected:
by its phase alone, a state can expect each of the sets. -/
theorem recovery_contract {text : String} {passed : List Token}
    (htokens : tokenize text = passed ++ tokens) (hskipped : checker.skipped = [])
    (hfound : (significant tokens).head? = some found)
    (hrefuses : checker.expected.accepts found.kind = false) :
    (∀ expected, ∃ phase, Checker.expected { checker with phase } = expected) ∧
    (checker.absorb found = none → checker.feedAll tokens = checker.meetAll tokens) ∧
    ((∃ early later, tokens = early ++ later ∧ found ∈ early ∧
        (checker.meetAll early).1.skipped = []) ↔
      ∃ token ∈ tokens, checker.expected.accepts token.kind = true) ∧
    (∀ early target later, tokens = early ++ target :: later →
      (∀ token ∈ early, checker.expected.accepts token.kind = false) →
      checker.expected.accepts target.kind = true →
        let skipped := significant early
        let resumed :=
          { checker with brackets := (checker.brackets.skip skipped).1, skipped := [] }
        checker.meetAll early = ({ checker with skipped := skipped }, []) ∧
        (checker.meetAll (early ++ [target])).1 = (resumed.take target).1 ∧
        ∃ report, ReportsSkipped checker.expected found skipped report ∧
          (checker.meetAll (early ++ [target])).2.map Problem.toDiagnostic =
            report :: ((unmatchedCloses checker.brackets.opened (bracketsOf early)).map
                (fun bracket => (Problem.unmatchedClose bracket).toDiagnostic) ++
              (resumed.take target).2.map Problem.toDiagnostic)) ∧
    ((∀ token ∈ tokens, checker.expected.accepts token.kind = false) →
      checker.meetAll tokens = ({ checker with skipped := significant tokens }, []) ∧
      ∃ report, ReportsSkipped checker.expected found [] report ∧ ∀ last,
        ((checker.meetAll tokens).1.finish last).map Problem.toDiagnostic =
          report :: (unmatchedCloses checker.brackets.opened (bracketsOf tokens)).map
            fun bracket => (Problem.unmatchedClose bracket).toDiagnostic) := by
  have hsublist {part more : List Token} (hpart : part.Sublist tokens)
      (hmore : significant part = found :: more) :
      (found :: more).Sublist (significant (tokenize text)) := by
    rw [← hmore, htokens]
    exact (hpart.trans (List.sublist_append_right passed tokens)).filter _
  refine ⟨Phase.expected_surjective, feedAll_eq_meetAll hfound,
    exists_resumed_iff hskipped hfound hrefuses, ?_, ?_⟩
  · intro early target later htarget hearly haccepts skipped resumed
    rw [htarget] at hfound
    obtain ⟨more, hmore⟩ := exists_significant_eq hfound hrefuses haccepts
    have hread : checker.meetAll (early ++ [target]) = _ :=
      meetAll_of_accepts hskipped hmore hearly haccepts
    refine ⟨meetAll_of_refuses hskipped hearly, by rw [hread], _,
      reportsSkipped_unexpected (hsublist ?_ hmore) (.inr hmore) checker.expected, ?_⟩
    · rw [htarget]
      exact List.sublist_append_left _ _
    · rw [hread, List.map_cons, List.map_append, map_skip_significant]
  · intro hnone
    obtain ⟨more, hmore⟩ := List.head?_eq_some_iff.mp hfound
    have hread := meetAll_of_refuses hskipped hnone
    refine ⟨hread, _,
      reportsSkipped_unexpected (hsublist (List.Sublist.refl _) hmore) (.inl rfl) checker.expected,
      fun last => ?_⟩
    rw [hread, finish_of_skipped hmore, List.map_cons, map_skip_significant]
    rfl

/-- Line breaks around and among the skipped tokens are not listed. The first closing bracket
closes the bracket of the expression, the second one finds none. -/
theorem recovery_contract_at_parameter :
    let tokens := tokenize "(\\x\n))\n@(\ny->x+y)1 2;"
    ∃ report, report.span.start = 4 ∧ report.span.stop = 9 ∧
      linesOf report.message =
        ["expected identifier or `-`, found `)`", "  skipped `)` at 4", "  skipped `)` at 5",
          "  skipped invalid character `@` at 7", "  skipped `(` at 8"] ∧
      ((after (tokens.take 3)).meetAll ((tokens.drop 3).take 8)).2.map Problem.toDiagnostic =
        [report, (Problem.unmatchedClose ⟨.closeBracket, ")", 5⟩).toDiagnostic] := by
  intro tokens
  have htokens : tokens = tokens.take 3 ++ tokens.drop 3 := (List.take_append_drop 3 tokens).symm
  have hskipped : (after (tokens.take 3)).skipped = [] := by decide +kernel
  have hfound : (significant (tokens.drop 3)).head? = some ⟨.closeBracket, ")", 4⟩ := by
    decide +kernel
  have hsplit : tokens.drop 3 =
      (tokens.drop 3).take 7 ++ ⟨.identifier, "y", 10⟩ :: tokens.drop 11 := by
    decide +kernel
  have hprefix : (tokens.drop 3).take 8 = (tokens.drop 3).take 7 ++ [⟨.identifier, "y", 10⟩] := by
    decide +kernel
  obtain ⟨-, -, -, hends, -⟩ := recovery_contract htokens hskipped hfound (by decide +kernel)
  obtain ⟨-, -, report, hreport, hproblems⟩ :=
    hends _ _ _ hsplit (by decide +kernel) (by decide +kernel)
  rw [← hprefix] at hproblems
  refine ⟨report, hreport.start_eq, hreport.stop_eq.trans (by decide +kernel),
    hreport.lines_eq.trans (by decide +kernel), hproblems.trans ?_⟩
  congr 1
  decide +kernel

end Checker

end CurriedLambda
