import CurriedLambda.Proofs.Lexing
import CurriedLambda.Proofs.Reading

/-!
Where diagnostics stand. A check keeps nothing but tokens that it has read: the names of
the parameters and a run of skipped tokens in their order. So every problem is about
tokens of the text, and its diagnostic covers the text from the first of them to the end
of the last. The end of the tokens is reported at a token, too, as no expression is open
before the first.
-/
namespace CurriedLambda

/-- What a state keeps comes from these tokens. -/
structure Checker.DrawnFrom (tokens : List Token) (checker : Checker) : Prop where
  parameter_mem : ∀ parameter ∈ checker.parameters,
    parameter ∈ tokens ∧ parameter.kind = .identifier
  skipped_sublist : checker.skipped.Sublist tokens
  phase_eq : tokens = [] → checker.phase = .item

/-- What a problem is about comes from these tokens, and where they end is `last`. -/
def Problem.DrawnFrom (last : Option Token) (tokens : List Token) : Problem → Prop
  | unexpected _ found skipped =>
    ∃ more, (found :: more).Sublist tokens ∧ (skipped = [] ∨ skipped = found :: more)
  | exhausted _ token => token = last ∧ tokens ≠ []
  | unknownName token
  | unusedParameter token => token ∈ tokens ∧ token.kind = .identifier
  | unmatchedClose token
  | misplacedClose token => token ∈ tokens ∧ token.kind = .closeBracket

theorem Problem.DrawnFrom.append {last : Option Token} {tokens : List Token} {problem : Problem}
    (h : problem.DrawnFrom last tokens) (more : List Token) :
    problem.DrawnFrom last (tokens ++ more) := by
  have hmem : ∀ token ∈ tokens, token ∈ tokens ++ more := fun _ => List.mem_append_left more
  cases problem with
  | unexpected expected found skipped =>
    obtain ⟨run, hrun, hskipped⟩ := h
    exact ⟨run, hrun.trans (List.sublist_append_left tokens more), hskipped⟩
  | exhausted expected token => exact ⟨h.1, fun hnil => h.2 (List.append_eq_nil_iff.mp hnil).1⟩
  | _ => exact ⟨hmem _ h.1, h.2⟩

namespace Checker.DrawnFrom

variable {checker : Checker} {tokens : List Token} {token : Token}
  {result : Checker × List Problem} (last : Option Token)

theorem initial : Checker.initial.DrawnFrom [] :=
  ⟨by simp [Checker.initial, between], List.nil_sublist [], fun _ => rfl⟩

/-- A state that keeps no more than before, and perhaps declares the token just read. -/
theorem read {next : Checker} (h : checker.DrawnFrom tokens)
    (hparameters : ∀ parameter ∈ next.parameters,
      parameter ∈ checker.parameters ∨ parameter = token ∧ token.kind = .identifier)
    (hskipped : next.skipped.Sublist (checker.skipped ++ [token])) :
    next.DrawnFrom (tokens ++ [token]) := by
  refine ⟨fun parameter hparameter => ?_, ?_, by simp⟩
  · rcases hparameters parameter hparameter with hold | ⟨rfl, hkind⟩
    · exact (h.parameter_mem parameter hold).imp_left (List.mem_append_left _)
    · exact ⟨by simp, hkind⟩
  · exact hskipped.trans (h.skipped_sublist.append_right [token])

theorem of_absorbs (h : checker.DrawnFrom tokens) (habsorbs : checker.Absorbs token result) :
    result.1.DrawnFrom (tokens ++ [token]) ∧
      ∀ problem ∈ result.2, problem.DrawnFrom last (tokens ++ [token]) := by
  have hsame : checker.skipped.Sublist (checker.skipped ++ [token]) := List.sublist_append_left ..
  have hmem : token ∈ tokens ++ [token] := by simp
  cases habsorbs with
  | outerClose hphase hkind | endGroup hphase hkind hopen =>
    refine ⟨h.read (fun _ => .inl) hsame, fun problem hproblem => ?_⟩
    rw [Brackets.mem_close hproblem]
    exact ⟨hmem, hkind⟩
  | misplaced hphase hkind =>
    exact ⟨h.read (fun _ => .inl) hsame, by simp [Problem.DrawnFrom, hkind]⟩
  | _ => exact ⟨h.read (fun _ => .inl) hsame, by simp⟩

theorem of_takes (h : checker.DrawnFrom tokens) (htakes : checker.Takes token result) :
    result.1.DrawnFrom (tokens ++ [token]) ∧
      ∀ problem ∈ result.2, problem.DrawnFrom last (tokens ++ [token]) := by
  have hsame : checker.skipped.Sublist (checker.skipped ++ [token]) := List.sublist_append_left ..
  have hmem : token ∈ tokens ++ [token] := by simp
  cases htakes with
  | opening hphase => exact ⟨h.read (by simp) (List.nil_sublist _), by simp⟩
  | parameter hphase hkind =>
    refine ⟨h.read (fun parameter hparameter => ?_) hsame, by simp⟩
    rcases List.mem_append.mp hparameter with hold | hnew
    · exact .inl hold
    · exact .inr ⟨List.mem_singleton.mp hnew, hkind⟩
  | name hphase hkind =>
    refine ⟨h.read (fun _ => .inl) hsame, fun problem hproblem => ?_⟩
    split at hproblem
    · simp at hproblem
    · rw [List.mem_singleton.mp hproblem]
      exact ⟨hmem, hkind⟩
  | endBody hphase hkind =>
    refine ⟨h.read (fun _ => .inl) hsame, fun problem hproblem => ?_⟩
    rw [Brackets.mem_close hproblem]
    exact ⟨hmem, hkind⟩
  | terminator hphase =>
    refine ⟨h.read (by simp [between]) (List.nil_sublist _), fun problem hproblem => ?_⟩
    obtain ⟨parameter, hparameter, rfl⟩ := List.mem_map.mp hproblem
    have hdeclared := h.parameter_mem parameter (List.mem_filter.mp hparameter).1
    exact ⟨List.mem_append_left _ hdeclared.1, hdeclared.2⟩
  | leadsOn hphase hnext => exact ⟨h.read (fun _ => .inl) hsame, by simp⟩

theorem resumed (h : checker.DrawnFrom tokens) : checker.resumed.DrawnFrom tokens :=
  ⟨h.parameter_mem, List.nil_sublist tokens, h.phase_eq⟩

/-- The problems of a recovery are about the tokens that it skips. -/
theorem skipping (h : checker.DrawnFrom tokens) :
    ∀ problem ∈ checker.skipping, problem.DrawnFrom last tokens := by
  intro problem hproblem
  rw [Checker.skipping] at hproblem
  split at hproblem
  · cases hproblem
  · rename_i found more hskipped
    rw [List.mem_singleton.mp hproblem]
    exact ⟨more, hskipped ▸ h.skipped_sublist, .inr hskipped⟩

theorem skip (h : checker.DrawnFrom tokens) :
    ∀ problem ∈ (checker.brackets.skip checker.skipped).2, problem.DrawnFrom last tokens := by
  intro problem hproblem
  obtain ⟨token, htoken, hkind, rfl⟩ := Brackets.mem_skip hproblem
  exact ⟨h.skipped_sublist.subset htoken, hkind⟩

theorem feed (h : checker.DrawnFrom tokens) (hlayout : token.kind.isLayout = false) :
    (checker.feed token).1.DrawnFrom (tokens ++ [token]) ∧
      ∀ problem ∈ (checker.feed token).2, problem.DrawnFrom last (tokens ++ [token]) := by
  have hstep := step_feed checker token
  generalize checker.feed token = result at hstep
  cases hstep with
  | layout h => simp [h] at hlayout
  | absorbs hskipped habsorb => exact h.of_absorbs last (absorbs_of_absorb habsorb)
  | takes habsorb haccepts =>
    obtain ⟨hnext, hproblems⟩ := h.resumed.of_takes last (takes_take _ token)
    refine ⟨hnext, fun problem hproblem => ?_⟩
    rcases List.mem_append.mp hproblem with hrecovery | htaken
    · rcases List.mem_append.mp hrecovery with hskipping | hskip
      · exact (h.skipping last problem hskipping).append _
      · exact (h.skip last problem hskip).append _
    · exact hproblems problem htaken
  | skips hlayout habsorb hrefuses =>
    exact ⟨h.read (fun _ => .inl) (List.Sublist.refl _), by simp⟩

theorem finish (h : checker.DrawnFrom tokens) :
    ∀ problem ∈ checker.finish last, problem.DrawnFrom last tokens := by
  intro problem hproblem
  rw [Checker.finish] at hproblem
  split at hproblem
  · rename_i found more hskipped
    rcases List.mem_cons.mp hproblem with rfl | hskip
    · exact ⟨more, hskipped ▸ h.skipped_sublist, .inl rfl⟩
    · exact h.skip last problem hskip
  · split at hproblem
    · cases hproblem
    · rename_i hphase
      rw [List.mem_singleton.mp hproblem]
      exact ⟨rfl, fun hnil => hphase (h.phase_eq hnil)⟩

theorem problemsFrom (h : checker.DrawnFrom tokens) {rest : List Token}
    (hlayout : ∀ token ∈ rest, token.kind.isLayout = false) :
    ∀ problem ∈ checker.problemsFrom last rest, problem.DrawnFrom last (tokens ++ rest) := by
  induction rest generalizing checker tokens with
  | nil =>
    rw [List.append_nil]
    exact h.finish last
  | cons token rest ih =>
    obtain ⟨hnext, hproblems⟩ := h.feed last (hlayout token List.mem_cons_self)
    have hrest := ih hnext fun other hother => hlayout other (List.mem_cons_of_mem _ hother)
    intro problem hproblem
    rw [← List.singleton_append, ← List.append_assoc]
    rcases List.mem_append.mp hproblem with hfed | hlater
    · exact (hproblems problem hfed).append rest
    · exact hrest problem hlater

end Checker.DrawnFrom

theorem drawnFrom_of_mem_problems {tokens : List Token} {problem : Problem}
    (h : problem ∈ problems tokens) :
    problem.DrawnFrom (tokens.filter (·.kind ≠ .whitespace)).getLast? (significant tokens) := by
  rw [problems_eq_problemsFrom] at h
  exact Checker.DrawnFrom.initial.problemsFrom _ (fun _ => isLayout_of_mem_significant) problem h

/-- Tokens that stand one after the other, none of them empty. -/
structure InOrder (tokens : List Token) : Prop where
  pairwise : tokens.Pairwise fun earlier later => earlier.stop ≤ later.start
  length_pos : ∀ token ∈ tokens, 0 < token.length

theorem inOrder_tokenize (text : String) : InOrder (tokenize text) :=
  ⟨(lexes_tokenize text).pairwise_stop_le_start, fun _ => (lexes_tokenize text).length_pos⟩

namespace InOrder

variable {tokens others : List Token} {first second : Token}

theorem sublist (h : InOrder tokens) (hsublist : others.Sublist tokens) : InOrder others :=
  ⟨h.pairwise.sublist hsublist, fun token hmem => h.length_pos token (hsublist.subset hmem)⟩

theorem stop_le_start (h : InOrder (tokens ++ others)) (hfirst : first ∈ tokens)
    (hsecond : second ∈ others) : first.stop ≤ second.start :=
  (List.pairwise_append.mp h.pairwise).2.2 first hfirst second hsecond

theorem span_stop (h : InOrder tokens) (hmem : first ∈ tokens) : first.span.stop = first.stop := by
  have hpos := h.length_pos first hmem
  rw [Span.stop, Token.stop]
  exact congrArg (first.start + ·) (Nat.max_eq_left hpos)

/-- No token starts before the first one. -/
theorem start_le (h : InOrder (first :: others)) (hmem : second ∈ first :: others) :
    first.start ≤ second.start := by
  rcases List.mem_cons.mp hmem with rfl | hrest
  · exact Nat.le_refl _
  · exact (Nat.le_add_right _ _).trans (List.rel_of_pairwise_cons h.pairwise hrest)

/-- No token starts after the last one. -/
theorem start_le_getLast (h : InOrder tokens) (hmem : first ∈ tokens) :
    ∃ last, tokens.getLast? = some last ∧ first.start ≤ last.start := by
  obtain rfl | ⟨init, last, rfl⟩ := List.eq_nil_or_concat' tokens
  · cases hmem
  · refine ⟨last, List.getLast?_concat .., ?_⟩
    rcases List.mem_append.mp hmem with hinit | hlast
    · exact (Nat.le_add_right _ _).trans (h.stop_le_start hinit List.mem_cons_self)
    · rw [List.mem_singleton.mp hlast]

end InOrder

section Text

variable {text : String} {token : Token}

theorem stop_le_length (h : token ∈ tokenize text) : token.stop ≤ text.length := by
  obtain ⟨before, lexeme, after, hsplit, -, htext, hstart⟩ := (lexes_tokenize text).exists_lexeme h
  have hlength := congrArg List.length hsplit
  simp only [List.length_append, String.length_toList] at hlength
  rw [Token.stop, Token.length, htext, String.length_ofList]
  omega

/-- A token covers its own text. -/
theorem excerpt_of_mem (h : token ∈ tokenize text) :
    excerpt text token.start token.length = token.text := by
  obtain ⟨before, lexeme, after, hsplit, -, htext, hstart⟩ := (lexes_tokenize text).exists_lexeme h
  rw [excerpt, hsplit, Token.length, htext, String.length_ofList, hstart, Nat.zero_add,
    List.drop_left, List.take_left]

theorem span_length (h : token ∈ tokenize text) : token.span.length = token.length :=
  Nat.max_eq_left ((lexes_tokenize text).length_pos h)

theorem excerpt_span (h : token ∈ tokenize text) :
    excerpt text token.span.start token.span.length = token.text := by
  rw [span_length h]
  exact excerpt_of_mem h

theorem exists_index (h : token ∈ tokenize text) :
    ∃ i : Fin (tokenize text).length, (tokenize text)[i] = token := by
  obtain ⟨i, hi, heq⟩ := List.getElem_of_mem h
  exact ⟨⟨i, hi⟩, heq⟩

theorem le_of_start_le {i j : Fin (tokenize text).length}
    (h : (tokenize text)[i].start ≤ (tokenize text)[j].start) : i ≤ j := by
  by_contra hlt
  have hstart := List.pairwise_iff_getElem.mp (pairwise_start_lt text) j i j.isLt i.isLt
    (Nat.lt_of_not_le hlt)
  exact absurd h (Nat.not_le_of_lt hstart)

theorem mem_of_mem_significant {tokens : List Token} (h : token ∈ significant tokens) :
    token ∈ tokens ∧ token.kind ≠ .newline := by
  refine ⟨(List.mem_filter.mp h).1, fun hkind => ?_⟩
  have hlayout := isLayout_of_mem_significant h
  simp [hkind, Kind.isLayout] at hlayout

theorem filter_tokenize (text : String) :
    (tokenize text).filter (·.kind ≠ .whitespace) = tokenize text := by
  refine List.filter_eq_self.mpr fun token htoken => decide_eq_true fun hkind => ?_
  obtain ⟨-, lexeme, -, -, hshape, -⟩ := (lexes_tokenize text).exists_lexeme htoken
  simp [hkind, Lexeme.HasShape] at hshape

end Text

/-- The diagnostic covers the text from the start of the token at `i` up to the end of the
token at `j`, and these are tokens that fit its code and its message. -/
structure Diagnostic.AnchoredAt (text : String) (diagnostic : Diagnostic)
    (i j : Fin (tokenize text).length) : Prop where
  le : i ≤ j
  start_eq : diagnostic.span.start = (tokenize text)[i].start
  stop_eq : diagnostic.span.stop = (tokenize text)[j].stop
  eq_of_code : diagnostic.code ≠ .unexpectedToken → i = j
  kind_ne_newline : diagnostic.code ≠ .unexpectedEnd →
    (tokenize text)[i].kind ≠ .newline ∧ (tokenize text)[j].kind ≠ .newline
  unknownName : diagnostic.code = .unknownName →
    (tokenize text)[i].kind = .identifier ∧
      diagnostic.message = "name `" ++ excerpt text diagnostic.span.start diagnostic.span.length ++
        "` does not exist in current context"
  unusedParameter : diagnostic.code = .unusedParameter →
    (tokenize text)[i].kind = .identifier ∧
      diagnostic.message = "unused parameter named `" ++
        excerpt text diagnostic.span.start diagnostic.span.length ++ "`"
  closeBracket : diagnostic.code = .unmatchedClose ∨ diagnostic.code = .misplacedClose →
    (tokenize text)[i].kind = .closeBracket
  unexpectedEnd : diagnostic.code = .unexpectedEnd → i.val + 1 = (tokenize text).length

namespace Problem

variable {text : String}

/-- A diagnostic with the range of one token covers that token. -/
theorem anchoredAt_single {diagnostic : Diagnostic} {token : Token}
    (h : token ∈ significant (tokenize text)) (hspan : diagnostic.span = token.span)
    (hcode : diagnostic.code ≠ .unexpectedEnd)
    (hunknown : diagnostic.code = .unknownName → token.kind = .identifier ∧
      diagnostic.message = "name `" ++ token.text ++ "` does not exist in current context")
    (hunused : diagnostic.code = .unusedParameter → token.kind = .identifier ∧
      diagnostic.message = "unused parameter named `" ++ token.text ++ "`")
    (hclose : diagnostic.code = .unmatchedClose ∨ diagnostic.code = .misplacedClose →
      token.kind = .closeBracket) :
    ∃ i j, diagnostic.AnchoredAt text i j := by
  obtain ⟨hmem, hkind⟩ := mem_of_mem_significant h
  obtain ⟨i, hi⟩ := exists_index hmem
  have htext := excerpt_span hmem
  rw [← hspan] at htext
  rw [← htext] at hunknown hunused
  refine ⟨i, i, Fin.le_refl i, ?_, ?_, fun _ => rfl, ?_, ?_, ?_, ?_,
    fun hend => absurd hend hcode⟩ <;> rw [hi]
  · rw [hspan]
    rfl
  · rw [hspan, (inOrder_tokenize text).span_stop hmem]
  · exact fun _ => ⟨hkind, hkind⟩
  · exact hunknown
  · exact hunused
  · exact hclose

/-- The tokens from one up to another that does not stand before it are covered. -/
theorem anchoredAt_unexpected {expected : Expected} {found : Token} {skipped : List Token}
    (h : (unexpected expected found skipped).DrawnFrom (tokenize text).getLast?
      (significant (tokenize text))) :
    ∃ i j, (unexpected expected found skipped).toDiagnostic.AnchoredAt text i j := by
  obtain ⟨more, hsublist, hskipped⟩ := h
  have hlast : skipped.getLastD found ∈ found :: more := by
    rcases hskipped with rfl | rfl
    · exact List.mem_cons_self
    · rw [List.getLastD_cons]
      exact List.getLastD_mem_cons
  have horder := (inOrder_tokenize text).sublist (hsublist.trans List.filter_sublist)
  have hstart := horder.start_le hlast
  obtain ⟨hfoundMem, hfoundKind⟩ := mem_of_mem_significant (hsublist.subset List.mem_cons_self)
  obtain ⟨hlastMem, hlastKind⟩ := mem_of_mem_significant (hsublist.subset hlast)
  have hpos := (lexes_tokenize text).length_pos hlastMem
  obtain ⟨i, hi⟩ := exists_index hfoundMem
  obtain ⟨j, hj⟩ := exists_index hlastMem
  refine ⟨i, j, ?_, ?_, ?_, fun hcode => absurd rfl hcode, fun _ => ?_, nofun, nofun, nofun, nofun⟩
  · apply le_of_start_le
    rw [hi, hj]
    exact hstart
  · rw [hi]
    rfl
  · rw [hj]
    change found.start + max ((skipped.getLastD found).stop - found.start) 1 = _
    rw [Token.stop]
    omega
  · rw [hi, hj]
    exact ⟨hfoundKind, hlastKind⟩

/-- The end of the tokens is reported at the last of them. -/
theorem anchoredAt_exhausted {expected : Expected} {last : Option Token}
    (h : (exhausted expected last).DrawnFrom (tokenize text).getLast?
      (significant (tokenize text))) :
    ∃ i j, (exhausted expected last).toDiagnostic.AnchoredAt text i j := by
  obtain ⟨rfl, hsignificant⟩ := h
  have hne : tokenize text ≠ [] := fun hnil => hsignificant (by rw [hnil]; rfl)
  obtain ⟨i, hi⟩ : ∃ i : Fin (tokenize text).length, i.val + 1 = (tokenize text).length := by
    have hlength := List.length_pos_iff.mpr hne
    exact ⟨⟨(tokenize text).length - 1, by omega⟩, by dsimp only; omega⟩
  have hlast : (tokenize text).getLast? = some (tokenize text)[i] := by
    have hindex : (tokenize text).length - 1 = i.val := by omega
    rw [List.getLast?_eq_getElem?, hindex]
    exact List.getElem?_eq_getElem i.isLt
  rw [hlast]
  have hstop := (inOrder_tokenize text).span_stop (List.getElem_mem i.isLt)
  exact ⟨i, i, Fin.le_refl i, rfl, hstop, fun _ => rfl, fun hcode => absurd rfl hcode,
    nofun, nofun, nofun, fun _ => hi⟩

theorem anchoredAt_of_drawnFrom {problem : Problem}
    (h : problem.DrawnFrom (tokenize text).getLast? (significant (tokenize text))) :
    ∃ i j, problem.toDiagnostic.AnchoredAt text i j := by
  cases problem with
  | unexpected expected found skipped => exact anchoredAt_unexpected h
  | exhausted expected last => exact anchoredAt_exhausted h
  | unknownName token =>
    exact anchoredAt_single h.1 rfl nofun (fun _ => ⟨h.2, rfl⟩) nofun nofun
  | unusedParameter token =>
    exact anchoredAt_single h.1 rfl nofun nofun (fun _ => ⟨h.2, rfl⟩) nofun
  | unmatchedClose token | misplacedClose token =>
    exact anchoredAt_single h.1 rfl nofun nofun nofun fun _ => h.2

end Problem

/-- Every diagnostic of a text is not empty, ends inside the text and covers it from the
start of one token to the end of another. -/
theorem check_anchored (text : String) :
    ∀ diagnostic ∈ check text, 1 ≤ diagnostic.span.length ∧
      diagnostic.span.stop ≤ text.length ∧ ∃ i j, diagnostic.AnchoredAt text i j := by
  intro diagnostic hmem
  obtain ⟨problem, hproblem, rfl⟩ := List.mem_map.mp hmem
  have hdrawn := drawnFrom_of_mem_problems hproblem
  rw [filter_tokenize] at hdrawn
  obtain ⟨i, j, h⟩ := Problem.anchoredAt_of_drawnFrom hdrawn
  refine ⟨problem.toDiagnostic.span.length_pos, ?_, i, j, h⟩
  rw [h.stop_eq]
  exact stop_le_length (List.getElem_mem j.isLt)

/-- The range of an unknown name counts characters, of which `é` is one. -/
theorem check_anchored_unknownName :
    ∃ diagnostic ∈ check "(\\é->é+y)1;", diagnostic.span.start = 7 ∧
      1 ≤ diagnostic.span.length ∧ diagnostic.span.stop ≤ "(\\é->é+y)1;".length ∧
      ∃ i j, diagnostic.AnchoredAt "(\\é->é+y)1;" i j := by
  have hmem : (⟨.unknownName, "name `y` does not exist in current context", ⟨7, 1, by decide⟩⟩ :
      Diagnostic) ∈ check "(\\é->é+y)1;" := by decide +kernel
  exact ⟨_, hmem, rfl, check_anchored "(\\é->é+y)1;" _ hmem⟩

end CurriedLambda
