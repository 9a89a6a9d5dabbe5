import CurriedLambda.Proofs.OpenBrackets

/-!
Where the body of an expression ends. A closing bracket after an operand closes the
innermost group, and ends the body if no group is open. But a recovery that resumes at a
closing bracket takes it for the end of the body, whatever is open: the group is closed
just as without the skipped tokens, and yet the body does not go on. Groups around it
are left on the stack.
-/
namespace CurriedLambda

namespace Checker

variable {checker : Checker} {token : Token}

/-- The token ends a body: an operand is read before it, and arguments come after it. -/
def ClosesBody (checker : Checker) (token : Token) : Prop :=
  ∃ first count,
    checker.phase = .operator first ∧ (checker.feed token).1.phase = .arguments count

/-- A recovery resumes at the closing bracket of a group. -/
def ResumesInGroup (checker : Checker) (token : Token) : Prop :=
  checker.phase = .operator false ∧ token.kind = .closeBracket ∧ checker.skipped ≠ [] ∧
    checker.brackets.groupOpen = true

theorem feed_resume (hphase : checker.phase = .operator false)
    (hkind : token.kind = .closeBracket) (hskipped : checker.skipped ≠ []) :
    (checker.feed token).1 =
      { checker with
        phase := .arguments checker.parameters.length
        brackets := ((checker.brackets.skip checker.skipped).1.close token).1
        skipped := [] } := by
  have haccepts : checker.expected.accepts token.kind = true := by
    rw [expected, hphase, hkind]
    rfl
  rw [feed_eq_meet (isLayout_of_accepts haccepts) fun hnil => absurd hnil hskipped, meet,
    if_pos haccepts]
  simp [take, hphase, hkind]

/-- Skipped tokens change nothing but what is skipped. -/
theorem exists_kept (tokens : List Token) :
    ∃ kept lost, tokens = kept ++ lost ∧ significant lost = (after tokens).skipped ∧
      after kept = { after tokens with skipped := [] } := by
  induction tokens using List.reverseRecOn with
  | nil => exact ⟨[], [], rfl, rfl, rfl⟩
  | append_singleton tokens token ih =>
    obtain ⟨kept, lost, rfl, hlost, hkept⟩ := ih
    -- A token that is not skipped leaves nothing skipped, so that all is kept again.
    have hread (h : (after (kept ++ lost ++ [token])).skipped = []) : ∃ first second,
        kept ++ lost ++ [token] = first ++ second ∧
          significant second = (after (kept ++ lost ++ [token])).skipped ∧
          after first = { after (kept ++ lost ++ [token]) with skipped := [] } :=
      ⟨kept ++ lost ++ [token], [], (List.append_nil _).symm, h.symm, eq_of_skipped_eq_nil h⟩
    have hstep := step_feed (after (kept ++ lost)) token
    rw [after_concat] at hread ⊢
    generalize (after (kept ++ lost)).feed token = result at hstep hread
    cases hstep with
    | layout hlayout | skips hlayout =>
      refine ⟨kept, lost ++ [token], List.append_assoc .., ?_, hkept⟩
      rw [significant_append, hlost]
      simp [significant, hlayout]
    | absorbs hskipped habsorb =>
      exact hread ((absorbs_of_absorb habsorb).skipped_eq.trans hskipped)
    | takes => exact hread ((takes_take _ token).skipped_eq_nil rfl)

/-- After an operand a closing bracket closes the innermost open bracket of the
expression, also if it ends a recovery. -/
theorem above_feed_close (hphase : checker.phase = .operator false)
    (hkind : token.kind = .closeBracket)
    (hskipped : ∀ skipped ∈ checker.skipped, skipped.kind ≠ .closeBracket) :
    (checker.feed token).1.brackets.above = checker.brackets.above.tail := by
  by_cases hnil : checker.skipped = []
  · cases hopen : checker.brackets.groupOpen with
    | true =>
      rw [feed_endGroup hnil hphase hopen hkind]
      exact Brackets.above_close ..
    | false =>
      rw [feed_endBody hnil hphase hopen hkind]
      exact Brackets.above_close ..
  · rw [feed_resume hphase hkind hnil, Brackets.above_close,
      Brackets.above_skip_of_no_close _ hskipped]

/-- After an operand a closing bracket ends the body, unless it is read where a group is
open and nothing is skipped. -/
theorem phase_feed_close (hphase : checker.phase = .operator false)
    (hkind : token.kind = .closeBracket) :
    (checker.feed token).1.phase =
      if checker.skipped = [] ∧ checker.brackets.groupOpen = true then .operator false
      else .arguments checker.parameters.length := by
  by_cases hnil : checker.skipped = []
  · cases hopen : checker.brackets.groupOpen with
    | true =>
      rw [feed_endGroup hnil hphase hopen hkind, if_pos ⟨hnil, rfl⟩]
      exact hphase
    | false =>
      rw [feed_endBody hnil hphase hopen hkind, if_neg (by simp)]
  · rw [feed_resume hphase hkind hnil, if_neg fun h => hnil h.1]

/-- Only a closing bracket where the body could also go on ends it. -/
theorem ClosesBody.phase_kind (h : checker.ClosesBody token) :
    checker.phase = .operator false ∧ token.kind = .closeBracket := by
  obtain ⟨first, count, hphase, hnext⟩ := h
  have hstay : (checker.feed token).1.phase ≠ .operator first := by
    rw [hnext]
    exact Phase.arguments_ne_operator count first
  have hstep := step_feed checker token
  generalize checker.feed token = result at hstep hnext hstay
  cases hstep with
  | layout => exact absurd hphase hstay
  | skips => exact absurd hphase hstay
  | absorbs hskipped habsorb =>
    cases absorbs_of_absorb habsorb <;> simp_all
  | takes habsorb haccepts =>
    have hkinds : token.kind ∈ (Phase.operator first).expected.kinds := by
      rw [← hphase]
      exact of_decide_eq_true haccepts
    by_cases hkind : token.kind = .closeBracket
    · cases first with
      | false => exact ⟨hphase, hkind⟩
      | true => simp [hkind, Phase.expected, Expected.kinds] at hkinds
    · simp only [take, resumed, hphase, hkind, if_false] at hnext
      cases count <;> simp [Phase.arguments] at hnext

theorem no_close_of_phase {before : List Token} (hphase : (after before).phase = .operator false) :
    ∀ skipped ∈ (after before).skipped, skipped.kind ≠ .closeBracket := by
  intro skipped hmem hkind
  have hrefuses := refuses_of_mem_skipped before skipped hmem
  rw [expected, hphase, hkind] at hrefuses
  cases hrefuses

/-- What a body leaves open when it ends shows whether a recovery resumes in a group. -/
theorem ClosesBody.length_le_iff {before : List Token} (h : (after before).ClosesBody token) :
    ((after before).feed token).1.brackets.opened.length ≤
        ((after before).feed token).1.brackets.base ↔
      ¬ (after before).ResumesInGroup token := by
  obtain ⟨hphase, hkind⟩ := h.phase_kind
  have hskipped : (after before).brackets.groupOpen = true → (after before).skipped ≠ [] := by
    intro hopen hnil
    obtain ⟨first, count, -, hnext⟩ := h
    rw [phase_feed_close hphase hkind, if_pos ⟨hnil, hopen⟩] at hnext
    exact Phase.arguments_ne_operator count false hnext.symm
  rw [← Brackets.above_eq_nil_iff, above_feed_close hphase hkind (no_close_of_phase hphase)]
  calc (after before).brackets.above.tail = []
    _ ↔ ¬ 1 < (after before).brackets.above.length := by
      rw [← List.length_eq_zero_iff, List.length_tail]
      omega
    _ ↔ ¬ (after before).brackets.groupOpen = true := by rw [Brackets.groupOpen_iff]
    _ ↔ ¬ (after before).ResumesInGroup token :=
      not_congr ⟨fun hopen => ⟨hphase, hkind, hskipped hopen, hopen⟩, fun h => h.2.2.2⟩

/-- The tokens `inner` stand in one expression that begins after `early`, and skipped ones
among them close no bracket around it. -/
structure InExpression (early inner : List Token) : Prop where
  phase_early : (after early).phase = .item
  phase_ne_item : ∀ part, part ≠ [] → part <+: inner → (after (early ++ part)).phase ≠ .item
  base_le : ∀ part, part ≠ [] → part <+: inner →
    (after (early ++ part)).brackets.base ≤ (after (early ++ part)).brackets.opened.length

/-- The bracket is open before the expression begins, or it is skipped in it. -/
def Surrounds (early inner : List Token) (bracket : Token) : Prop :=
  bracket ∈ (after early).brackets.opened ∨
    ∃ part, part <+: inner ∧ bracket ∈ (after (early ++ part)).skipped

theorem InExpression.mono {early inner part : List Token} (h : InExpression early inner)
    (hpart : part <+: inner) : InExpression early part :=
  ⟨h.phase_early, fun first hne hfirst => h.phase_ne_item first hne (hfirst.trans hpart),
    fun first hne hfirst => h.base_le first hne (hfirst.trans hpart)⟩

theorem Surrounds.mono {early inner part : List Token} {bracket : Token}
    (h : Surrounds early part bracket) (hpart : part <+: inner) :
    Surrounds early inner bracket :=
  h.imp_right fun ⟨first, hfirst, hskipped⟩ => ⟨first, hfirst.trans hpart, hskipped⟩

theorem mem_below_feed_of_item {bracket : Token} (hphase : checker.phase = .item)
    (h : bracket ∈ (checker.feed token).1.brackets.below) :
    bracket ∈ checker.brackets.opened ∨ bracket ∈ checker.skipped := by
  have hbelow : ∀ other ∈ checker.brackets.below, other ∈ checker.brackets.opened :=
    fun _ => List.mem_of_mem_drop
  have hstep := step_feed checker token
  generalize checker.feed token = result at hstep h
  cases hstep with
  | layout => exact .inl (hbelow bracket h)
  | skips => exact .inl (hbelow bracket h)
  | absorbs hskipped habsorb =>
    cases absorbs_of_absorb habsorb with
    | separator => exact .inl (hbelow bracket h)
    | outerClose => exact .inl (hbelow bracket (Brackets.below_close_subset _ _ h))
    | _ => simp_all
  | takes =>
    have htakes := takes_take checker.resumed token
    generalize checker.resumed.take token = taken at htakes h
    cases htakes with
    | opening =>
      rw [Brackets.below_enter] at h
      exact Brackets.mem_opened_skip h
    | _ => simp_all [resumed]

/-- What surrounds an expression was there before, or is filed by a recovery. -/
theorem mem_below_feed {bracket : Token} (hphase : checker.phase ≠ .item)
    (hbase : checker.brackets.base ≤ checker.brackets.opened.length)
    (h : bracket ∈ (checker.feed token).1.brackets.below) :
    bracket ∈ checker.brackets.below ∨ bracket ∈ checker.skipped := by
  have hstep := step_feed checker token
  generalize checker.feed token = result at hstep h
  cases hstep with
  | layout => exact .inl h
  | skips => exact .inl h
  | absorbs hskipped habsorb =>
    left
    cases absorbs_of_absorb habsorb with
    | separator | misplaced | sign => exact h
    | outerClose | endGroup => exact Brackets.below_close_subset _ _ h
    | group =>
      rw [Brackets.below_push hbase] at h
      exact h
  | takes =>
    have htakes := takes_take checker.resumed token
    generalize checker.resumed.take token = taken at htakes h
    cases htakes with
    | opening hitem => exact absurd hitem hphase
    | parameter | name | leadsOn => exact Brackets.mem_below_skip h
    | endBody => exact Brackets.mem_below_skip (Brackets.below_close_subset _ _ h)
    | terminator => simp [between, Brackets.leave, Brackets.below] at h

theorem surrounds_of_mem_below {early inner : List Token} {bracket : Token}
    (hinner : InExpression early inner) (hne : inner ≠ [])
    (h : bracket ∈ (after (early ++ inner)).brackets.below) : Surrounds early inner bracket := by
  induction inner using List.reverseRecOn with
  | nil => exact absurd rfl hne
  | append_singleton part token ih =>
    have hpart : part <+: part ++ [token] := List.prefix_append _ _
    rw [← List.append_assoc, after_concat] at h
    by_cases hnil : part = []
    · subst hnil
      rw [List.append_nil] at h
      refine (mem_below_feed_of_item hinner.phase_early h).imp_right fun hskipped => ?_
      exact ⟨[], List.nil_prefix, by rwa [List.append_nil]⟩
    · rcases mem_below_feed (hinner.phase_ne_item part hnil hpart)
        (hinner.base_le part hnil hpart) h with hbelow | hskipped
      · exact (ih (hinner.mono hpart) hnil hbelow).mono hpart
      · exact .inr ⟨part, hpart, hskipped⟩

/-- What is open after a body was open before its expression or is skipped in it. -/
theorem ClosesBody.surrounds {early inner : List Token} {bracket : Token}
    (h : (after (early ++ inner)).ClosesBody token) (hinner : InExpression early inner)
    (hresumes : ¬ (after (early ++ inner)).ResumesInGroup token)
    (hmem : bracket ∈ ((after (early ++ inner)).feed token).1.brackets.opened) :
    Surrounds early inner bracket := by
  have hne : inner ≠ [] := by
    rintro rfl
    have hphase := h.phase_kind.1
    rw [List.append_nil, hinner.phase_early] at hphase
    cases hphase
  have hnil := Brackets.above_eq_nil_iff.mpr (h.length_le_iff.mpr hresumes)
  rw [← Brackets.above_append_below, hnil, List.nil_append] at hmem
  rcases mem_below_feed (hinner.phase_ne_item inner hne List.prefix_rfl)
    (hinner.base_le inner hne List.prefix_rfl) hmem with hbelow | hskipped
  · exact surrounds_of_mem_below hinner hne hbelow
  · exact .inr ⟨inner, List.prefix_rfl, hskipped⟩

/-- A closing bracket at which a recovery resumes closes what it would close without the
skipped tokens. It leads on as it would then only if no group is open. -/
theorem exists_kept_close {before : List Token} (hphase : (after before).phase = .operator false)
    (hkind : token.kind = .closeBracket) :
    ∃ kept lost, before = kept ++ lost ∧ significant lost = (after before).skipped ∧
      ((after before).feed token).1.brackets.above =
          ((after kept).feed token).1.brackets.above ∧
      (((after before).feed token).1.phase = ((after kept).feed token).1.phase ↔
        ¬ (after before).ResumesInGroup token) := by
  obtain ⟨kept, lost, hbefore, hlost, hkept⟩ := exists_kept before
  have hkeptPhase : (after kept).phase = .operator false := by
    rw [hkept]
    exact hphase
  have hkeptSkipped : (after kept).skipped = [] := by rw [hkept]
  have hkeptBrackets : (after kept).brackets = (after before).brackets := by rw [hkept]
  have hkeptParameters : (after kept).parameters = (after before).parameters := by rw [hkept]
  refine ⟨kept, lost, hbefore, hlost, ?_, ?_⟩
  · rw [above_feed_close hphase hkind (no_close_of_phase hphase),
      above_feed_close hkeptPhase hkind (no_close_of_phase hkeptPhase), hkeptBrackets]
  · rw [phase_feed_close hphase hkind, phase_feed_close hkeptPhase hkind, hkeptBrackets,
      hkeptParameters]
    by_cases hopen : (after before).brackets.groupOpen = true
    · by_cases hskipped : (after before).skipped = []
      · simp [ResumesInGroup, hskipped, hkeptSkipped, hopen]
      · simp [ResumesInGroup, hphase, hkind, hskipped, hkeptSkipped, hopen,
          Phase.arguments_ne_operator]
    · simp [ResumesInGroup, hopen]

/-- A body ends with no more open than `base` brackets, except where a recovery resumes at
the closing bracket of a group. These brackets surround the expression, unless skipped
tokens close some of them. A recovery that resumes in a group closes it as it would be
closed without the skipped tokens, but the body does not go on as it would. -/
theorem body_ends (before : List Token) (token : Token) :
    ((after before).ClosesBody token →
      ((after (before ++ [token])).brackets.opened.length ≤
          (after (before ++ [token])).brackets.base ↔
        ¬ (after before).ResumesInGroup token)) ∧
    (∀ early inner, before = early ++ inner → InExpression early inner →
      (after before).ClosesBody token → ¬ (after before).ResumesInGroup token →
        ∀ bracket ∈ (after (before ++ [token])).brackets.opened, Surrounds early inner bracket) ∧
    ((after before).phase = .operator false → token.kind = .closeBracket →
      ∃ kept lost, before = kept ++ lost ∧ significant lost = (after before).skipped ∧
        (after (before ++ [token])).brackets.above = (after (kept ++ [token])).brackets.above ∧
        ((after (before ++ [token])).phase = (after (kept ++ [token])).phase ↔
          ¬ (after before).ResumesInGroup token)) := by
  simp only [after_concat]
  refine ⟨fun hcloses => hcloses.length_le_iff, ?_, exists_kept_close⟩
  rintro early inner rfl hinner hcloses hresumes bracket hmem
  exact hcloses.surrounds hinner hresumes hmem

/-- The closing bracket of the group ends the body, because the recovery over the number
before it resumes there, and the bracket of the expression is left on the stack. -/
theorem body_ends_in_group :
    ∃ before token later, tokenize "(\\x -> (x + x 1) + x) 1;" = before ++ token :: later ∧
      (after before).ClosesBody token ∧ (after before).ResumesInGroup token ∧
      (after (before ++ [token])).brackets.base <
        (after (before ++ [token])).brackets.opened.length := by
  refine ⟨(tokenize "(\\x -> (x + x 1) + x) 1;").take 10, ⟨.closeBracket, ")", 15⟩,
    (tokenize "(\\x -> (x + x 1) + x) 1;").drop 11, by decide +kernel,
    ⟨false, 1, by decide +kernel, by decide +kernel⟩,
    ⟨by decide +kernel, rfl, by decide +kernel, by decide +kernel⟩, by decide +kernel⟩

end Checker

end CurriedLambda
