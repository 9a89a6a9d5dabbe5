import CurriedLambda.Proofs.Lexing
import CurriedLambda.Proofs.OpenBrackets

/-!
Opening brackets that a recovery skips. They are filed below the brackets of the
expression, so that a closing bracket inside the expression reaches them only when all of
its own are closed. That does happen: a skipped closing bracket can close the bracket of
the expression before its body ends, and what closes the body then closes a skipped one.
-/
namespace CurriedLambda

namespace Brackets

variable {brackets : Brackets} {bracket : Token} {tokens : List Token}

theorem head?_of_not_mem_close {token : Token} (h : bracket ∈ brackets.opened)
    (hnot : bracket ∉ (brackets.close token).1.opened) :
    brackets.opened.head? = some bracket := by
  obtain ⟨opened, base⟩ := brackets
  cases opened with
  | nil => cases h
  | cons inner outer =>
    rcases List.mem_cons.mp h with rfl | houter
    · rfl
    · exact absurd houter hnot

theorem head?_of_not_mem_skipOne {token : Token} (h : bracket ∈ brackets.opened)
    (hnot : bracket ∉ (brackets.skipOne token).opened) :
    token.kind = .closeBracket ∧ brackets.opened.head? = some bracket := by
  rw [skipOne] at hnot
  split_ifs at hnot with hopen hclose
  · rw [file_eq] at hnot
    rw [← above_append_below] at h
    rcases List.mem_append.mp h with habove | hbelow
    · exact absurd (List.mem_append_left _ habove) hnot
    · exact absurd (List.mem_append_right _ (List.mem_cons_of_mem _ hbelow)) hnot
  · exact ⟨hclose, head?_of_not_mem_close h hnot⟩
  · exact absurd h hnot

theorem mem_opened_skipOne (hkind : bracket.kind = .openBracket) :
    bracket ∈ (brackets.skipOne bracket).opened := by
  rw [skipOne, if_pos hkind, file_eq]
  exact List.mem_append_right _ List.mem_cons_self

/-- A bracket that is open, or an opening one that is skipped, stays open unless one of
the skipped tokens closes it. -/
theorem exists_closing_of_not_mem_skip
    (h : bracket ∈ brackets.opened ∨ bracket ∈ tokens ∧ bracket.kind = .openBracket)
    (hnot : bracket ∉ (brackets.skip tokens).1.opened) :
    ∃ early closing late, tokens = early ++ closing :: late ∧ closing.kind = .closeBracket ∧
      (brackets.skip early).1.opened.head? = some bracket := by
  induction tokens generalizing brackets with
  | nil => simp_all [skip]
  | cons token rest ih =>
    rw [skip_cons] at hnot
    by_cases hlater : bracket ∈ (brackets.skipOne token).opened ∨
        bracket ∈ rest ∧ bracket.kind = .openBracket
    · obtain ⟨early, closing, late, rfl, hkind, hhead⟩ := ih hlater hnot
      exact ⟨token :: early, closing, late, rfl, hkind, by rwa [skip_cons]⟩
    · obtain ⟨hclosed, hrest⟩ := not_or.mp hlater
      have hopened : bracket ∈ brackets.opened := by
        refine h.resolve_right ?_
        rintro ⟨hmem, hkind⟩
        rcases List.mem_cons.mp hmem with rfl | hmem
        · exact hclosed (mem_opened_skipOne hkind)
        · exact hrest ⟨hmem, hkind⟩
      obtain ⟨hkind, hhead⟩ := head?_of_not_mem_skipOne hopened hclosed
      exact ⟨[], token, rest, rfl, hkind, hhead⟩

end Brackets

namespace Checker

/-- A recovery skips the token when it reads it. -/
def Skipped (tokens : List Token) (token : Token) : Prop :=
  ∃ before later, tokens = before ++ token :: later ∧
    token ∈ (after (before ++ [token])).skipped

/-- The stack at which a closing bracket is handled once the tokens `before` are read. It
is one of those that are skipped, or the next token, which closes what is innermost. -/
inductive Closes (tokens before : List Token) : Brackets → Prop
  | skipped {later early late : List Token} {closing : Token}
      (htokens : tokens = before ++ later)
      (hskipped : (after before).skipped = early ++ closing :: late)
      (hkind : closing.kind = .closeBracket) :
      Closes tokens before ((after before).brackets.skip early).1
  | read {later : List Token} {closing : Token} (htokens : tokens = before ++ closing :: later)
      (hphase : (after before).phase = .item ∨ ∃ first, (after before).phase = .operator first)
      (hkind : closing.kind = .closeBracket)
      (hread : (after (before ++ [closing])).skipped = []) :
      Closes tokens before ((after before).brackets.skip (after before).skipped).1

/-- The bracket is open, or it is skipped and will be filed. -/
def Holds (checker : Checker) (bracket : Token) : Prop :=
  bracket ∈ checker.brackets.opened ∨
    bracket ∈ checker.skipped ∧ bracket.kind = .openBracket

section Step

variable {checker : Checker} {token bracket : Token}

/-- The brackets of an expression are those it had before, and a new one that is read. -/
theorem mem_above_feed (hphase : (checker.feed token).1.phase ≠ .item)
    (h : bracket ∈ (checker.feed token).1.brackets.above) :
    checker.phase ≠ .item ∧ bracket ∈ checker.brackets.above ∨
      bracket = token ∧ (checker.feed token).1.skipped = [] := by
  have hstep := step_feed checker token
  generalize checker.feed token = result at hstep hphase h
  cases hstep with
  | layout => exact .inl ⟨hphase, h⟩
  | skips => exact .inl ⟨hphase, h⟩
  | absorbs hskipped habsorb =>
    cases absorbs_of_absorb habsorb with
    | separator | misplaced => exact .inl ⟨hphase, h⟩
    | outerClose | endGroup =>
      rw [Brackets.above_close] at h
      exact .inl ⟨hphase, List.mem_of_mem_tail h⟩
    | group hgroup =>
      rcases Brackets.mem_above_push h with heq | hold
      · exact .inr ⟨heq, hskipped⟩
      · exact .inl ⟨by rcases hgroup with hgroup | hgroup <;> simp [hgroup], hold⟩
    | sign hsign => exact .inl ⟨by simp [hsign], h⟩
  | takes =>
    have hresumed (h : bracket ∈ checker.resumed.brackets.above) :
        bracket ∈ checker.brackets.above :=
      (Brackets.above_skip_suffix _ _).subset h
    have htakes := takes_take checker.resumed token
    generalize checker.resumed.take token = taken at htakes hphase h
    cases htakes with
    | opening =>
      rw [Brackets.above_enter] at h
      exact .inr ⟨List.mem_singleton.mp h, rfl⟩
    | parameter hparameter => exact .inl ⟨hphase, hresumed h⟩
    | leadsOn hplace => exact .inl ⟨hplace, hresumed h⟩
    | name hplace =>
      exact .inl ⟨fun hitem => by simp [resumed, hitem] at hplace, hresumed h⟩
    | endBody hplace =>
      rw [Brackets.above_close] at h
      exact .inl ⟨fun hitem => by simp [resumed, hitem] at hplace,
        hresumed (List.mem_of_mem_tail h)⟩
    | terminator => exact absurd rfl hphase

/-- A bracket is dropped only as the innermost one at a closing bracket. -/
theorem closing_of_not_holds_feed (hholds : checker.Holds bracket)
    (hnot : ¬ (checker.feed token).1.Holds bracket) :
    (∃ early closing late, checker.skipped = early ++ closing :: late ∧
      closing.kind = .closeBracket ∧
        (checker.brackets.skip early).1.opened.head? = some bracket) ∨
    (checker.phase = .item ∨ ∃ first, checker.phase = .operator first) ∧
      token.kind = .closeBracket ∧ (checker.feed token).1.skipped = [] ∧
        (checker.brackets.skip checker.skipped).1.opened.head? = some bracket := by
  have hstep := step_feed checker token
  generalize checker.feed token = result at hstep hnot
  cases hstep with
  | layout => exact absurd hholds hnot
  | skips =>
    refine absurd (hholds.imp_right fun hskipped => ?_) hnot
    exact ⟨List.mem_append_left _ hskipped.1, hskipped.2⟩
  | absorbs hskipped habsorb =>
    have hopened : bracket ∈ checker.brackets.opened :=
      hholds.resolve_right fun h => by simp [hskipped] at h
    have hhead (hclosed : bracket ∉ (checker.brackets.close token).1.opened) :
        (checker.brackets.skip checker.skipped).1.opened.head? = some bracket := by
      rw [hskipped]
      exact Brackets.head?_of_not_mem_close hopened hclosed
    cases absorbs_of_absorb habsorb with
    | separator | misplaced | sign => exact absurd hholds hnot
    | group => exact absurd (.inl (List.mem_cons_of_mem _ hopened)) hnot
    | outerClose hitem hkind =>
      exact .inr ⟨.inl hitem, hkind, hskipped, hhead fun h => hnot (.inl h)⟩
    | endGroup hoperator hkind =>
      exact .inr ⟨.inr ⟨_, hoperator⟩, hkind, hskipped, hhead fun h => hnot (.inl h)⟩
  | takes =>
    have htakes := takes_take checker.resumed token
    generalize checker.resumed.take token = taken at htakes hnot
    by_cases hopened : bracket ∈ checker.resumed.brackets.opened
    · cases htakes with
      | opening => exact absurd (.inl (List.mem_cons_of_mem _ hopened)) hnot
      | parameter | name | leadsOn | terminator => exact absurd (.inl hopened) hnot
      | endBody hoperator hkind =>
        exact .inr ⟨.inr ⟨_, hoperator⟩, hkind, rfl,
          Brackets.head?_of_not_mem_close hopened fun h => hnot (.inl h)⟩
    · exact .inl (Brackets.exists_closing_of_not_mem_skip hholds hopened)

end Step

/-- The brackets of the expression under way are none that a recovery skips. -/
theorem read_of_mem_above {before : List Token} (hphase : (after before).phase ≠ .item)
    {bracket : Token} (h : bracket ∈ (after before).brackets.above) :
    ∃ early late, before = early ++ bracket :: late ∧
      (after (early ++ [bracket])).skipped = [] := by
  induction before using List.reverseRecOn with
  | nil => exact absurd rfl hphase
  | append_singleton before token ih =>
    rw [after_concat] at hphase h
    rcases mem_above_feed hphase h with ⟨hbefore, hold⟩ | ⟨rfl, hread⟩
    · obtain ⟨early, late, rfl, hread⟩ := ih hbefore hold
      exact ⟨early, late ++ [token], by simp, hread⟩
    · exact ⟨before, [], rfl, by rwa [after_concat]⟩

/-- A token that occurs once is either skipped or not. -/
theorem Skipped.ne_nil {tokens before later : List Token} {token : Token}
    (h : Skipped tokens token) (hnodup : tokens.Nodup)
    (htokens : tokens = before ++ token :: later) : (after (before ++ [token])).skipped ≠ [] := by
  obtain ⟨early, late, rfl, hmem⟩ := h
  have hfresh := List.nodup_middle.mp hnodup
  rw [List.nodup_cons, List.mem_append, not_or] at hfresh
  obtain ⟨rfl, -, -⟩ := (List.append_cons_inj_of_notMem hfresh.1.1 hfresh.1.2).mp htokens
  exact List.ne_nil_of_mem hmem

theorem Skipped.not_mem_above {tokens before later : List Token} {bracket : Token}
    (h : Skipped tokens bracket) (hnodup : tokens.Nodup) (htokens : tokens = before ++ later)
    (hphase : (after before).phase ≠ .item) : bracket ∉ (after before).brackets.above := by
  intro hmem
  obtain ⟨early, late, rfl, hread⟩ := read_of_mem_above hphase hmem
  rw [List.append_assoc, List.cons_append] at htokens
  exact h.ne_nil hnodup htokens hread

theorem Closes.exists_later {tokens before : List Token} {stack : Brackets}
    (h : Closes tokens before stack) : ∃ later, tokens = before ++ later := by
  cases h with
  | skipped htokens | read htokens => exact ⟨_, htokens⟩

theorem Closes.above_suffix {tokens before : List Token} {stack : Brackets}
    (h : Closes tokens before stack) : stack.above <:+ (after before).brackets.above := by
  cases h <;> exact Brackets.above_skip_suffix _ _

/-- Inside an expression a closing bracket closes a skipped one only if none of the
expression's own is open. Otherwise only those between expressions do: no bracket is
dropped but by a closing one. -/
theorem closes_skipped (text : String) :
    (∀ before stack bracket, Closes (tokenize text) before stack →
      (after before).phase ≠ .item → Skipped (tokenize text) bracket →
        stack.opened.head? = some bracket → stack.opened.length ≤ stack.base) ∧
    (∀ before token later bracket, tokenize text = before ++ token :: later →
      (after before).Holds bracket → ¬ (after (before ++ [token])).Holds bracket →
        ∃ stack, Closes (tokenize text) before stack ∧ stack.opened.head? = some bracket) := by
  have hnodup := nodup_tokenize text
  refine ⟨fun before stack bracket hcloses hphase hskipped hhead => ?_,
    fun before token later bracket htokens hholds hnot => ?_⟩
  · obtain ⟨later, htokens⟩ := hcloses.exists_later
    rw [← Brackets.above_eq_nil_iff]
    by_contra habove
    have hmem := Brackets.mem_above_of_head?_opened habove hhead
    exact hskipped.not_mem_above hnodup htokens hphase (hcloses.above_suffix.subset hmem)
  · rw [after_concat] at hnot
    rcases closing_of_not_holds_feed hholds hnot with
      ⟨early, closing, late, hearly, hkind, hhead⟩ | ⟨hphase, hkind, hread, hhead⟩
    · exact ⟨_, .skipped htokens hearly hkind, hhead⟩
    · exact ⟨_, .read htokens hphase hkind (by rwa [after_concat]), hhead⟩

/-- The skipped closing bracket closes the bracket of the expression, and the end of the
body then closes the opening one that is skipped with it. -/
theorem closes_skipped_at_body_end :
    ∃ before stack bracket, Closes (tokenize "(()\\x->x+x)1;)") before stack ∧
      (after before).phase ≠ .item ∧ Skipped (tokenize "(()\\x->x+x)1;)") bracket ∧
        bracket.kind = .openBracket ∧ stack.opened.head? = some bracket := by
  have hbody : tokenize "(()\\x->x+x)1;)" = (tokenize "(()\\x->x+x)1;)").take 10 ++
      ⟨.closeBracket, ")", 10⟩ :: (tokenize "(()\\x->x+x)1;)").drop 11 := by
    decide +kernel
  have hskipped : tokenize "(()\\x->x+x)1;)" = (tokenize "(()\\x->x+x)1;)").take 1 ++
      ⟨.openBracket, "(", 1⟩ :: (tokenize "(()\\x->x+x)1;)").drop 2 := by
    decide +kernel
  exact ⟨_, _, ⟨.openBracket, "(", 1⟩,
    .read hbody (.inr ⟨false, by decide +kernel⟩) rfl (by decide +kernel), by decide +kernel,
    ⟨_, _, hskipped, by decide +kernel⟩, rfl, by decide +kernel⟩

end Checker

end CurriedLambda
