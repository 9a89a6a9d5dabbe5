import CurriedLambda.Proofs.Reading

/-!
The open brackets of one expression. They are those above the base: the bracket of the
expression itself, and the groups of its body. A bracket filed below them leaves them as
they are, and a closing bracket closes the innermost of them as long as there is one.
Below them are brackets that were open before, and filed ones.
-/
namespace CurriedLambda

namespace Brackets

variable {brackets : Brackets} {bracket token : Token} {tokens : List Token}

/-- The open brackets of the current expression, innermost first. -/
def above (brackets : Brackets) : List Token :=
  brackets.opened.take (brackets.opened.length - brackets.base)

/-- The open brackets that surround the current expression. -/
def below (brackets : Brackets) : List Token :=
  brackets.opened.drop (brackets.opened.length - brackets.base)

theorem length_above (brackets : Brackets) :
    brackets.above.length = brackets.opened.length - brackets.base := by
  rw [above, List.length_take]
  omega

theorem above_eq_nil_iff : brackets.above = [] ↔ brackets.opened.length ≤ brackets.base := by
  rw [← List.length_eq_zero_iff, length_above]
  omega

theorem groupOpen_iff : brackets.groupOpen = true ↔ 1 < brackets.above.length := by
  rw [length_above, groupOpen, decide_eq_true_iff]
  omega

theorem above_append_below (brackets : Brackets) :
    brackets.above ++ brackets.below = brackets.opened :=
  List.take_append_drop _ _

/-- The innermost of all open brackets is one of the expression if it has any. -/
theorem mem_above_of_head?_opened (habove : brackets.above ≠ [])
    (hhead : brackets.opened.head? = some bracket) : bracket ∈ brackets.above := by
  obtain ⟨inner, rest, heq⟩ := List.exists_cons_of_ne_nil habove
  rw [← above_append_below, heq] at hhead
  rw [heq, Option.some.inj hhead]
  exact List.mem_cons_self

@[simp] theorem above_enter (brackets : Brackets) (bracket : Token) :
    (brackets.enter bracket).above = [bracket] := by
  simp [above, enter]

@[simp] theorem below_enter (brackets : Brackets) (bracket : Token) :
    (brackets.enter bracket).below = brackets.opened := by
  simp [below, enter]

theorem mem_above_push (h : token ∈ (brackets.push bracket).above) :
    token = bracket ∨ token ∈ brackets.above := by
  obtain ⟨opened, base⟩ := brackets
  simp only [above, push, List.length_cons] at h ⊢
  by_cases hbase : opened.length < base
  · rw [Nat.sub_eq_zero_of_le (by omega)] at h
    cases h
  · rw [Nat.sub_add_comm (by omega), List.take_succ_cons] at h
    exact List.mem_cons.mp h

/-- A new group is not one of the brackets around the expression, unless some of these
are closed. -/
theorem below_push (h : brackets.base ≤ brackets.opened.length) :
    (brackets.push bracket).below = brackets.below := by
  simp only [below, push, List.length_cons]
  rw [Nat.sub_add_comm h, List.drop_succ_cons]

theorem above_close (brackets : Brackets) (bracket : Token) :
    (brackets.close bracket).1.above = brackets.above.tail := by
  obtain ⟨opened, base⟩ := brackets
  cases opened with
  | nil => simp [close, above]
  | cons inner outer =>
    simp only [close, above, List.length_cons]
    by_cases hbase : outer.length < base
    · rw [Nat.sub_eq_zero_of_le (by omega), Nat.sub_eq_zero_of_le (by omega)]
      rfl
    · rw [Nat.sub_add_comm (by omega), List.take_succ_cons, List.tail_cons]

theorem below_close_subset (brackets : Brackets) (bracket : Token) :
    (brackets.close bracket).1.below ⊆ brackets.below := by
  obtain ⟨opened, base⟩ := brackets
  cases opened with
  | nil => exact List.Subset.refl _
  | cons inner outer =>
    simp only [close, below, List.length_cons]
    by_cases hbase : outer.length < base
    · rw [Nat.sub_eq_zero_of_le (by omega), Nat.sub_eq_zero_of_le (by omega)]
      exact List.subset_cons_self ..
    · rw [Nat.sub_add_comm (by omega), List.drop_succ_cons]
      exact List.Subset.refl _

/-- A filed bracket stands right below those of the expression. -/
theorem file_eq (brackets : Brackets) (bracket : Token) :
    brackets.file bracket =
      ⟨brackets.above ++ bracket :: brackets.below, brackets.below.length + 1⟩ := by
  have hinsert (before after : List Token) :
      (before ++ after).insertIdx before.length bracket = before ++ bracket :: after := by
    induction before with
    | nil => rfl
    | cons first rest ih => exact congrArg (first :: ·) ih
  have hplace : brackets.opened.length - min brackets.base brackets.opened.length =
      brackets.above.length := by
    rw [length_above]
    omega
  have hbelow : min brackets.base brackets.opened.length = brackets.below.length := by
    rw [below, List.length_drop]
    omega
  rw [file, hplace, hbelow, ← hinsert, above_append_below]

theorem above_file (brackets : Brackets) (bracket : Token) :
    (brackets.file bracket).above = brackets.above := by
  simp [file_eq, above]

theorem below_file (brackets : Brackets) (bracket : Token) :
    (brackets.file bracket).below = bracket :: brackets.below := by
  simp [file_eq, below]

/-- What one skipped token does to the open brackets. -/
def skipOne (brackets : Brackets) (token : Token) : Brackets :=
  if token.kind = .openBracket then brackets.file token
  else if token.kind = .closeBracket then (brackets.close token).1
  else brackets

theorem skip_cons (brackets : Brackets) (token : Token) (tokens : List Token) :
    (brackets.skip (token :: tokens)).1 = ((brackets.skipOne token).skip tokens).1 := by
  cases hkind : token.kind <;> simp [skip, skipOne, hkind]

theorem above_skipOne (brackets : Brackets) (token : Token) :
    (brackets.skipOne token).above =
      if token.kind = .closeBracket then brackets.above.tail else brackets.above := by
  by_cases hopen : token.kind = .openBracket
  · simp [skipOne, hopen, above_file]
  · simp only [skipOne, if_neg hopen]
    split_ifs
    · exact above_close brackets token
    · rfl

/-- Skipping closes brackets of the expression from the innermost on, and opens none. -/
theorem above_skip_suffix (brackets : Brackets) (tokens : List Token) :
    (brackets.skip tokens).1.above <:+ brackets.above := by
  induction tokens generalizing brackets with
  | nil => exact List.suffix_rfl
  | cons token rest ih =>
    rw [skip_cons]
    refine (ih _).trans ?_
    rw [above_skipOne]
    split_ifs
    · exact List.tail_suffix _
    · exact List.suffix_rfl

theorem mem_below_skip (h : bracket ∈ (brackets.skip tokens).1.below) :
    bracket ∈ brackets.below ∨ bracket ∈ tokens := by
  induction tokens generalizing brackets with
  | nil => exact .inl h
  | cons token rest ih =>
    rw [skip_cons] at h
    rcases ih h with hone | hrest
    · rw [skipOne] at hone
      split_ifs at hone with hopen hclose
      · rw [below_file] at hone
        rcases List.mem_cons.mp hone with rfl | hbelow
        · exact .inr List.mem_cons_self
        · exact .inl hbelow
      · exact .inl (below_close_subset brackets token hone)
      · exact .inl hone
    · exact .inr (List.mem_cons_of_mem _ hrest)

theorem mem_opened_skip (h : bracket ∈ (brackets.skip tokens).1.opened) :
    bracket ∈ brackets.opened ∨ bracket ∈ tokens := by
  rw [← above_append_below] at h ⊢
  rcases List.mem_append.mp h with habove | hbelow
  · exact .inl (List.mem_append_left _ ((above_skip_suffix brackets tokens).subset habove))
  · exact (mem_below_skip hbelow).imp_left (List.mem_append_right _)

theorem above_skip_of_no_close (brackets : Brackets)
    (h : ∀ token ∈ tokens, token.kind ≠ .closeBracket) :
    (brackets.skip tokens).1.above = brackets.above := by
  induction tokens generalizing brackets with
  | nil => rfl
  | cons token rest ih =>
    rw [skip_cons, ih _ fun other hother => h other (List.mem_cons_of_mem _ hother),
      above_skipOne, if_neg (h token List.mem_cons_self)]

end Brackets

end CurriedLambda
