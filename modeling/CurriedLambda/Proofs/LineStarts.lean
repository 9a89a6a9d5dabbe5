import Mathlib.Algebra.Ring.Nat
import Mathlib.Data.Prod.Lex
import Mathlib.Data.Set.Function
import Mathlib.Order.Interval.Set.Defs
import CurriedLambda.TextRange

/-!
Lines and columns of offsets. The walk that counts them passes the lines of the text one
after the other, each with its line feed, so that the line says how many lines lie before
an offset and the column how far into its line it is. Both together give the offset back.
-/
namespace CurriedLambda

/-- The offset at which the line with this index starts: all lines before it, each with
its line feed. -/
def lineStart (lines : List (List Char)) (index : Nat) : Nat :=
  ((lines.take index).map (·.length + 1)).sum

@[simp] theorem lineStart_zero (lines : List (List Char)) : lineStart lines 0 = 0 := rfl

@[simp] theorem lineStart_cons_succ (line : List Char) (lines : List (List Char)) (index : Nat) :
    lineStart (line :: lines) (index + 1) = line.length + 1 + lineStart lines index := by
  simp [lineStart]

/-- The offset is in the line with this index, or at its end, behind so many of its
characters. -/
structure LiesAt (chars : List Char) (offset line column : Nat) : Prop where
  count_eq : (chars.take offset).count '\n' = line
  exists_content : ∃ content, (chars.splitOn '\n')[line]? = some content ∧ column ≤ content.length
  offset_eq : offset = lineStart (chars.splitOn '\n') line + column

namespace LiesAt

variable {c : Char} {chars : List Char} {offset line column : Nat}

theorem zero (chars : List Char) : LiesAt chars 0 0 0 := by
  obtain ⟨first, rest, hlines⟩ := List.exists_cons_of_ne_nil (List.splitOn_ne_nil '\n' chars)
  exact ⟨rfl, ⟨first, by rw [hlines]; rfl, Nat.zero_le _⟩, rfl⟩

/-- A line feed in front puts an empty line in front. -/
theorem lineFeed (h : LiesAt chars offset line column) :
    LiesAt ('\n' :: chars) (offset + 1) (line + 1) column := by
  have hlines : ('\n' :: chars).splitOn '\n' = [] :: chars.splitOn '\n' := by
    simp [List.splitOn_cons_eq_if_modifyHead]
  obtain ⟨content, hcontent, hle⟩ := h.exists_content
  refine ⟨?_, ⟨content, ?_, hle⟩, ?_⟩
  · rw [List.take_succ_cons, List.count_cons_self, h.count_eq]
  · rw [hlines, List.getElem?_cons_succ, hcontent]
  · have hoffset := h.offset_eq
    rw [hlines, lineStart_cons_succ, List.length_nil]
    omega

/-- Any other character in front makes the first line longer, so that columns move in the
first line only. -/
theorem cons (hc : c ≠ '\n') (h : LiesAt chars offset line column) :
    LiesAt (c :: chars) (offset + 1) line (if line = 0 then column + 1 else column) := by
  obtain ⟨first, rest, hsplit⟩ := List.exists_cons_of_ne_nil (List.splitOn_ne_nil '\n' chars)
  have hlines : (c :: chars).splitOn '\n' = (c :: first) :: rest := by
    simp [List.splitOn_cons_eq_if_modifyHead, hc, hsplit]
  have hcount : ((c :: chars).take (offset + 1)).count '\n' = line := by
    rw [List.take_succ_cons, List.count_cons_of_ne hc, h.count_eq]
  obtain ⟨content, hcontent, hle⟩ := h.exists_content
  have hoffset := h.offset_eq
  rw [hsplit] at hcontent hoffset
  cases line with
  | zero =>
    obtain rfl : first = content := Option.some.inj hcontent
    rw [lineStart_zero, Nat.zero_add] at hoffset
    rw [if_pos rfl]
    exact ⟨hcount, ⟨c :: first, by rw [hlines]; rfl, Nat.succ_le_succ hle⟩, by simp [hoffset]⟩
  | succ index =>
    rw [if_neg (Nat.succ_ne_zero index)]
    rw [lineStart_cons_succ] at hoffset
    refine ⟨hcount, ⟨content, by rw [hlines]; exact hcontent, hle⟩, ?_⟩
    rw [hlines, lineStart_cons_succ, List.length_cons]
    omega

end LiesAt

/-- A walk over the characters up to an offset that starts anywhere in a line counts on in
this line and starts to count anew in each later one. -/
theorem exists_liesAt (chars : List Char) {offset : Nat} (h : offset ≤ chars.length)
    (place : LineColumn) :
    ∃ line column, LiesAt chars offset line column ∧
      (chars.take offset).foldl LineColumn.after place =
        ⟨place.line + line, if line = 0 then place.column + column else column + 1⟩ := by
  induction chars generalizing offset place with
  | nil =>
    obtain rfl : offset = 0 := Nat.le_zero.mp h
    exact ⟨0, 0, .zero [], rfl⟩
  | cons c rest ih =>
    cases offset with
    | zero => exact ⟨0, 0, .zero (c :: rest), rfl⟩
    | succ offset =>
      obtain ⟨line, column, hlies, hwalk⟩ := ih (Nat.le_of_succ_le_succ h) (place.after c)
      rw [List.take_succ_cons, List.foldl_cons, hwalk]
      by_cases hc : c = '\n'
      · subst hc
        refine ⟨line + 1, column, hlies.lineFeed, ?_⟩
        have hafter : place.after '\n' = ⟨place.line + 1, 1⟩ := rfl
        simp only [hafter, if_neg (Nat.succ_ne_zero line), LineColumn.mk.injEq]
        exact ⟨by omega, by split_ifs <;> omega⟩
      · refine ⟨line, _, hlies.cons hc, ?_⟩
        have hafter : place.after c = ⟨place.line, place.column + 1⟩ := if_neg hc
        simp only [hafter, LineColumn.mk.injEq, true_and]
        split_ifs <;> omega

theorem lineColumn_eq {text : String} {offset : Nat} (h : offset ≤ text.length) :
    ∃ line column, lineColumn text offset = ⟨line + 1, column + 1⟩ ∧
      LiesAt text.toList offset line column := by
  rw [← String.length_toList] at h
  obtain ⟨line, column, hlies, hwalk⟩ := exists_liesAt text.toList h ⟨1, 1⟩
  refine ⟨line, column, ?_, hlies⟩
  rw [lineColumn, hwalk]
  split_ifs <;> simp [Nat.add_comm]

/-- Places in the order of the text: by lines first and then by columns. -/
def LineColumn.lex (place : LineColumn) : Nat ×ₗ Nat :=
  toLex (place.line, place.column)

theorem lineColumn_lex_lt {text : String} {first second : Nat} (hlt : first < second)
    (hsecond : second ≤ text.length) :
    (lineColumn text first).lex < (lineColumn text second).lex := by
  obtain ⟨line, column, hplace, hlies⟩ := lineColumn_eq (hlt.le.trans hsecond)
  obtain ⟨otherLine, otherColumn, hother, hliesOther⟩ := lineColumn_eq hsecond
  have hcount : line ≤ otherLine := by
    rw [← hlies.count_eq, ← hliesOther.count_eq]
    exact (List.take_sublist_take_left (Nat.le_of_lt hlt)).count_le '\n'
  rw [hplace, hother, LineColumn.lex, LineColumn.lex, Prod.Lex.toLex_lt_toLex]
  rcases Nat.lt_or_eq_of_le hcount with hline | rfl
  · exact .inl (Nat.succ_lt_succ hline)
  · -- In the same line only the columns tell the offsets apart.
    have hoffset := hlies.offset_eq
    have hoffsetOther := hliesOther.offset_eq
    exact .inr ⟨rfl, by dsimp only; omega⟩

/-- Line and column say how many line feeds precede an offset and where it lies in the lines
of the text, and so they determine it: of two offsets in a text the later one has the later
place. Past the end there is only the place of the end. -/
theorem lineColumn_determines_offset (text : String) :
    (∀ offset ≤ text.length, ∃ line column,
      lineColumn text offset = ⟨line + 1, column + 1⟩ ∧
      line = (text.toList.take offset).count '\n' ∧
      (∃ content, (text.toList.splitOn '\n')[line]? = some content ∧ column ≤ content.length) ∧
      offset = (((text.toList.splitOn '\n').take line).map (·.length + 1)).sum + column) ∧
    Set.InjOn (lineColumn text) (Set.Iic text.length) ∧
    StrictMonoOn (fun offset => (lineColumn text offset).lex) (Set.Iic text.length) ∧
    ∀ offset, text.length ≤ offset → lineColumn text offset = lineColumn text text.length := by
  have hmono : StrictMonoOn (fun offset => (lineColumn text offset).lex) (Set.Iic text.length) :=
    fun first _ second hsecond hlt => lineColumn_lex_lt hlt hsecond
  refine ⟨fun offset hoffset => ?_, ?_, hmono, fun offset hoffset => ?_⟩
  · obtain ⟨line, column, hplace, hlies⟩ := lineColumn_eq hoffset
    exact ⟨line, column, hplace, hlies.count_eq.symm, hlies.exists_content, hlies.offset_eq⟩
  · intro first hfirst second hsecond heq
    exact hmono.injOn hfirst hsecond (congrArg LineColumn.lex heq)
  · have hlength : text.toList.length = text.length := String.length_toList
    rw [lineColumn, lineColumn, List.take_of_length_le (hlength.trans_le hoffset),
      List.take_of_length_le (Nat.le_of_eq hlength)]

-- at the line feed, in the empty line after it and at the end of a text without a last line feed
example : [2, 3, 5].map (lineColumn "ab\n\né") = [⟨1, 3⟩, ⟨2, 1⟩, ⟨3, 2⟩] := by decide

end CurriedLambda
