import CurriedLambda.Proofs.Anchors

/-!
Ranges in another text than the one they were found in. Cut down to the size of that text,
a range is the part of itself that lies inside, and it quotes what the whole range quotes. Both
can be cut out of the text by bytes, as the two ends lie between characters and in order.
-/
namespace CurriedLambda

/-- The byte offsets at which characters start, of which the first is at `offset`. -/
def charOffsets (offset : Nat) : List Char → List Nat
  | [] => []
  | c :: rest => offset :: charOffsets (offset + c.utf8Size) rest

/-- The byte offset of the character with this index, or of the end of the text if there is
none. -/
def byteOffset (text : String) (index : Nat) : Nat :=
  (charOffsets 0 text.toList)[index]?.getD text.utf8ByteSize

theorem getD_charOffsets (offset : Nat) (chars : List Char) (index : Nat) :
    (charOffsets offset chars)[index]?.getD (offset + utf8Length chars) =
      offset + utf8Length (chars.take index) := by
  induction chars generalizing offset index with
  | nil => simp [charOffsets]
  | cons c rest ih =>
    cases index with
    | zero => rfl
    | succ index =>
      have hrest := ih (offset + c.utf8Size) index
      simpa [charOffsets, utf8Length, Nat.add_assoc] using hrest

theorem byteOffset_eq (text : String) (index : Nat) :
    byteOffset text index = utf8Length (text.toList.take index) := by
  have hsize : utf8Length text.toList = text.utf8ByteSize := by
    rw [utf8Length_eq_utf8Len, String.utf8Len_toList]
  have hoffset := getD_charOffsets 0 text.toList index
  rwa [Nat.zero_add, Nat.zero_add, hsize] at hoffset

/-- The offset of a character is a boundary between characters. -/
theorem isValid_byteOffset (text : String) (index : Nat) :
    (String.Pos.Raw.mk (byteOffset text index)).IsValid text := by
  refine String.Pos.Raw.isValid_iff_exists_take_toList.mpr ⟨index, ?_⟩
  rw [String.utf8ByteSize_ofList, ← utf8Length_eq_utf8Len, ← byteOffset_eq]

/-- A range of characters lies between two boundaries, which are in order, and the text
between these is the one that the range covers. -/
structure CutsOut (text : String) (start length : Nat) : Prop where
  start_valid : (String.Pos.Raw.mk (byteOffset text start)).IsValid text
  stop_valid : (String.Pos.Raw.mk (byteOffset text (start + length))).IsValid text
  le : byteOffset text start ≤ byteOffset text (start + length)
  extract_eq : String.Pos.Raw.extract text ⟨byteOffset text start⟩
    ⟨byteOffset text (start + length)⟩ = excerpt text start length

theorem cutsOut (text : String) (start length : Nat) : CutsOut text start length := by
  have hstop : text.toList.take (start + length) =
      text.toList.take start ++ (text.toList.drop start).take length := List.take_add
  have hsplit : text.toList = text.toList.take start ++
      ((text.toList.drop start).take length ++ (text.toList.drop start).drop length) := by
    rw [List.take_append_drop, List.take_append_drop]
  refine ⟨isValid_byteOffset text start, isValid_byteOffset text (start + length), ?_, ?_⟩
  · rw [byteOffset_eq, byteOffset_eq, hstop, utf8Length_append]
    exact Nat.le_add_right _ _
  · rw [byteOffset_eq, byteOffset_eq, hstop]
    exact extract_between hsplit

namespace Span

variable (span : Span) (size : Nat)

/-- The end of a range that is cut down is its own end, cut down. -/
theorem clamp_start_add_length :
    (span.clamp size).1 + (span.clamp size).2 = min span.stop size := by
  have hle : span.start ≤ span.stop := Nat.le_add_right _ _
  simp only [clamp]
  omega

/-- What is left of a range is its part inside the text. -/
theorem mem_clamp_iff (i : Nat) :
    (span.clamp size).1 ≤ i ∧ i < (span.clamp size).1 + (span.clamp size).2 ↔
      span.start ≤ i ∧ i < span.stop ∧ i < size := by
  rw [clamp_start_add_length]
  simp only [clamp]
  omega

theorem clamp_of_stop_le {span : Span} {size : Nat} (h : span.stop ≤ size) :
    span.clamp size = (span.start, span.length) := by
  have hstop : span.stop = span.start + span.length := rfl
  simp only [clamp, Prod.mk.injEq]
  omega

end Span

theorem drop_take_clamp (span : Span) (chars : List Char) :
    (chars.drop (span.clamp chars.length).1).take (span.clamp chars.length).2 =
      (chars.drop span.start).take span.length := by
  have hstop : span.stop = span.start + span.length := rfl
  rcases Nat.le_total span.start chars.length with hstart | hstart
  · have hfirst : (span.clamp chars.length).1 = span.start := Nat.min_eq_left hstart
    have hlength : (span.clamp chars.length).2 =
        min span.length (chars.drop span.start).length := by
      simp only [Span.clamp, List.length_drop]
      omega
    rw [hfirst, hlength, ← List.take_eq_take_min]
  · rw [List.drop_of_length_le hstart, List.drop_of_length_le, List.take_nil, List.take_nil]
    simp only [Span.clamp]
    omega

/-- What is left of a range quotes what the range quotes. -/
theorem excerpt_clamp (span : Span) (text : String) :
    excerpt text (span.clamp text.length).1 (span.clamp text.length).2 =
      excerpt text span.start span.length := by
  rw [← String.length_toList, excerpt, excerpt, drop_take_clamp]

/-- Past its end a text has no further lines and columns. -/
theorem lineColumn_min (text : String) (offset : Nat) :
    lineColumn text (min offset text.length) = lineColumn text offset := by
  rw [lineColumn, lineColumn, ← String.length_toList, ← List.take_eq_take_min]

/-- A range inside the text quotes its characters one by one. -/
theorem getElem?_excerpt (text : String) {start length i : Nat} (h : i < length) :
    (excerpt text start length).toList[i]? = text.toList[start + i]? := by
  rw [excerpt, String.toList_ofList, List.getElem?_take_of_lt h, List.getElem?_drop]

theorem length_excerpt {text : String} {start length : Nat} (h : start + length ≤ text.length) :
    (excerpt text start length).length = length := by
  rw [← String.length_toList] at h
  rw [excerpt, String.length_ofList, List.length_take, List.length_drop]
  omega

/-- The diagnostics of a text end inside it. -/
theorem stop_le_length_of_mem_check {text : String} {diagnostic : Diagnostic}
    (h : diagnostic ∈ check text) : diagnostic.span.stop ≤ text.length := by
  obtain ⟨problem, hproblem, rfl⟩ := List.mem_map.mp h
  have hdrawn := drawnFrom_of_mem_problems hproblem
  rw [filter_tokenize] at hdrawn
  obtain ⟨i, j, hanchored⟩ := Problem.anchoredAt_of_drawnFrom hdrawn
  rw [hanchored.stop_eq]
  exact stop_le_length (List.getElem_mem j.isLt)

/-- Any diagnostic can be shown in any text. Its range, cut down to the text, is the part
that lies inside, can be cut out by bytes, and quotes and stands where the whole range does.
A diagnostic of the text itself is shown whole. -/
theorem clamp_shows (diagnostic : Diagnostic) (later : String) :
    ∃ start length, diagnostic.span.clamp later.length = (start, length) ∧
      start = min diagnostic.span.start later.length ∧
      start + length = min diagnostic.span.stop later.length ∧
      (∀ i, start ≤ i ∧ i < start + length ↔
        diagnostic.span.start ≤ i ∧ i < diagnostic.span.stop ∧ i < later.length) ∧
      (excerpt later start length).length = length ∧
      (∀ i < length, (excerpt later start length).toList[i]? = later.toList[start + i]?) ∧
      excerpt later start length =
        excerpt later diagnostic.span.start diagnostic.span.length ∧
      CutsOut later start length ∧
      CutsOut later diagnostic.span.start diagnostic.span.length ∧
      lineColumn later diagnostic.span.start = lineColumn later start ∧
      (diagnostic ∈ check later → start = diagnostic.span.start ∧
        length = diagnostic.span.length ∧ excerpt later start length ≠ "") := by
  have hstop := diagnostic.span.clamp_start_add_length later.length
  have hlength := length_excerpt (hstop.trans_le (Nat.min_le_right _ _))
  refine ⟨_, _, rfl, rfl, hstop, diagnostic.span.mem_clamp_iff later.length, hlength,
    fun i hi => getElem?_excerpt later hi, excerpt_clamp diagnostic.span later, cutsOut ..,
    cutsOut ..,
    (lineColumn_min later diagnostic.span.start).symm, fun hmem => ?_⟩
  have hinside := Span.clamp_of_stop_le (stop_le_length_of_mem_check hmem)
  refine ⟨congrArg Prod.fst hinside, congrArg Prod.snd hinside, fun hempty => ?_⟩
  have hzero : (diagnostic.span.clamp later.length).2 = 0 :=
    hlength.symm.trans (congrArg String.length hempty)
  rw [hinside] at hzero
  exact Nat.ne_of_gt diagnostic.span.length_pos hzero

/-- A name of two characters, of which the later text has lost the second. -/
theorem clamp_shows_shortened :
    ∃ diagnostic ∈ check "(\\é->é+yé)1;", diagnostic.span.start = 7 ∧ diagnostic.span.length = 2 ∧
      excerpt "(\\é->é+yé)1;" 7 2 ≠ "" ∧ excerpt "(\\é->é+y" 7 1 = excerpt "(\\é->é+y" 7 2 := by
  have hmem : (⟨.unknownName, "name `yé` does not exist in current context", ⟨7, 2, by decide⟩⟩ :
      Diagnostic) ∈ check "(\\é->é+yé)1;" := by decide +kernel
  obtain ⟨_, _, hwhole, -, -, -, -, -, -, -, -, -, hown⟩ := clamp_shows _ "(\\é->é+yé)1;"
  obtain ⟨rfl, rfl, hquoted⟩ := hown hmem
  obtain ⟨_, _, hcut, -, -, -, -, -, hsame, -⟩ := clamp_shows
    ⟨.unknownName, "name `yé` does not exist in current context", ⟨7, 2, by decide⟩⟩ "(\\é->é+y"
  obtain ⟨rfl, rfl⟩ := Prod.mk.inj hcut
  exact ⟨_, hmem, rfl, rfl, hquoted, hsame⟩

end CurriedLambda
