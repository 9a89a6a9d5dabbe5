import CurriedLambda.Proofs.StaleRanges
import CurriedLambda.Proofs.SwallowedTokens
import CurriedLambda.Proofs.TokenTable

/-!
The list of diagnostics read line by line. The text of a token that a message can name holds
no line break, and what a message ends a line with is never a carriage return. So the lines
found in a message are those it was made of, and each diagnostic is a block of lines, of which
only the first starts with no space.
-/
namespace CurriedLambda

/-- What a message says before it lists tokens. -/
def Problem.firstLine : Problem → String
  | unexpected expected found _ => "expected " ++ expected.wording ++ ", found " ++ found.describe
  | problem => problem.message

theorem Problem.message_eq (problem : Problem) :
    problem.message = problem.firstLine ++ skippedLines problem.swallowed := by
  cases problem with
  | unexpected => rfl
  | _ => exact (String.append_empty ..).symm

namespace Listing

/-- A line that is found as it is among others: nothing in it ends a line, and nothing at its
end belongs to the line break. -/
structure IsKept (line : String) : Prop where
  oneLine : OneLine line
  ne_nil : line.toList ≠ []
  last_ne : line.toList.getLast? ≠ some '\r'

/-- The first line of a block. -/
def headerLine (text : String) (diagnostic : Diagnostic) (first : String) : String :=
  let place := lineColumn text diagnostic.span.start
  toString place.line ++ ":" ++ toString place.column ++ ": " ++ diagnostic.code.name ++ ": " ++
    first

/-- The line of a block about a token that is skipped. -/
def skippedEntry (token : Token) : String :=
  "    skipped " ++ token.describe ++ " at " ++ toString token.start

/-- The line of a block that quotes the text, if this can be shown in one line. -/
def quotedLines (text : String) (diagnostic : Diagnostic) : List String :=
  let snippet := excerpt text diagnostic.span.start diagnostic.span.length
  if OneLine snippet ∧ snippet.toList.all isBlank = false then ["    | " ++ snippet] else []

/-- The lines about the diagnostic with this number: its place, code and first line, the tokens
that its recovery has swallowed, and the text that it covers. -/
structure IsBlock (text : String) (index : Nat) (diagnostic : Diagnostic) (block : List String) :
    Prop where
  lines_eq : ∃ first swallowed, (linesOf diagnostic.message).head? = some first ∧
    Checker.SwallowedAt (tokenize text) index swallowed ∧
    block = headerLine text diagnostic first ::
      (swallowed.map skippedEntry ++ quotedLines text diagnostic)
  space_iff : ∀ i line, block[i]? = some line → (line.toList.head? = some ' ' ↔ i ≠ 0)

section Lines

variable {line : List Char} {parts : List (List Char)}

theorem lines_cons {c : Char} {rest : List Char} (hbreak : c ≠ '\n')
    (hreturn : c = '\r' → rest.head? ≠ some '\n') :
    lines (c :: rest) =
      match lines rest with
      | [] => [[c]]
      | line :: more => (c :: line) :: more :=
  lines.eq_4 c rest hbreak fun _ hc hrest => hreturn hc (congrArg List.head? hrest)

theorem lines_of_not_mem (hne : line ≠ []) (hbreak : '\n' ∉ line) : lines line = [line] := by
  induction line with
  | nil => exact absurd rfl hne
  | cons c rest ih =>
    rw [List.mem_cons, not_or] at hbreak
    have hhead : rest.head? ≠ some '\n' := fun h => hbreak.2 (List.mem_of_head? h)
    rw [lines_cons (Ne.symm hbreak.1) fun _ => hhead]
    cases rest with
    | nil => rfl
    | cons d more => rw [ih (List.cons_ne_nil _ _) hbreak.2]

theorem lines_append (hbreak : '\n' ∉ line) (hlast : line.getLast? ≠ some '\r')
    (rest : List Char) : lines (line ++ '\n' :: rest) = line :: lines rest := by
  induction line with
  | nil => rfl
  | cons c more ih =>
    rw [List.mem_cons, not_or] at hbreak
    have hreturn : c = '\r' → (more ++ '\n' :: rest).head? ≠ some '\n' := by
      rintro rfl
      cases more with
      | nil => exact absurd rfl hlast
      | cons d tail =>
        intro hhead
        exact hbreak.2 (Option.some.inj hhead ▸ List.mem_cons_self)
    have hmore : more.getLast? ≠ some '\r' := by
      cases more with
      | nil => exact nofun
      | cons d tail => rwa [List.getLast?_cons_cons] at hlast
    rw [List.cons_append, lines_cons (Ne.symm hbreak.1) hreturn, ih hbreak.2 hmore]

theorem lines_intercalate (hbreak : ∀ part ∈ parts, '\n' ∉ part)
    (hne : ∀ part ∈ parts, part ≠ []) (hlast : ∀ part ∈ parts, part.getLast? ≠ some '\r') :
    lines (['\n'].intercalate parts) = parts := by
  induction parts with
  | nil => rfl
  | cons part more ih =>
    rw [List.forall_mem_cons] at hbreak hne hlast
    by_cases hmore : more = []
    · rw [hmore, List.intercalate_singleton, lines_of_not_mem hne.1 hbreak.1]
    · rw [List.intercalate_cons_of_ne_nil hmore, List.append_assoc, List.singleton_append,
        lines_append hbreak.1 hlast.1, ih hbreak.2 hne.2 hlast.2]

end Lines

section Kept

variable {first second : String} {token : Token}

theorem IsKept.prepend (h : IsKept second) (hfirst : OneLine first) : IsKept (first ++ second) := by
  refine ⟨hfirst.append h.oneLine, ?_, ?_⟩ <;> rw [String.toList_append]
  · exact List.append_ne_nil_of_right_ne_nil _ h.ne_nil
  · rw [List.getLast?_append_of_ne_nil _ h.ne_nil]
    exact h.last_ne

theorem isKept_toString (n : Nat) : IsKept (toString n) := by
  refine ⟨oneLine_toString n, (isCell_toString n).ne_nil, fun hlast => ?_⟩
  exact absurd (isDigit_of_mem_toString (List.mem_of_getLast? hlast)) (by decide)

theorem isKept_wording (kind : Kind) : IsKept kind.wording := by
  cases kind <;> exact ⟨by decide, by decide, by decide⟩

theorem isKept_describe (h : OneLine token.text) : IsKept token.describe := by
  have hwording := isKept_wording token.kind
  unfold Token.describe
  split
  · exact IsKept.prepend ⟨by decide, by decide, by decide⟩
      ((hwording.oneLine.append (by decide)).append h)
  · exact hwording

theorem isKept_skippedLine (h : OneLine token.text) : IsKept (skippedLine token) := by
  have hskipped : OneLine "  skipped " := by decide
  exact (isKept_toString token.start).prepend
    ((hskipped.append (oneLine_describe h)).append (by decide))

end Kept

section Blocks

variable {text : String} {problem : Problem}

theorem isKept_firstLine (h : problem ∈ problems (tokenize text)) : IsKept problem.firstLine := by
  have hdrawn := drawnFrom_of_mem_problems h
  have hexpected (expected : Expected) : OneLine ("expected " ++ expected.wording) :=
    OneLine.append (by decide) (oneLine_wording expected)
  cases problem with
  | unexpected expected found skipped =>
    obtain ⟨more, hsublist, -⟩ := hdrawn
    have hfound := isKept_describe (oneLine_text (hsublist.subset List.mem_cons_self))
    exact hfound.prepend ((hexpected expected).append (by decide))
  | exhausted expected last =>
    exact IsKept.prepend ⟨by decide, by decide, by decide⟩ (hexpected expected)
  | unknownName token | unusedParameter token =>
    exact IsKept.prepend ⟨by decide, by decide, by decide⟩
      (OneLine.append (by decide) (oneLine_text hdrawn.1))
  | unmatchedClose token =>
    have hline : IsKept "closing bracket without matching opening bracket" :=
      ⟨by decide, by decide, by decide⟩
    exact hline
  | misplacedClose token =>
    have hline : IsKept "closing bracket misplaced" := ⟨by decide, by decide, by decide⟩
    exact hline

theorem oneLine_swallowed (h : problem ∈ problems (tokenize text)) :
    ∀ token ∈ problem.swallowed, OneLine token.text := by
  have hdrawn := drawnFrom_of_mem_problems h
  cases problem with
  | unexpected expected found skipped =>
    obtain ⟨more, hsublist, rfl | rfl⟩ := hdrawn
    · exact nofun
    · exact fun token htoken => oneLine_text (hsublist.subset htoken)
  | _ => exact nofun

/-- A message is taken apart into the lines that it was made of. -/
theorem lines_message (h : problem ∈ problems (tokenize text)) :
    lines problem.message.toList =
      (problem.firstLine :: problem.swallowed.map skippedLine).map String.toList := by
  have hkept : ∀ line ∈ problem.firstLine :: problem.swallowed.map skippedLine, IsKept line := by
    intro line hline
    rcases List.mem_cons.mp hline with rfl | hline
    · exact isKept_firstLine h
    · obtain ⟨token, htoken, rfl⟩ := List.mem_map.mp hline
      exact isKept_skippedLine (oneLine_swallowed h token htoken)
  rw [problem.message_eq, toList_append_skippedLines]
  exact lines_intercalate (List.forall_mem_map.mpr fun line hline => (hkept line hline).oneLine)
    (List.forall_mem_map.mpr fun line hline => (hkept line hline).ne_nil)
    (List.forall_mem_map.mpr fun line hline => (hkept line hline).last_ne)

theorem detail_skippedLine (token : Token) :
    detail (skippedLine token).toList = skippedEntry token ++ "\n" := by
  have hdrop (rest : String) :
      ("  skipped " ++ rest).toList.dropWhile isBlank = ("skipped " ++ rest).toList := by
    rw [String.toList_append, String.toList_append]
    rfl
  have hindent (rest : String) : "    skipped " ++ rest = "    " ++ ("skipped " ++ rest) := by
    rw [← String.append_assoc]
    rfl
  simp only [detail, skippedLine, skippedEntry, String.append_assoc, hdrop, hindent,
    String.ofList_toList]

theorem quotation_excerpt (text : String) (diagnostic : Diagnostic) :
    quotation (excerpt text diagnostic.span.start diagnostic.span.length) =
      String.join ((quotedLines text diagnostic).map (· ++ "\n")) := by
  unfold quotation quotedLines OneLine
  generalize excerpt text diagnostic.span.start diagnostic.span.length = snippet
  have hhidden : (snippet.toList.all isBlank || snippet.toList.contains '\n') = true ↔
      ¬ ('\n' ∉ snippet.toList ∧ snippet.toList.all isBlank = false) := by
    rw [Bool.or_eq_true, List.contains_iff_mem, not_and, Bool.not_eq_false, or_comm,
      or_iff_not_imp_left]
  by_cases hshown : '\n' ∉ snippet.toList ∧ snippet.toList.all isBlank = false
  · rw [if_neg (mt hhidden.mp (not_not.mpr hshown)), if_pos hshown]
    rfl
  · rw [if_pos (hhidden.mpr hshown), if_neg hshown]
    rfl

/-- What is quoted is one line. -/
theorem eq_of_mem_quotedLines {diagnostic : Diagnostic} {line : String}
    (h : line ∈ quotedLines text diagnostic) :
    ∃ snippet, OneLine snippet ∧ line = "    | " ++ snippet := by
  unfold quotedLines at h
  by_cases hshown : OneLine (excerpt text diagnostic.span.start diagnostic.span.length) ∧
      (excerpt text diagnostic.span.start diagnostic.span.length).toList.all isBlank = false
  · rw [if_pos hshown] at h
    exact ⟨_, hshown.1, List.mem_singleton.mp h⟩
  · rw [if_neg hshown] at h
    cases h

/-- The lines about a problem. -/
def blockLines (text : String) (problem : Problem) : List String :=
  headerLine text problem.toDiagnostic problem.firstLine ::
    (problem.swallowed.map skippedEntry ++ quotedLines text problem.toDiagnostic)

theorem diagnosticBlock_eq (h : problem ∈ problems (tokenize text)) :
    diagnosticBlock text problem.toDiagnostic =
      String.join ((blockLines text problem).map (· ++ "\n")) := by
  have hmessage : lines problem.toDiagnostic.message.toList = _ := lines_message h
  have hdetails : ((problem.swallowed.map skippedLine).map String.toList).map detail =
      (problem.swallowed.map skippedEntry).map (· ++ "\n") := by
    simp only [List.map_map, Function.comp_def, detail_skippedLine]
  have hquoted := quotation_excerpt text problem.toDiagnostic
  simp only [diagnosticBlock, hmessage, List.map_cons, List.headD_cons, List.tail_cons, hdetails,
    excerpt_clamp, hquoted, String.ofList_toList, blockLines, headerLine, List.map_append,
    String.join_cons, String.join_append, String.append_assoc]

theorem oneLine_of_mem_blockLines (h : problem ∈ problems (tokenize text)) :
    ∀ line ∈ blockLines text problem, OneLine line := by
  have hcode : OneLine problem.toDiagnostic.code.name := by
    cases problem.toDiagnostic.code <;> decide
  intro line hline
  rcases List.mem_cons.mp hline with rfl | hline
  · have hplace (line column : Nat) : OneLine (toString line ++ ":" ++ toString column) :=
      ((oneLine_toString line).append (by decide)).append (oneLine_toString column)
    exact ((((hplace _ _).append (by decide)).append hcode).append (by decide)).append
      (isKept_firstLine h).oneLine
  rcases List.mem_append.mp hline with hskipped | hquoted
  · obtain ⟨token, htoken, rfl⟩ := List.mem_map.mp hskipped
    have hskipped : OneLine "    skipped " := by decide
    exact ((hskipped.append (oneLine_describe (oneLine_swallowed h token htoken))).append
      (by decide)).append (oneLine_toString _)
  · obtain ⟨snippet, hsnippet, rfl⟩ := eq_of_mem_quotedLines hquoted
    exact OneLine.append (by decide) hsnippet

theorem head?_headerLine (text : String) (diagnostic : Diagnostic) (first : String) :
    (headerLine text diagnostic first).toList.head? ≠ some ' ' := by
  intro hhead
  simp only [headerLine, String.append_assoc] at hhead
  rw [String.toList_append] at hhead
  exact (isCell_toString _).head?_append _ _ hhead rfl

theorem head?_of_mem_entries (tokens : List Token) (diagnostic : Diagnostic) :
    ∀ line ∈ tokens.map skippedEntry ++ quotedLines text diagnostic,
      line.toList.head? = some ' ' := by
  intro line hline
  rcases List.mem_append.mp hline with hskipped | hquoted
  · obtain ⟨token, -, rfl⟩ := List.mem_map.mp hskipped
    simp only [skippedEntry, String.append_assoc]
    rw [String.toList_append]
    rfl
  · obtain ⟨snippet, -, rfl⟩ := eq_of_mem_quotedLines hquoted
    rw [String.toList_append]
    rfl

theorem isBlock_blockLines {index : Nat} (h : (problems (tokenize text))[index]? = some problem) :
    IsBlock text index problem.toDiagnostic (blockLines text problem) := by
  have hmem := List.mem_of_getElem? h
  refine ⟨⟨problem.firstLine, problem.swallowed, ?_, Checker.swallowedAt_of_getElem? h, rfl⟩, ?_⟩
  · have hlines : linesOf problem.toDiagnostic.message = _ :=
      (congrArg linesOf problem.message_eq).trans
        (linesOf_append_skippedLines (isKept_firstLine hmem).oneLine (oneLine_swallowed hmem))
    rw [hlines]
    rfl
  · intro i line hline
    cases i with
    | zero =>
      rw [← Option.some.inj hline]
      exact iff_of_false (head?_headerLine _ _ _) (absurd rfl)
    | succ i =>
      exact iff_of_true (head?_of_mem_entries _ _ line (List.mem_of_getElem? hline))
        (Nat.succ_ne_zero i)

/-- Blocks one after the other are their lines one after the other. -/
theorem join_blocks (blocks : List (List String)) :
    String.join (blocks.map fun block => String.join (block.map (· ++ "\n"))) =
      String.join (blocks.flatten.map (· ++ "\n")) := by
  induction blocks with
  | nil => rfl
  | cons block rest ih =>
    rw [List.map_cons, String.join_cons, ih, List.flatten_cons, List.map_append, String.join_append]

theorem diagnosticList_eq (text : String) :
    diagnosticList text (check text) =
      String.join (((problems (tokenize text)).map (blockLines text)).flatten.map (· ++ "\n")) := by
  have hblocks : ∀ problem ∈ problems (tokenize text),
      diagnosticBlock text problem.toDiagnostic =
        String.join ((blockLines text problem).map (· ++ "\n")) := fun _ => diagnosticBlock_eq
  rw [diagnosticList, check, diagnose, List.map_map, ← join_blocks, List.map_map]
  exact congrArg String.join (List.map_congr_left hblocks)

end Blocks

end Listing

/-- The list of diagnostics of a text is made of lines that each end in a line feed, with one
block of them for each diagnostic, in order. -/
theorem diagnosticList_lines (text : String) :
    (∃ blocks, linesOf (diagnosticList text (check text)) = blocks.flatten ++ [""] ∧
      List.Forall₂ (fun entry block => Listing.IsBlock text entry.2 entry.1 block)
        (check text).zipIdx blocks) ∧
    (diagnosticList text (check text) = "" ↔ check text = []) := by
  have hcheck : check text = (problems (tokenize text)).map Problem.toDiagnostic := rfl
  refine ⟨⟨(problems (tokenize text)).map (Listing.blockLines text), ?_, ?_⟩,
    diagnosticList_eq_empty_iff⟩
  · rw [Listing.diagnosticList_eq, linesOf_join]
    intro line hline
    obtain ⟨block, hblock, hline⟩ := List.mem_flatten.mp hline
    obtain ⟨problem, hproblem, rfl⟩ := List.mem_map.mp hblock
    exact Listing.oneLine_of_mem_blockLines hproblem line hline
  · have hblocks : (problems (tokenize text)).map (Listing.blockLines text) =
        (problems (tokenize text)).zipIdx.map fun entry => Listing.blockLines text entry.1 := by
      conv_lhs => rw [← List.zipIdx_map_fst 0 (problems (tokenize text)), List.map_map]
      rfl
    rw [hcheck, List.zipIdx_map, hblocks, List.forall₂_map_left_iff, List.forall₂_map_right_iff,
      List.forall₂_same]
    exact fun entry hentry => Listing.isBlock_blockLines (List.mem_zipIdx_iff_getElem?.mp hentry)

/-- Two tokens are skipped, and the text from one to the other is on more than one line. -/
example : linesOf (diagnosticList "(\\x (\n@->x+y)1;" (check "(\\x (\n@->x+y)1;")) =
    ["1:5: unexpected_token: expected identifier or `-`, found `(`",
      "    skipped `(` at 4",
      "    skipped invalid character `@` at 6",
      "2:6: unknown_name: name `y` does not exist in current context",
      "    | y",
      ""] := by decide +kernel

end CurriedLambda
