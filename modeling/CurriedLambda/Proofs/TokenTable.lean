import CurriedLambda.Listing
import CurriedLambda.Proofs.Recovery

/-!
The token table read back. No cell but the last holds a space, since a lexeme never does, so
that a cell ends at the first space, however wide it is, and a row at the first line break.
The rows give the tokens back, and with them the table does.
-/
namespace CurriedLambda

namespace Listing

/-- The first cell of a row, and the row from the next cell on. -/
def readCell (row : List Char) : List Char × List Char :=
  (row.takeWhile (· ≠ ' '), (row.dropWhile (· ≠ ' ')).dropWhile (· = ' '))

/-- The token that a row shows, if its second cell names a kind. -/
def readRow (row : String) : Option Token :=
  let (_, row) := readCell (row.toList.dropWhile (· = ' '))
  let (name, row) := readCell row
  let (text, position) := readCell row
  (Kind.ofName? (String.ofList name)).map fun kind =>
    { kind
      text := if kind = .newline then "\n" else String.ofList text
      start := Nat.ofDigitChars 10 (position.takeWhile Char.isDigit) 0 }

/-- The tokens that the rows of a table show. The row of heads shows none. -/
def readTable (table : String) : List Token :=
  (linesOf table).filterMap readRow

/-- A row without the line break that ends it. -/
def line (code kind text position : String) : String :=
  padLeft 4 code ++ "  " ++ padRight 16 kind ++ "  " ++ padRight 12 text ++ "  " ++ position

def headLine : String :=
  line "code" "kind" "text" "position"

def tokenLine (token : Token) : String :=
  line (toString token.kind.code.toNat) token.kind.name
    (if token.kind = .newline then "\\n" else token.text) token.position

/-- A cell that can be told from the spaces around it. -/
structure IsCell (cell : String) : Prop where
  ne_nil : cell.toList ≠ []
  not_mem : ' ' ∉ cell.toList

section Cells

variable {cell : String} {rest : List Char}

theorem IsCell.head?_append (h : IsCell cell) (rest : List Char) :
    ∀ c ∈ (cell.toList ++ rest).head?, c ≠ ' ' := by
  obtain ⟨first, more, hcell⟩ := List.exists_cons_of_ne_nil h.ne_nil
  have hspace := h.not_mem
  rw [hcell] at hspace ⊢
  rintro c hc rfl
  exact hspace (by simp_all)

theorem dropWhile_spaces (count : Nat) (hrest : ∀ c ∈ rest.head?, c ≠ ' ') :
    (List.replicate count ' ' ++ rest).dropWhile (· = ' ') = rest := by
  refine (Lexeme.takeWhile_append_of_head (fun c hc => ?_) fun c hc => ?_).2
  · exact decide_eq_true (List.eq_of_mem_replicate hc)
  · exact decide_eq_false (hrest c hc)

theorem readCell_append (count : Nat) (hcell : ' ' ∉ cell.toList)
    (hrest : ∀ c ∈ rest.head?, c ≠ ' ') :
    readCell (cell.toList ++ (List.replicate (count + 1) ' ' ++ rest)) = (cell.toList, rest) := by
  have hrun : ∀ c ∈ cell.toList, decide (c ≠ ' ') = true := fun c hc =>
    decide_eq_true (ne_of_mem_of_not_mem hc hcell)
  have hgap : ∀ c ∈ (List.replicate (count + 1) ' ' ++ rest).head?, decide (c ≠ ' ') = false := by
    simp [List.replicate_succ]
  obtain ⟨htake, hdrop⟩ := Lexeme.takeWhile_append_of_head hrun hgap
  rw [readCell, htake, hdrop, dropWhile_spaces _ hrest]

theorem isCell_name (kind : Kind) : IsCell kind.name := by
  cases kind <;> exact ⟨by decide, by decide⟩

theorem isCell_toString (n : Nat) : IsCell (toString n) := by
  refine ⟨?_, fun hspace => absurd (isDigit_of_mem_toString hspace) (by decide)⟩
  rw [toList_toString]
  exact Nat.toDigits_ne_nil

end Cells

/-- Four cells that are apart by spaces. -/
theorem toList_line (code kind text position : String) :
    ∃ before afterCode afterKind afterText : Nat, (line code kind text position).toList =
      List.replicate before ' ' ++ (code.toList ++ (List.replicate (afterCode + 1) ' ' ++
        (kind.toList ++ (List.replicate (afterKind + 1) ' ' ++
          (text.toList ++ (List.replicate (afterText + 1) ' ' ++ position.toList)))))) := by
  refine ⟨4 - code.length, 1, 16 - kind.length + 1, 12 - text.length + 1, ?_⟩
  simp [line, padLeft, padRight, List.replicate_succ']

theorem toList_position (token : Token) :
    token.position.toList =
      (toString token.start).toList ++ (": " ++ toString token.stop).toList := by
  simp [Token.position]

/-- A place starts with the start of the token, in digits. -/
theorem takeWhile_position (token : Token) :
    token.position.toList.takeWhile Char.isDigit = Nat.toDigits 10 token.start := by
  rw [toList_position, ← toList_toString]
  exact (Lexeme.takeWhile_append_of_head (fun _ => isDigit_of_mem_toString) (by simp)).1

section Rows

variable {text : String} {token : Token}

theorem isCell_text (h : token ∈ tokenize text) : IsCell token.text := by
  obtain ⟨-, lexeme, -, -, hshape, htext, -⟩ := (lexes_tokenize text).exists_lexeme h
  rw [htext]
  refine ⟨?_, ?_⟩ <;> rw [String.toList_ofList]
  · exact Lexeme.ne_nil_of_hasShape hshape
  · exact Lexeme.not_mem_space hshape

theorem text_of_newline (h : token ∈ tokenize text) (hkind : token.kind = .newline) :
    token.text = "\n" := by
  obtain ⟨-, lexeme, -, -, hshape, htext, -⟩ := (lexes_tokenize text).exists_lexeme h
  rw [hkind] at hshape
  rw [htext, show lexeme = ['\n'] from hshape]

theorem readRow_line {code shown position : String} (kind : Kind) (hcode : IsCell code)
    (hshown : IsCell shown) (hposition : ∀ c ∈ position.toList.head?, c ≠ ' ') :
    readRow (line code kind.name shown position) =
      some { kind
             text := if kind = .newline then "\n" else shown
             start := Nat.ofDigitChars 10 (position.toList.takeWhile Char.isDigit) 0 } := by
  obtain ⟨before, afterCode, afterKind, afterShown, hline⟩ :=
    toList_line code kind.name shown position
  have hname := isCell_name kind
  rw [readRow, hline, dropWhile_spaces before (hcode.head?_append _),
    readCell_append afterCode hcode.not_mem (hname.head?_append _)]
  dsimp only
  rw [readCell_append afterKind hname.not_mem (hshown.head?_append _)]
  dsimp only
  rw [readCell_append afterShown hshown.not_mem hposition, String.ofList_toList,
    String.ofList_toList, Kind.ofName?_name]
  rfl

/-- A row shows its token. -/
theorem readRow_tokenLine (h : token ∈ tokenize text) : readRow (tokenLine token) = some token := by
  have hshown : IsCell (if token.kind = .newline then "\\n" else token.text) := by
    split
    · exact ⟨by decide, by decide⟩
    · exact isCell_text h
  have hposition : ∀ c ∈ token.position.toList.head?, c ≠ ' ' := by
    rw [toList_position]
    exact (isCell_toString token.start).head?_append _
  have htext : (if token.kind = .newline then "\n"
      else if token.kind = .newline then "\\n" else token.text) = token.text := by
    split
    · next hkind => exact (text_of_newline h hkind).symm
    · rfl
  rw [tokenLine, readRow_line token.kind (isCell_toString _) hshown hposition, htext,
    takeWhile_position, Nat.ofDigitChars_toDigits (by decide) (by decide)]

theorem oneLine_line {code kind shown position : String} (hcode : OneLine code)
    (hkind : OneLine kind) (hshown : OneLine shown) (hposition : OneLine position) :
    OneLine (line code kind shown position) := by
  obtain ⟨_, _, _, _, hline⟩ := toList_line code kind shown position
  simp only [OneLine] at *
  rw [hline]
  simp_all

theorem oneLine_tokenLine (h : token ∈ tokenize text) : OneLine (tokenLine token) := by
  have hname : OneLine token.kind.name := by
    cases token.kind <;> decide
  have hposition : OneLine token.position :=
    ((oneLine_toString _).append (by decide)).append (oneLine_toString _)
  refine oneLine_line (oneLine_toString _) hname ?_ hposition
  split
  · decide
  · next hkind => exact oneLine_text_of_ne_newline h hkind

/-- A row ends in the place of its token. -/
theorem position_suffix_tokenLine (token : Token) :
    token.position.toList <:+ (tokenLine token).toList := by
  rw [tokenLine, line, String.toList_append]
  exact List.suffix_append _ _

end Rows

theorem linesOf_tokenTable (text : String) :
    linesOf (tokenTable (tokenize text)) = headLine :: (tokenize text).map tokenLine ++ [""] := by
  have hlines : ∀ line ∈ headLine :: (tokenize text).map tokenLine, OneLine line := by
    intro line hline
    rcases List.mem_cons.mp hline with rfl | hline
    · decide
    · obtain ⟨token, htoken, rfl⟩ := List.mem_map.mp hline
      exact oneLine_tokenLine htoken
  have htable : tokenTable (tokenize text) =
      String.join ((headLine :: (tokenize text).map tokenLine).map (· ++ "\n")) := by
    rw [List.map_cons, String.join_cons, List.map_map]
    rfl
  rw [htable, linesOf_join hlines]

theorem filterMap_readRow (text : String) :
    ((tokenize text).map tokenLine).filterMap readRow = tokenize text := by
  have hrows : ∀ token ∈ tokenize text, (readRow ∘ tokenLine) token = some token := by
    intro token htoken
    rw [Function.comp_apply, readRow_tokenLine htoken]
  rw [List.filterMap_map, List.filterMap_congr hrows, List.filterMap_some]

/-- Reading the table of a text gives its tokens. -/
theorem readTable_tokenTable (text : String) :
    readTable (tokenTable (tokenize text)) = tokenize text := by
  have hhead : readRow headLine = none := by decide +kernel
  have hend : readRow "" = none := by decide +kernel
  rw [readTable, linesOf_tokenTable, List.filterMap_append, List.filterMap_cons_none hhead,
    filterMap_readRow, List.filterMap_cons_none hend, List.filterMap_nil, List.append_nil]

end Listing

/-- The table of a text tells all its tokens. It has one line of heads and then one for each
token, in order, that shows the token and ends in its place. -/
theorem tokenTable_faithful (text : String) :
    (∀ other, tokenTable (tokenize text) = tokenTable (tokenize other) ↔
      tokenize text = tokenize other) ∧
    ∃ rows, linesOf (tokenTable (tokenize text)) =
        "code  kind              text          position" :: rows ++ [""] ∧
      List.Forall₂ (fun token row => Listing.readRow row = some token ∧
        token.position.toList <:+ row.toList) (tokenize text) rows := by
  refine ⟨fun other => ⟨fun htable => ?_, congrArg tokenTable⟩,
    (tokenize text).map Listing.tokenLine, Listing.linesOf_tokenTable text, ?_⟩
  · have hread := congrArg Listing.readTable htable
    rwa [Listing.readTable_tokenTable, Listing.readTable_tokenTable] at hread
  · rw [List.forall₂_map_right_iff, List.forall₂_same]
    exact fun token htoken =>
      ⟨Listing.readRow_tokenLine htoken, Listing.position_suffix_tokenLine token⟩

end CurriedLambda
