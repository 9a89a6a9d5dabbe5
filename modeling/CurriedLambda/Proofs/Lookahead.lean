import CurriedLambda.Proofs.StaleRanges

/-!
Lexing with one character of lookahead. A scanner holds the next character, with the byte
offset where it stands, apart from those that come after it, and counts the characters that
it has let go. It cuts tokens out of the text by byte offsets, which is possible only
between characters. To each state of a lexer there is one of a scanner, and wherever the
lexer can get to, the two give the same token and go on in step.
-/
namespace CurriedLambda

/-- Two byte offsets with no part of a text between them. -/
structure BadSlice where
  start : Nat
  stop : Nat

/-- The part of a text between two byte offsets. These must be in order, and both must lie
between characters. -/
def slice (text : String) (start stop : Nat) : Except BadSlice String :=
  if start ≤ stop ∧ (String.Pos.Raw.mk start).IsValid text ∧
      (String.Pos.Raw.mk stop).IsValid text then
    .ok (String.Pos.Raw.extract text ⟨start⟩ ⟨stop⟩)
  else .error ⟨start, stop⟩

/-- The bytes of some of its characters end where another one can start. -/
theorem isValid_utf8Length {text : String} {passed rest : List Char}
    (htext : text.toList = passed ++ rest) :
    (String.Pos.Raw.mk (utf8Length passed)).IsValid text := by
  have hvalid := isValid_byteOffset text passed.length
  rwa [byteOffset_eq, htext, List.take_left] at hvalid

theorem slice_between {text : String} {passed lexeme rest : List Char}
    (htext : text.toList = passed ++ (lexeme ++ rest)) :
    slice text (utf8Length passed) (utf8Length (passed ++ lexeme)) =
      .ok (String.ofList lexeme) := by
  have hle : utf8Length passed ≤ utf8Length (passed ++ lexeme) := by
    rw [utf8Length_append]
    exact Nat.le_add_right ..
  have hstop : text.toList = passed ++ lexeme ++ rest := by rw [htext, List.append_assoc]
  rw [slice, if_pos ⟨hle, isValid_utf8Length htext, isValid_utf8Length hstop⟩,
    extract_between htext]

/-- Characters still to come, and the byte offset of the first of them. -/
structure Upcoming where
  offset : Nat
  chars : List Char

def Upcoming.next (upcoming : Upcoming) : Option (Nat × Char) × Upcoming :=
  match upcoming.chars with
  | [] => (none, upcoming)
  | c :: rest => (some (upcoming.offset, c), ⟨upcoming.offset + c.utf8Size, rest⟩)

structure Scanner where
  text : String
  /-- What comes after the lookahead. -/
  upcoming : Upcoming
  /-- The next character and its byte offset, if there is one. -/
  lookahead : Option (Nat × Char)
  /-- The number of characters before the lookahead. -/
  position : Nat

namespace Scanner

/-- Takes the next character as the lookahead, and counts the one it replaces. -/
def bump (scanner : Scanner) : Scanner where
  text := scanner.text
  upcoming := scanner.upcoming.next.2
  lookahead := scanner.upcoming.next.1
  position := if scanner.lookahead.isSome then scanner.position + 1 else scanner.position

/-- A scanner takes its first character at once. There is none to count before it. -/
def ofText (text : String) : Scanner :=
  bump ⟨text, ⟨0, text.toList⟩, none, 0⟩

/-- The number of characters not yet let go. -/
def remaining (scanner : Scanner) : Nat :=
  scanner.lookahead.toList.length + scanner.upcoming.chars.length

theorem remaining_bump_lt {scanner : Scanner} {held : Nat × Char}
    (h : scanner.lookahead = some held) : scanner.bump.remaining < scanner.remaining := by
  obtain ⟨text, ⟨offset, chars⟩, lookahead, position⟩ := scanner
  subst h
  cases chars <;> simp [bump, remaining, Upcoming.next]

/-- Lets characters go up to the first with which the run does not go on, and returns the
offset of that one, if there is one. Whether a run goes on may depend on what has been seen
of it. -/
def takeRun {σ : Type} (goOn : σ → Char → Option σ) (seen : σ) (scanner : Scanner) :
    Option Nat × σ × Scanner :=
  match _h : scanner.lookahead with
  | none => (none, seen, scanner)
  | some (offset, c) =>
    match goOn seen c with
    | none => (some offset, seen, scanner)
    | some seen => scanner.bump.takeRun goOn seen
termination_by scanner.remaining
decreasing_by exact remaining_bump_lt _h

/-- Numbers go on with digits and with one point. -/
def numberGoesOn (seenPoint : Bool) (c : Char) : Option Bool :=
  if c.isDigit then some seenPoint
  else if c = '.' && !seenPoint then some true
  else none

def identifierGoesOn (_ : Unit) (c : Char) : Option Unit :=
  if isReserved c then none else some ()

/-- Reads the lookahead as a token of its own. -/
def single (kind : Kind) (offset : Nat) (c : Char) (scanner : Scanner) :
    Except BadSlice (Token × Scanner) := do
  let text ← slice scanner.text offset (offset + c.utf8Size)
  return (⟨kind, text, scanner.position⟩, scanner.bump)

/-- Reads a number, of which the lookahead is the first digit. -/
def number (offset : Nat) (scanner : Scanner) : Except BadSlice (Token × Scanner) := do
  let (stop?, seenPoint, after) := scanner.takeRun numberGoesOn false
  let text ← slice scanner.text offset (stop?.getD scanner.text.utf8ByteSize)
  return (⟨if seenPoint then .float else .integer, text, scanner.position⟩, after)

/-- Reads an identifier, of which the lookahead is the first letter. -/
def identifier (offset : Nat) (scanner : Scanner) : Except BadSlice (Token × Scanner) := do
  let (stop?, _, after) := scanner.takeRun identifierGoesOn ()
  let text ← slice scanner.text offset (stop?.getD scanner.text.utf8ByteSize)
  return (⟨.identifier, text, scanner.position⟩, after)

/-- Reads the token that starts with the lookahead, which is no gap. -/
def token (offset : Nat) (c : Char) (scanner : Scanner) : Except BadSlice (Token × Scanner) :=
  match signKind? c with
  | some kind => scanner.single kind offset c
  | none =>
    if c.isDigit then scanner.number offset
    else if c.isAlpha then scanner.identifier offset
    else scanner.single .invalid offset c

/-- The next token, if there is one, and the scanner after it. -/
def next (scanner : Scanner) : Except BadSlice (Option Token × Scanner) :=
  match _h : scanner.lookahead with
  | none => .ok (none, scanner)
  | some (offset, c) =>
    if isGap c then scanner.bump.next
    else do
      let (token, after) ← scanner.token offset c
      return (some token, after)
termination_by scanner.remaining
decreasing_by exact remaining_bump_lt _h

variable {scanner : Scanner} {offset : Nat} {c : Char}

theorem takeRun_of_none {σ : Type} {goOn : σ → Char → Option σ} {seen : σ}
    (h : scanner.lookahead = none) : scanner.takeRun goOn seen = (none, seen, scanner) := by
  cases scanner
  subst h
  rw [takeRun]

theorem takeRun_of_some {σ : Type} {goOn : σ → Char → Option σ} {seen : σ}
    (h : scanner.lookahead = some (offset, c)) :
    scanner.takeRun goOn seen =
      match goOn seen c with
      | none => (some offset, seen, scanner)
      | some seen => scanner.bump.takeRun goOn seen := by
  cases scanner
  subst h
  rw [takeRun]

theorem next_of_none (h : scanner.lookahead = none) : scanner.next = .ok (none, scanner) := by
  cases scanner
  subst h
  rw [next]

theorem next_of_some (h : scanner.lookahead = some (offset, c)) :
    scanner.next =
      if isGap c then scanner.bump.next
      else (scanner.token offset c).map fun read => (some read.1, read.2) := by
  cases scanner
  subst h
  rw [next]
  rfl

end Scanner

namespace Lexer

/-- The scanner that stands where the lexer stands. -/
def scanner (lexer : Lexer) : Scanner where
  text := lexer.text
  upcoming := (Upcoming.mk lexer.offset lexer.rest).next.2
  lookahead := (Upcoming.mk lexer.offset lexer.rest).next.1
  position := lexer.position

variable {lexer after : Lexer} {passed lexeme : List Char}

@[simp] theorem text_scanner (lexer : Lexer) : lexer.scanner.text = lexer.text := rfl

theorem scanner_ofText (text : String) : (ofText text).scanner = Scanner.ofText text := rfl

theorem lookahead_scanner_of_nil (h : lexer.rest = []) : lexer.scanner.lookahead = none := by
  simp [scanner, Upcoming.next, h]

theorem lookahead_scanner_of_cons {c : Char} {rest : List Char} (h : lexer.rest = c :: rest) :
    lexer.scanner.lookahead = some (lexer.offset, c) := by
  simp [scanner, Upcoming.next, h]

theorem bump_scanner {c : Char} {rest : List Char} (h : lexer.rest = c :: rest) :
    lexer.scanner.bump = (lexer.advance 1).scanner := by
  simp [Scanner.bump, scanner, Upcoming.next, h, advance, utf8Length]

theorem advance_zero (lexer : Lexer) : lexer.advance 0 = lexer := by
  simp [advance, utf8Length]

theorem advance_advance (lexer : Lexer) (first second : Nat) :
    (lexer.advance first).advance second = lexer.advance (first + second) := by
  simp [advance, List.take_add, utf8Length_append, List.drop_drop, Nat.add_assoc]

theorem takeRun_scanner {σ : Type} {goOn : σ → Char → Option σ} {seen last : σ}
    {run rest : List Char} (hrest : lexer.rest = run ++ rest)
    (hrun : run.foldlM goOn seen = some last) (hstop : ∀ c ∈ rest.head?, goOn last c = none) :
    lexer.scanner.takeRun goOn seen =
      ((lexer.advance run.length).scanner.lookahead.map Prod.fst, last,
        (lexer.advance run.length).scanner) := by
  -- The lexer, too, can pass the run one character at a time.
  induction run generalizing lexer seen with
  | nil =>
    obtain rfl : seen = last := Option.some.inj hrun
    rw [List.length_nil, advance_zero]
    cases rest with
    | nil =>
      have hnone := lookahead_scanner_of_nil hrest
      rw [Scanner.takeRun_of_none hnone, hnone]
      rfl
    | cons c rest =>
      have hsome := lookahead_scanner_of_cons hrest
      rw [Scanner.takeRun_of_some hsome, hsome, hstop c rfl]
      rfl
  | cons c run ih =>
    rw [List.foldlM_cons, Option.bind_eq_bind, Option.bind_eq_some_iff] at hrun
    obtain ⟨next, hc, hrun⟩ := hrun
    have hafter : (lexer.advance 1).rest = run ++ rest := by simp [advance, hrest]
    rw [Scanner.takeRun_of_some (lookahead_scanner_of_cons hrest), hc, bump_scanner hrest,
      List.length_cons, Nat.add_comm, ← advance_advance]
    exact ih hafter hrun

theorem HasPassed.advance_take (h : lexer.HasPassed passed) (count : Nat) :
    (lexer.advance count).HasPassed (passed ++ lexer.rest.take count) where
  toList_eq := by
    rw [Lexer.advance, List.append_assoc, List.take_append_drop]
    exact h.toList_eq
  position_eq := by rw [Lexer.advance, h.position_eq, List.length_append]
  offset_eq := by rw [Lexer.advance, h.offset_eq, utf8Length_append]

/-- The text between two states of a lexer can be cut out. -/
theorem HasPassed.slice_eq (h : lexer.HasPassed passed)
    (hafter : after.HasPassed (passed ++ lexeme)) (htext : after.text = lexer.text) :
    slice lexer.text lexer.offset after.offset = .ok (lexer.textUntil after) := by
  have hsplit : lexer.text.toList = passed ++ (lexeme ++ after.rest) := by
    rw [← htext, hafter.toList_eq, List.append_assoc]
  rw [h.textUntil hafter htext, h.offset_eq, hafter.offset_eq]
  exact slice_between hsplit

/-- Where a run stops is where the lexer stands, also at the end of the text. -/
theorem HasPassed.stop_eq (h : lexer.HasPassed passed) :
    (lexer.scanner.lookahead.map Prod.fst).getD lexer.text.utf8ByteSize = lexer.offset := by
  cases hrest : lexer.rest with
  | nil =>
    -- There is no lookahead to stop at, but all bytes of the text have been passed.
    have hpassed : lexer.text.toList = passed := by rw [h.toList_eq, hrest, List.append_nil]
    rw [lookahead_scanner_of_nil hrest, h.offset_eq, ← hpassed, utf8Length_eq_utf8Len,
      String.utf8Len_toList]
    rfl
  | cons c rest =>
    rw [lookahead_scanner_of_cons hrest]
    rfl

/-- A run of characters is passed, and what it cuts out is what the lexer cuts out. -/
theorem HasPassed.takeRun_slice (h : lexer.HasPassed passed) {σ : Type}
    {goOn : σ → Char → Option σ} {seen last : σ} {run rest : List Char}
    (hrest : lexer.rest = run ++ rest) (hrun : run.foldlM goOn seen = some last)
    (hstop : ∀ c ∈ rest.head?, goOn last c = none) :
    ∃ stop?, lexer.scanner.takeRun goOn seen =
        (stop?, last, (lexer.advance run.length).scanner) ∧
      slice lexer.text lexer.offset (stop?.getD lexer.text.utf8ByteSize) =
        .ok (lexer.textUntil (lexer.advance run.length)) := by
  refine ⟨_, takeRun_scanner hrest hrun hstop, ?_⟩
  have hafter := (h.advance hrest).1
  have hoffset : ((lexer.advance run.length).scanner.lookahead.map Prod.fst).getD
      lexer.text.utf8ByteSize = (lexer.advance run.length).offset := hafter.stop_eq
  rw [hoffset]
  exact h.slice_eq hafter rfl

theorem foldlM_of_fixed {σ : Type} {goOn : σ → Char → Option σ} {seen : σ} {run : List Char}
    (h : ∀ c ∈ run, goOn seen c = some seen) : run.foldlM goOn seen = some seen := by
  induction run with
  | nil => rfl
  | cons c run ih =>
    obtain ⟨hc, hrun⟩ := List.forall_mem_cons.mp h
    rw [List.foldlM_cons, hc]
    exact ih hrun

/-- A scanner lets the characters of a number go that the lexer cuts off, and has seen a point
among them exactly if the number is a float. -/
theorem exists_number_run {c : Char} (hc : c.isDigit = true) (chars : List Char) :
    ∃ seenPoint rest, chars = (numberTail chars).2 ++ rest ∧
      (c :: (numberTail chars).2).foldlM Scanner.numberGoesOn false = some seenPoint ∧
      (numberTail chars).1 = (if seenPoint then .float else .integer) ∧
      ∀ d ∈ rest.head?, Scanner.numberGoesOn seenPoint d = none := by
  have hdigits (seen : Bool) (run : List Char) :
      (run.takeWhile Char.isDigit).foldlM Scanner.numberGoesOn seen = some seen :=
    foldlM_of_fixed fun d hd => if_pos (List.mem_takeWhile_imp hd)
  have hfirst : Scanner.numberGoesOn false c = some false := if_pos hc
  have hhead := Lexeme.head?_dropWhile_not (p := Char.isDigit) chars
  have hsplit := List.takeWhile_append_dropWhile (p := Char.isDigit) (l := chars)
  generalize hdrop : chars.dropWhile Char.isDigit = after at hhead hsplit
  unfold numberTail
  rw [hdrop]
  split
  next fraction =>
    refine ⟨true, fraction.dropWhile Char.isDigit, ?_, ?_, rfl, fun d hd => ?_⟩
    · simpa using hsplit.symm
    · have hpoint : Scanner.numberGoesOn false '.' = some true := rfl
      simp [List.foldlM_append, hfirst, hdigits, hpoint]
    · have hd := Lexeme.head?_dropWhile_not fraction d hd
      simp [Scanner.numberGoesOn, hd]
  next hnopoint =>
    refine ⟨false, after, hsplit.symm, ?_, rfl, fun d hd => ?_⟩
    · rw [List.foldlM_cons, hfirst]
      exact hdigits false chars
    · obtain ⟨rest, rfl⟩ := List.head?_eq_some_iff.mp hd
      have hpoint : d ≠ '.' := fun heq => hnopoint rest (by rw [heq])
      simp [Scanner.numberGoesOn, hhead d rfl, hpoint]

theorem not_isReserved_of_isAlpha {c : Char} (h : c.isAlpha = true) : ¬ isReserved c = true := by
  intro hreserved
  rcases (Lexeme.isReserved_iff c).mp hreserved with
    rfl | rfl | rfl | rfl | rfl | rfl | rfl | rfl | rfl | rfl | rfl | rfl <;>
    exact absurd h (by decide)

/-- What is read of a lexer's next characters as one token, and the scanner after it. -/
def cutOff (lexer : Lexer) (kind : Kind) (count : Nat) : Token × Scanner :=
  (⟨kind, lexer.textUntil (lexer.advance count), lexer.position⟩, (lexer.advance count).scanner)

section Tokens

variable {c : Char} {rest : List Char}

theorem HasPassed.single_scanner (h : lexer.HasPassed passed) (hrest : lexer.rest = c :: rest)
    (kind : Kind) :
    lexer.scanner.single kind lexer.offset c = .ok (lexer.cutOff kind 1) := by
  have hsplit : lexer.rest = [c] ++ rest := hrest
  have hafter := (h.advance hsplit).1
  have hoffset : (lexer.advance 1).offset = lexer.offset + c.utf8Size := by
    simp [Lexer.advance, hrest, utf8Length]
  have hcut := h.slice_eq hafter rfl
  rw [List.length_singleton, hoffset] at hcut
  rw [Scanner.single, text_scanner, hcut, bump_scanner hrest]
  rfl

theorem HasPassed.number_scanner (h : lexer.HasPassed passed) (hrest : lexer.rest = c :: rest)
    (hc : c.isDigit = true) :
    lexer.scanner.number lexer.offset =
      .ok (lexer.cutOff (numberTail rest).1 ((numberTail rest).2.length + 1)) := by
  obtain ⟨seenPoint, after, hsplit, hrun, hkind, hstop⟩ := exists_number_run hc rest
  have hnumber : lexer.rest = (c :: (numberTail rest).2) ++ after := by
    rw [hrest, List.cons_append, ← hsplit]
  obtain ⟨stop?, htake, hcut⟩ := h.takeRun_slice hnumber hrun hstop
  simp only [Scanner.number, htake, text_scanner, hcut, hkind]
  rfl

theorem HasPassed.identifier_scanner (h : lexer.HasPassed passed)
    (hrest : lexer.rest = c :: rest) (hc : c.isAlpha = true) :
    lexer.scanner.identifier lexer.offset =
      .ok (lexer.cutOff .identifier ((rest.takeWhile fun d => !isReserved d).length + 1)) := by
  have hsplit := List.takeWhile_append_dropWhile (p := fun d => !isReserved d) (l := rest)
  have hidentifier : lexer.rest = (c :: rest.takeWhile fun d => !isReserved d) ++
      rest.dropWhile fun d => !isReserved d := by
    rw [hrest, List.cons_append, hsplit]
  have hrun : (c :: rest.takeWhile fun d => !isReserved d).foldlM Scanner.identifierGoesOn () =
      some () := by
    refine foldlM_of_fixed (List.forall_mem_cons.mpr ⟨?_, fun d hd => ?_⟩)
    · exact if_neg (not_isReserved_of_isAlpha hc)
    · have hd := List.mem_takeWhile_imp hd
      exact if_neg (by simpa using hd)
  have hstop : ∀ d ∈ (rest.dropWhile fun d => !isReserved d).head?,
      Scanner.identifierGoesOn () d = none := by
    intro d hd
    have hd := Lexeme.head?_dropWhile_not rest d hd
    exact if_pos (by simpa using hd)
  obtain ⟨stop?, htake, hcut⟩ := h.takeRun_slice hidentifier hrun hstop
  simp only [Scanner.identifier, htake, text_scanner, hcut]
  rfl

/-- A scanner reads the token that the lexer cuts off. -/
theorem HasPassed.token_scanner (h : lexer.HasPassed passed) (hrest : lexer.rest = c :: rest) :
    lexer.scanner.token lexer.offset c =
      .ok (lexer.cutOff (lexemeTail c rest).1 ((lexemeTail c rest).2.length + 1)) := by
  unfold Scanner.token lexemeTail
  cases signKind? c with
  | some kind => exact h.single_scanner hrest kind
  | none =>
    by_cases hdigit : c.isDigit = true
    · simp only [if_pos hdigit]
      exact h.number_scanner hrest hdigit
    · by_cases hletter : c.isAlpha = true
      · simp only [if_neg hdigit, if_pos hletter]
        exact h.identifier_scanner hrest hletter
      · simp only [if_neg hdigit, if_neg hletter]
        exact h.single_scanner hrest .invalid

end Tokens

theorem next_scanner_of_gap {gap rest : List Char} (hrest : lexer.rest = gap ++ rest)
    (hgap : ∀ c ∈ gap, isGap c = true) :
    lexer.scanner.next = (lexer.advance gap.length).scanner.next := by
  induction gap generalizing lexer with
  | nil => rw [List.length_nil, advance_zero]
  | cons c gap ih =>
    obtain ⟨hc, hgap⟩ := List.forall_mem_cons.mp hgap
    have hafter : (lexer.advance 1).rest = gap ++ rest := by simp [advance, hrest]
    rw [Scanner.next_of_some (lookahead_scanner_of_cons hrest), if_pos hc, bump_scanner hrest,
      ih hafter hgap, advance_advance, List.length_cons, Nat.add_comm]

/-- A scanner and a lexer that stand in the same place give the same token and go on in step. -/
theorem HasPassed.next_scanner (h : lexer.HasPassed passed) :
    lexer.scanner.next = .ok (lexer.next.1, lexer.next.2.scanner) := by
  have hsplit := (List.takeWhile_append_dropWhile (p := isGap) (l := lexer.rest)).symm
  have hhead := Lexeme.head?_dropWhile_not (p := isGap) lexer.rest
  obtain ⟨hskipped, hrest⟩ := h.advance hsplit
  rw [← hrest] at hhead
  rw [next_scanner_of_gap hsplit fun c hc => List.mem_takeWhile_imp hc, Lexer.next,
    Lexer.skipGap]
  generalize lexer.advance (lexer.rest.takeWhile isGap).length = skipped at hskipped hhead
  cases hmore : skipped.rest with
  | nil => exact Scanner.next_of_none (lookahead_scanner_of_nil hmore)
  | cons c rest =>
    rw [hmore] at hhead
    rw [Scanner.next_of_some (lookahead_scanner_of_cons hmore), hhead c rfl,
      hskipped.token_scanner hmore]
    rfl

end Lexer

end CurriedLambda
