import CurriedLambda.Proofs.JsonReading

/-!
The text of a rendered value spells it. Strings and natural numbers are written as the
grammar has it, and so are arrays and objects, at any depth, if what they hold is. So a
value is what its rendering parses to, also with white space after it.
-/
namespace CurriedLambda.Json

theorem isHexDigit_digitChar {d : Nat} (hd : d < 16) : IsHexDigit (Nat.digitChar d) d := by
  have hall : ∀ i < 16, "0123456789abcdef".toList[i]? = some (Nat.digitChar i) := by decide
  exact .inl (hall d hd)

theorem spellsUnit_hexDigits {n : Nat} (hn : n < 0x10000) : SpellsUnit (hexDigits n) n := by
  have hdigit : ∀ m, IsHexDigit (Nat.digitChar (m % 16)) (m % 16) :=
    fun m => isHexDigit_digitChar (Nat.mod_lt m (by decide))
  have hsum :
      (((n / 0x1000 % 16) * 16 + n / 0x100 % 16) * 16 + n / 0x10 % 16) * 16 + n % 16 = n := by
    omega
  have hdigits := SpellsUnit.digits (hdigit (n / 0x1000)) (hdigit (n / 0x100))
    (hdigit (n / 0x10)) (hdigit n)
  rwa [hsum] at hdigits

/-- A character is written in one of the ways to write it. -/
theorem spells_escapeChar (c : Char) {chars content : List Char} (h : SpellsChars chars content) :
    SpellsChars (escapeChar c ++ chars) (c :: content) := by
  unfold escapeChar
  split
  case h_8 hquote hbackslash _ _ _ _ _ =>
    by_cases hcontrol : c.toNat < 0x20
    · rw [if_pos hcontrol]
      exact .unit (spellsUnit_hexDigits (by omega)) h
    · rw [if_neg hcontrol]
      exact .raw hquote hbackslash (by omega) h
  all_goals exact .letter (by decide) h

theorem spells_escape (content : List Char) :
    SpellsChars ((content.map CodePoint.scalar).flatMap CodePoint.escape) content := by
  induction content with
  | nil => exact .nil
  | cons c content ih => exact spells_escapeChar c ih

theorem isGap_lineBreak (depth : Nat) : IsGap (lineBreak depth) := by
  intro c hc
  rcases List.mem_cons.mp hc with rfl | hspace
  · exact .inr (.inr (.inl rfl))
  · exact .inl (List.eq_of_mem_replicate hspace)

/-- At any depth, the layout of the value spells it. -/
def IsLaidOut (json : Json) : Prop :=
  ∀ depth, Spells (json.layout depth) (.value json)

theorem isLaidOut_natural (n : Nat) : IsLaidOut (natural n) := by
  intro depth
  have hspells := Numeral.Spells.parts false n .absent .absent
  have hlayout : (natural n).layout depth = [] ++ Nat.toDigits 10 n ++ [] ++ [] := by
    simp [natural, Numeral.ofNat, layout, Numeral.render]
  rw [hlayout]
  exact .number hspells

theorem isLaidOut_text (content : String) : IsLaidOut (text content) :=
  fun _ => .text (spells_escape content.toList)

theorem spells_elements {elements : List Json} (h : ∀ element ∈ elements, element.IsLaidOut)
    {first : Json} (hfirst : first.IsLaidOut) (depth outer : Nat) :
    Spells (lineBreak depth ++ first.layout depth ++ layoutElements depth elements ++
      lineBreak outer) (.elements (first :: elements)) := by
  induction elements generalizing first with
  | nil =>
    rw [layoutElements, List.append_nil]
    exact .lastElement (.spaced (isGap_lineBreak depth) (hfirst depth) (isGap_lineBreak outer))
  | cons element rest ih =>
    have hrest := ih (fun other hother => h other (List.mem_cons_of_mem _ hother))
      (h element List.mem_cons_self)
    have hspaced := Spells.spaced (isGap_lineBreak depth) (hfirst depth) isGap_nil
    rw [layoutElements]
    simpa using Spells.element hspaced hrest

theorem isLaidOut_array {elements : List Json} (h : ∀ element ∈ elements, element.IsLaidOut) :
    IsLaidOut (array elements) := by
  intro depth
  cases elements with
  | nil => exact .emptyArray isGap_nil
  | cons first rest =>
    have helements := spells_elements (fun other hother => h other (List.mem_cons_of_mem _ hother))
      (h first List.mem_cons_self) (depth + 1) depth
    exact .array helements

/-- A member as it is written. -/
theorem spells_member (name : String) {json : Json} (h : json.IsLaidOut) (depth : Nat)
    {after : List Char} (hafter : IsGap after) :
    Spells (lineBreak depth ++ quote (CodePoint.ofString name) ++
      ':' :: ' ' :: json.layout depth ++ after) (.member name json) := by
  have hspace : IsGap [' '] := by simp [IsGap]
  have hmember := Spells.member (isGap_lineBreak depth) (spells_escape name.toList) isGap_nil
    (.spaced hspace (h depth) hafter)
  simpa [quote, CodePoint.ofString] using hmember

theorem spells_members {fields : List (String × Json)} (h : ∀ field ∈ fields, field.2.IsLaidOut)
    (name : String) {json : Json} (hjson : json.IsLaidOut) (depth outer : Nat) :
    Spells (lineBreak depth ++ quote (CodePoint.ofString name) ++ ':' :: ' ' :: json.layout depth ++
      layoutMembers depth (fields.map fun (key, value) => (CodePoint.ofString key, value)) ++
      lineBreak outer) (.members ((name, json) :: fields)) := by
  induction fields generalizing name json with
  | nil =>
    have hmember := spells_member name hjson depth (isGap_lineBreak outer)
    simpa [layoutMembers] using Spells.lastMember hmember
  | cons field rest ih =>
    have hrest := ih (fun other hother => h other (List.mem_cons_of_mem _ hother)) field.1
      (h field List.mem_cons_self)
    have hmember := spells_member name hjson depth isGap_nil
    simpa [layoutMembers] using Spells.members hmember hrest

theorem isLaidOut_record {fields : List (String × Json)}
    (h : ∀ field ∈ fields, field.2.IsLaidOut) : IsLaidOut (record fields) := by
  intro depth
  cases fields with
  | nil => exact .emptyObject isGap_nil
  | cons field rest =>
    have hmembers := spells_members
      (fun other hother => h other (List.mem_cons_of_mem _ hother)) field.1
      (h field List.mem_cons_self) (depth + 1) depth
    simpa [record, layout] using Spells.object hmembers

/-- White space may follow the rendering of a value. -/
theorem spelledBy_render_append {json : Json} (h : json.IsLaidOut) {gap : List Char}
    (hgap : IsGap gap) : json.SpelledBy (json.render ++ String.ofList gap) := by
  have hspaced := Spells.spaced isGap_nil (h 0) hgap
  simpa [SpelledBy, render] using hspaced

/-- A value is what its rendering parses to. -/
theorem parse_render {json : Json} (h : json.IsLaidOut) : parse json.render = some json := by
  have hspelled := spelledBy_render_append h isGap_nil
  rw [String.ofList_nil, String.append_empty] at hspelled
  exact parse_of_spelledBy hspelled

end CurriedLambda.Json
