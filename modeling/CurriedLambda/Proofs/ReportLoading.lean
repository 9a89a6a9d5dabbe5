import CurriedLambda.Proofs.JsonFields
import CurriedLambda.Proofs.JsonText

/-!
Which JSON texts load as a report, and as which. A record has members for all of its
fields, and they hold what the record is made of; a report may leave its tokens out. The
shapes of reports and records say what each field may hold. So an object loads exactly if
it has the shape of a report, and however its text spells it.
-/
namespace CurriedLambda

/-- What a field of a record holds. -/
inductive FieldType
  | text
  /-- A number below this bound, of digits only. -/
  | natural (bound : Nat)

namespace FieldType

def Admits : FieldType → Json → Prop
  | text, json => ∃ content, json = .text content
  | natural bound, json => ∃ n < bound, json = .natural n

theorem admits_byte_iff {json : Json} :
    (natural UInt8.size).Admits json ↔ ∃ n : UInt8, json = .natural n.toNat := by
  constructor
  · rintro ⟨n, hn, rfl⟩
    exact ⟨UInt8.ofNatLT n hn, by simp⟩
  · rintro ⟨n, rfl⟩
    exact ⟨n.toNat, n.toNat_lt_size, rfl⟩

theorem admits_word_iff {json : Json} :
    (natural UInt64.size).Admits json ↔ ∃ n : UInt64, json = .natural n.toNat := by
  constructor
  · rintro ⟨n, hn, rfl⟩
    exact ⟨UInt64.ofNatLT n hn, by simp⟩
  · rintro ⟨n, rfl⟩
    exact ⟨n.toNat, n.toNat_lt_size, rfl⟩

end FieldType

/-- The members of an object have all these fields, each with a value of its type. -/
def HasShape (shape : List (String × FieldType)) (members : List (String × Json)) : Prop :=
  ∀ field ∈ shape, ∃ value, field.2.Admits value ∧ Json.HasField members field.1 value

namespace TokenRecord

def shape : List (String × FieldType) :=
  [("code", .natural UInt8.size), ("kind", .text), ("text", .text), ("start", .natural UInt64.size),
    ("length", .natural UInt64.size)]

/-- The members of an object hold what the token is made of. -/
structure HeldBy (token : TokenRecord) (members : List (String × Json)) : Prop where
  code : Json.HasField members "code" (.natural token.code.toNat)
  kind : Json.HasField members "kind" (.text token.kind)
  text : Json.HasField members "text" (.text token.text)
  start : Json.HasField members "start" (.natural token.start.toNat)
  length : Json.HasField members "length" (.natural token.length.toNat)

theorem ofJson?_record_eq_some_iff {members : List (String × Json)} {token : TokenRecord} :
    ofJson? (.record members) = some token ↔ token.HeldBy members := by
  simp only [ofJson?, Option.bind_eq_bind, Option.bind_eq_some_iff,
    Json.fields?_record_eq_some_iff]
  constructor
  · rintro ⟨values, hvalues, hread⟩
    split at hread
    · simp only [Option.bind_eq_some_iff, Json.text?_eq_some_iff, Json.byte?_eq_some_iff,
        Json.word?_eq_some_iff] at hread
      obtain ⟨_, rfl, _, rfl, _, rfl, _, rfl, _, rfl, hread⟩ := hread
      cases hread
      simp [fieldNames] at hvalues
      obtain ⟨hcode, hkind, htext, hstart, hlength⟩ := hvalues
      exact ⟨hcode, hkind, htext, hstart, hlength⟩
    · cases hread
  · rintro ⟨hcode, hkind, htext, hstart, hlength⟩
    refine ⟨[.natural token.code.toNat, .text token.kind, .text token.text,
      .natural token.start.toNat, .natural token.length.toNat], ?_, by simp⟩
    simp [fieldNames, *]

theorem hasShape_iff_exists_heldBy {members : List (String × Json)} :
    HasShape shape members ↔ ∃ token : TokenRecord, token.HeldBy members := by
  simp only [HasShape, shape, List.forall_mem_cons, FieldType.admits_byte_iff,
    FieldType.admits_word_iff]
  constructor
  · rintro ⟨⟨_, ⟨code, rfl⟩, hcode⟩, ⟨_, ⟨kind, rfl⟩, hkind⟩, ⟨_, ⟨text, rfl⟩, htext⟩,
      ⟨_, ⟨start, rfl⟩, hstart⟩, ⟨_, ⟨length, rfl⟩, hlength⟩, -⟩
    exact ⟨⟨code, kind, text, start, length⟩, hcode, hkind, htext, hstart, hlength⟩
  · rintro ⟨token, hcode, hkind, htext, hstart, hlength⟩
    exact ⟨⟨_, ⟨_, rfl⟩, hcode⟩, ⟨_, ⟨_, rfl⟩, hkind⟩, ⟨_, ⟨_, rfl⟩, htext⟩,
      ⟨_, ⟨_, rfl⟩, hstart⟩, ⟨_, ⟨_, rfl⟩, hlength⟩, List.forall_mem_nil _⟩

end TokenRecord

namespace DiagnosticRecord

def shape : List (String × FieldType) :=
  [("code", .text), ("message", .text), ("start", .natural UInt64.size),
    ("length", .natural UInt64.size), ("line", .natural UInt64.size),
    ("column", .natural UInt64.size)]

/-- The members of an object hold what the diagnostic is made of. -/
structure HeldBy (diagnostic : DiagnosticRecord) (members : List (String × Json)) : Prop where
  code : Json.HasField members "code" (.text diagnostic.code)
  message : Json.HasField members "message" (.text diagnostic.message)
  start : Json.HasField members "start" (.natural diagnostic.start.toNat)
  length : Json.HasField members "length" (.natural diagnostic.length.toNat)
  line : Json.HasField members "line" (.natural diagnostic.line.toNat)
  column : Json.HasField members "column" (.natural diagnostic.column.toNat)

theorem ofJson?_record_eq_some_iff {members : List (String × Json)}
    {diagnostic : DiagnosticRecord} :
    ofJson? (.record members) = some diagnostic ↔ diagnostic.HeldBy members := by
  simp only [ofJson?, Option.bind_eq_bind, Option.bind_eq_some_iff,
    Json.fields?_record_eq_some_iff]
  constructor
  · rintro ⟨values, hvalues, hread⟩
    split at hread
    · simp only [Option.bind_eq_some_iff, Json.text?_eq_some_iff,
        Json.word?_eq_some_iff] at hread
      obtain ⟨_, rfl, _, rfl, _, rfl, _, rfl, _, rfl, _, rfl, hread⟩ := hread
      cases hread
      simp only [fieldNames, List.forall₂_cons, List.forall₂_nil_left_iff] at hvalues
      obtain ⟨hcode, hmessage, hstart, hlength, hline, hcolumn, -⟩ := hvalues
      exact ⟨hcode, hmessage, hstart, hlength, hline, hcolumn⟩
    · cases hread
  · rintro ⟨hcode, hmessage, hstart, hlength, hline, hcolumn⟩
    refine ⟨[.text diagnostic.code, .text diagnostic.message, .natural diagnostic.start.toNat,
      .natural diagnostic.length.toNat, .natural diagnostic.line.toNat,
      .natural diagnostic.column.toNat], ?_, by simp⟩
    simp [fieldNames, *]

theorem hasShape_iff_exists_heldBy {members : List (String × Json)} :
    HasShape shape members ↔ ∃ diagnostic : DiagnosticRecord, diagnostic.HeldBy members := by
  simp only [HasShape, shape, List.forall_mem_cons, FieldType.admits_word_iff]
  constructor
  · rintro ⟨⟨_, ⟨code, rfl⟩, hcode⟩, ⟨_, ⟨message, rfl⟩, hmessage⟩, ⟨_, ⟨start, rfl⟩, hstart⟩,
      ⟨_, ⟨length, rfl⟩, hlength⟩, ⟨_, ⟨line, rfl⟩, hline⟩, ⟨_, ⟨column, rfl⟩, hcolumn⟩, -⟩
    exact ⟨⟨code, message, start, length, line, column⟩, hcode, hmessage, hstart, hlength, hline,
      hcolumn⟩
  · rintro ⟨diagnostic, hcode, hmessage, hstart, hlength, hline, hcolumn⟩
    exact ⟨⟨_, ⟨_, rfl⟩, hcode⟩, ⟨_, ⟨_, rfl⟩, hmessage⟩, ⟨_, ⟨_, rfl⟩, hstart⟩,
      ⟨_, ⟨_, rfl⟩, hlength⟩, ⟨_, ⟨_, rfl⟩, hline⟩, ⟨_, ⟨_, rfl⟩, hcolumn⟩,
      List.forall_mem_nil _⟩

end DiagnosticRecord

section Lists

variable {α : Type} {ofJson? : Json → Option α} {Held : α → List (String × Json) → Prop}
  {elements : List Json} {items : List α}

/-- Objects whose members have all these fields. -/
def AllHaveShape (shape : List (String × FieldType)) (elements : List Json) : Prop :=
  ∀ element ∈ elements, ∃ members, element = .record members ∧ HasShape shape members

/-- Objects that hold the items, in the same order. -/
def AllHeldBy (Held : α → List (String × Json) → Prop) (items : List α) (elements : List Json) :
    Prop :=
  List.Forall₂ (fun element item => ∃ members, element = .record members ∧ Held item members)
    elements items

theorem mapM_ofJson?_eq_some_iff
    (hread : ∀ members item, ofJson? (.record members) = some item ↔ Held item members)
    (hrecords : ∀ element ∈ elements, ∃ members, element = .record members) :
    elements.mapM ofJson? = some items ↔ AllHeldBy Held items elements := by
  -- Element by element, as long as only objects are read.
  have hpoint : ∀ element item,
      ((∃ members, element = .record members) ∧ ofJson? element = some item) ↔
        ∃ members, element = .record members ∧ Held item members := by
    intro element item
    constructor
    · rintro ⟨⟨members, rfl⟩, hitem⟩
      exact ⟨members, rfl, (hread members item).mp hitem⟩
    · rintro ⟨members, rfl, hheld⟩
      exact ⟨⟨members, rfl⟩, (hread members item).mpr hheld⟩
  simp only [AllHeldBy, ← hpoint, List.forall₂_and_left, mapM_eq_some_iff_forall₂]
  exact (and_iff_right hrecords).symm

theorem allHaveShape_iff_exists {shape : List (String × FieldType)}
    (hshape : ∀ members, HasShape shape members ↔ ∃ item, Held item members) :
    AllHaveShape shape elements ↔ ∃ items, AllHeldBy Held items elements := by
  simp only [AllHaveShape, AllHeldBy, exists_forall₂_iff, hshape, ← exists_and_left]
  exact forall₂_congr fun _ _ => exists_comm

end Lists

namespace Report

/-- The members of an object have the shape of a report, which may leave its tokens out. -/
structure HasShape (fields : List (String × Json)) : Prop where
  tokens : "tokens" ∉ fields.map Prod.fst ∨
    ∃ elements, Json.HasField fields "tokens" (.array elements) ∧
      AllHaveShape TokenRecord.shape elements
  diagnostics : ∃ elements, Json.HasField fields "diagnostics" (.array elements) ∧
    AllHaveShape DiagnosticRecord.shape elements

/-- The members of an object hold the records of the report in their order. -/
structure HeldBy (report : Report) (fields : List (String × Json)) : Prop where
  tokens : "tokens" ∉ fields.map Prod.fst ∧ report.tokens = [] ∨
    ∃ elements, Json.HasField fields "tokens" (.array elements) ∧
      AllHeldBy TokenRecord.HeldBy report.tokens elements
  diagnostics : ∃ elements, Json.HasField fields "diagnostics" (.array elements) ∧
    AllHeldBy DiagnosticRecord.HeldBy report.diagnostics elements

/-- The elements of an array of tokens or diagnostics are objects. -/
def ListsRecords (fields : List (String × Json)) : Prop :=
  ∀ name ∈ ["tokens", "diagnostics"], ∀ elements, (name, .array elements) ∈ fields →
    ∀ element ∈ elements, ∃ members, element = .record members

theorem ofFields?_none_eq_some_iff {diagnostics : Json} {report : Report} :
    ofFields? none diagnostics = some report ↔
      report.tokens = [] ∧ ∃ elements, diagnostics = .array elements ∧
        elements.mapM DiagnosticRecord.ofJson? = some report.diagnostics := by
  simp only [ofFields?, Option.bind_eq_bind, Option.bind_some, Option.bind_eq_some_iff,
    Json.elements?_eq_some_iff]
  constructor
  · rintro ⟨elements, rfl, diagnostics, hdiagnostics, hreport⟩
    cases hreport
    exact ⟨rfl, elements, rfl, hdiagnostics⟩
  · rintro ⟨hnil, elements, rfl, hdiagnostics⟩
    refine ⟨elements, rfl, report.diagnostics, hdiagnostics, ?_⟩
    rw [← hnil]
    rfl

theorem ofFields?_some_eq_some_iff {tokens diagnostics : Json} {report : Report} :
    ofFields? (some tokens) diagnostics = some report ↔
      (∃ elements, tokens = .array elements ∧
        elements.mapM TokenRecord.ofJson? = some report.tokens) ∧
      ∃ elements, diagnostics = .array elements ∧
        elements.mapM DiagnosticRecord.ofJson? = some report.diagnostics := by
  simp only [ofFields?, Option.bind_eq_bind, Option.bind_eq_some_iff, Json.elements?_eq_some_iff]
  constructor
  · rintro ⟨first, rfl, tokens, htokens, second, rfl, diagnostics, hdiagnostics, hreport⟩
    cases hreport
    exact ⟨⟨first, rfl, htokens⟩, second, rfl, hdiagnostics⟩
  · rintro ⟨⟨first, rfl, htokens⟩, second, rfl, hdiagnostics⟩
    exact ⟨first, rfl, report.tokens, htokens, second, rfl, report.diagnostics, hdiagnostics, rfl⟩

theorem ofJson?_record_iff_ofFields? {fields : List (String × Json)} {report : Report} :
    ofJson? (.record fields) = some report ↔
      ∃ diagnostics, Json.HasField fields "diagnostics" diagnostics ∧
        ("tokens" ∉ fields.map Prod.fst ∧ ofFields? none diagnostics = some report ∨
          ∃ tokens, Json.HasField fields "tokens" tokens ∧
            ofFields? (some tokens) diagnostics = some report) := by
  simp only [ofJson?, Json.record, Json.named?_record, Option.bind_eq_bind, Option.bind_some,
    Option.bind_eq_some_iff, Json.valueOf?_eq_some_iff, ← Json.valuesOf_eq_nil_iff,
    ← Json.valuesOf_eq_singleton_iff]
  refine exists_congr fun diagnostics => and_congr_right fun _ => ?_
  split <;> simp_all

theorem ofJson?_record_eq_some_iff {fields : List (String × Json)} {report : Report}
    (hrecords : ListsRecords fields) :
    ofJson? (.record fields) = some report ↔ report.HeldBy fields := by
  have htokens : ∀ elements, Json.HasField fields "tokens" (.array elements) →
      (elements.mapM TokenRecord.ofJson? = some report.tokens ↔
        AllHeldBy TokenRecord.HeldBy report.tokens elements) := fun elements hfield =>
    mapM_ofJson?_eq_some_iff (fun _ _ => TokenRecord.ofJson?_record_eq_some_iff)
      (hrecords "tokens" (by simp) elements hfield.1)
  have hdiagnostics : ∀ elements, Json.HasField fields "diagnostics" (.array elements) →
      (elements.mapM DiagnosticRecord.ofJson? = some report.diagnostics ↔
        AllHeldBy DiagnosticRecord.HeldBy report.diagnostics elements) := fun elements hfield =>
    mapM_ofJson?_eq_some_iff (fun _ _ => DiagnosticRecord.ofJson?_record_eq_some_iff)
      (hrecords "diagnostics" (by simp) elements hfield.1)
  rw [ofJson?_record_iff_ofFields?]
  constructor
  · rintro ⟨_, hfield, ⟨habsent, hreport⟩ | ⟨_, htokensField, hreport⟩⟩
    · obtain ⟨hnil, elements, rfl, hread⟩ := ofFields?_none_eq_some_iff.mp hreport
      exact ⟨.inl ⟨habsent, hnil⟩, elements, hfield, (hdiagnostics _ hfield).mp hread⟩
    · obtain ⟨⟨tokens, rfl, hreadTokens⟩, elements, rfl, hread⟩ :=
        ofFields?_some_eq_some_iff.mp hreport
      exact ⟨.inr ⟨tokens, htokensField, (htokens _ htokensField).mp hreadTokens⟩, elements,
        hfield, (hdiagnostics _ hfield).mp hread⟩
  · rintro ⟨htokensHeld, elements, hfield, hheld⟩
    have hread := (hdiagnostics _ hfield).mpr hheld
    refine ⟨_, hfield, htokensHeld.imp ?_ ?_⟩
    · rintro ⟨habsent, hnil⟩
      exact ⟨habsent, ofFields?_none_eq_some_iff.mpr ⟨hnil, _, rfl, hread⟩⟩
    · rintro ⟨tokens, htokensField, htokensHeld⟩
      exact ⟨_, htokensField, ofFields?_some_eq_some_iff.mpr
        ⟨⟨_, rfl, (htokens _ htokensField).mpr htokensHeld⟩, _, rfl, hread⟩⟩

theorem hasShape_iff_exists_heldBy {fields : List (String × Json)} :
    HasShape fields ↔ ∃ report : Report, report.HeldBy fields := by
  have htokens : ∀ elements, AllHaveShape TokenRecord.shape elements ↔
      ∃ tokens, AllHeldBy TokenRecord.HeldBy tokens elements := fun _ =>
    allHaveShape_iff_exists fun _ => TokenRecord.hasShape_iff_exists_heldBy
  have hdiagnostics : ∀ elements, AllHaveShape DiagnosticRecord.shape elements ↔
      ∃ diagnostics, AllHeldBy DiagnosticRecord.HeldBy diagnostics elements := fun _ =>
    allHaveShape_iff_exists fun _ => DiagnosticRecord.hasShape_iff_exists_heldBy
  constructor
  · rintro ⟨htokensShape, elements, hfield, hshape⟩
    obtain ⟨diagnostics, hheld⟩ := (hdiagnostics _).mp hshape
    rcases htokensShape with habsent | ⟨others, htokensField, htokensShape⟩
    · exact ⟨⟨[], diagnostics⟩, .inl ⟨habsent, rfl⟩, elements, hfield, hheld⟩
    · obtain ⟨tokens, htokensHeld⟩ := (htokens _).mp htokensShape
      exact ⟨⟨tokens, diagnostics⟩, .inr ⟨others, htokensField, htokensHeld⟩, elements, hfield,
        hheld⟩
  · rintro ⟨report, htokensHeld, elements, hfield, hheld⟩
    refine ⟨htokensHeld.imp And.left ?_, elements, hfield, (hdiagnostics _).mpr ⟨_, hheld⟩⟩
    rintro ⟨others, htokensField, htokensHeld⟩
    exact ⟨others, htokensField, (htokens _).mpr ⟨_, htokensHeld⟩⟩

/-- A text that spells an object loads exactly if the object has the shape of a report, and
then as the report whose records its members hold, whatever else they are and however the
text spells them. -/
theorem load_spelled_record {text : String} {fields : List (String × Json)}
    (hspelled : (Json.record fields).SpelledBy text) (hrecords : ListsRecords fields) :
    ((load text).isSome ↔ HasShape fields) ∧
      ∀ report, load text = some report ↔ report.HeldBy fields := by
  have hload : ∀ report, load text = some report ↔ report.HeldBy fields := by
    intro report
    rw [load, Json.parse_of_spelledBy hspelled]
    exact ofJson?_record_eq_some_iff hrecords
  refine ⟨?_, hload⟩
  rw [Option.isSome_iff_exists, hasShape_iff_exists_heldBy]
  exact exists_congr hload

open Json in
/-- Fields in another order, one that no record has, an escaped key, and white space. -/
theorem load_spelled_record_permuted :
    let tokens : Json := .array [.record [("length", .natural 1), ("kind", .text "?"),
      ("more", .array []), ("text", .text "\n"), ("code", .natural 255), ("start", .natural 0)]]
    let text := "\x7b\"\\u0064iagnostics\":[ ],\"tokens\":" ++ tokens.render ++ "\x7d"
    (Json.record [("diagnostics", .array []), ("tokens", tokens)]).SpelledBy text ∧
      load text = some ⟨[⟨255, "?", "\n", 0, 1⟩], []⟩ := by
  intro tokens text
  have htokens : tokens.IsLaidOut := isLaidOut_array <| List.forall_mem_singleton.mpr <|
    isLaidOut_record (by simp [isLaidOut_natural, isLaidOut_text, isLaidOut_array])
  have hspelled :
      (Json.record [("diagnostics", .array []), ("tokens", tokens)]).SpelledBy text := by
    have hkey : SpellsChars ('\\' :: 'u' :: hexDigits 0x64 ++ "iagnostics".toList)
        "diagnostics".toList :=
      .unit (c := 'd') (spellsUnit_hexDigits (by decide)) (.plain (by simp))
    have htokensKey : SpellsChars "tokens".toList "tokens".toList := .plain (by simp)
    have hempty : Spells ['[', ' ', ']'] (.value (.array [])) :=
      .emptyArray (show IsGap [' '] by simp [IsGap])
    have hfields := Spells.object <|
      .members (.member isGap_nil hkey isGap_nil (.spaced isGap_nil hempty isGap_nil)) <|
      .lastMember (.member isGap_nil htokensKey isGap_nil (.spaced isGap_nil (htokens 0) isGap_nil))
    have hspaced := Spells.spaced isGap_nil hfields isGap_nil
    have hdigits : hexDigits 0x64 = ['0', '0', '6', '4'] := by decide
    simpa [SpelledBy, text, Json.render, hdigits] using hspaced
  have hrecords : ListsRecords [("diagnostics", .array []), ("tokens", tokens)] := by
    simp [ListsRecords, tokens]
  have hheld : TokenRecord.HeldBy ⟨255, "?", "\n", 0, 1⟩
      [("length", .natural 1), ("kind", .text "?"), ("more", .array []), ("text", .text "\n"),
        ("code", .natural 255), ("start", .natural 0)] := by
    constructor <;> simp [HasField]
  refine ⟨hspelled, ((load_spelled_record hspelled hrecords).2 _).mpr ⟨.inr ?_, ?_⟩⟩
  · exact ⟨_, by simp [HasField, tokens], .cons ⟨_, rfl, hheld⟩ .nil⟩
  · exact ⟨[], by simp [HasField], .nil⟩

end Report

end CurriedLambda
