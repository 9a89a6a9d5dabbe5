import CurriedLambda.Proofs.ReportRoundTrip
import CurriedLambda.Proofs.SchemaMeaning

/-!
Reports are valid under their schema. What a field may hold is what its schema says, and
the schema of a record names the fields that its shape has. So all that has the shape of a
report is valid, and with it every report as it is written, with or without tokens.
-/
namespace CurriedLambda

open Schema

section Shapes

variable {document : Json}

theorem FieldType.Admits.validates_string {value : Json} (h : text.Admits value) :
    Validates document Schema.string.toJson value := by
  obtain ⟨content, rfl⟩ := h
  exact validates_string_iff.mpr ⟨_, rfl⟩

theorem FieldType.Admits.validates_integer {value : Json} {bound : Nat} {format : String}
    {maximum : Option Nat} (h : (natural bound).Admits value)
    (hmaximum : ∀ m ∈ maximum, bound ≤ m + 1) :
    Validates document (Schema.integer format maximum).toJson value := by
  obtain ⟨n, hn, rfl⟩ := h
  refine validates_integer_iff.mpr ⟨_, rfl, n, Json.Numeral.value_ofNat n, fun m hm => ?_⟩
  exact Nat.le_of_lt_succ (hn.trans_le (hmaximum m hm))

/-- An object of this shape is valid if the schema asks for no other field, and of each field
for no more than the shape does. -/
theorem HasShape.validates {shape : List (String × FieldType)} {members : List (String × Json)}
    {properties : List (String × Schema)} {required : List String} (h : HasShape shape members)
    (hproperties : ∀ property ∈ properties, ∃ type, (property.1, type) ∈ shape ∧
      ∀ value, type.Admits value → Validates document property.2.toJson value)
    (hrequired : ∀ name ∈ required, ∃ type, (name, type) ∈ shape) :
    Validates document (Schema.object properties required).toJson (.record members) := by
  refine validates_object_iff.mpr ⟨_, rfl, fun name schema hschema member hmember => ?_,
    fun name hname => ?_⟩
  · obtain ⟨type, htype, hvalid⟩ := hproperties _ hschema
    obtain ⟨value, hadmits, hfield⟩ := h _ htype
    have hvalue := hfield.unique (Json.mem_record_iff.mp hmember)
    exact hvalid member (hvalue ▸ hadmits)
  · obtain ⟨type, htype⟩ := hrequired name hname
    obtain ⟨value, -, hfield⟩ := h _ htype
    exact ⟨value, Json.mem_record_iff.mpr hfield.1⟩

theorem AllHaveShape.validates {shape : List (String × FieldType)} {elements : List Json}
    {items : Schema} (h : AllHaveShape shape elements)
    (hitems : ∀ members, HasShape shape members →
      Validates document items.toJson (.record members)) :
    Validates document (Schema.array items).toJson (.array elements) := by
  refine validates_array_iff.mpr ⟨elements, rfl, fun element helement => ?_⟩
  obtain ⟨members, rfl, hmembers⟩ := h element helement
  exact hitems members hmembers

theorem TokenRecord.validates_of_hasShape {members : List (String × Json)}
    (h : HasShape shape members) : Validates document schema.toJson (.record members) := by
  refine h.validates ?_ (by simp [fieldNames, shape])
  simp only [fieldNames, List.zip_cons_cons, List.zip_nil_right, List.forall_mem_cons]
  exact ⟨⟨.natural UInt8.size, by simp [shape], fun _ h => h.validates_integer (by simp)⟩,
    ⟨.text, by simp [shape], fun _ h => h.validates_string⟩,
    ⟨.text, by simp [shape], fun _ h => h.validates_string⟩,
    ⟨.natural UInt64.size, by simp [shape], fun _ h => h.validates_integer (by simp)⟩,
    ⟨.natural UInt64.size, by simp [shape], fun _ h => h.validates_integer (by simp)⟩,
    List.forall_mem_nil _⟩

theorem DiagnosticRecord.validates_of_hasShape {members : List (String × Json)}
    (h : HasShape shape members) : Validates document schema.toJson (.record members) := by
  have hword : ∀ value, (FieldType.natural UInt64.size).Admits value →
      Validates document Schema.natural.toJson value := fun _ h => h.validates_integer (by simp)
  refine h.validates ?_ (by simp [fieldNames, shape])
  simp only [fieldNames, List.zip_cons_cons, List.zip_nil_right, List.forall_mem_cons]
  exact ⟨⟨.text, by simp [shape], fun _ h => h.validates_string⟩,
    ⟨.text, by simp [shape], fun _ h => h.validates_string⟩,
    ⟨.natural UInt64.size, by simp [shape], hword⟩, ⟨.natural UInt64.size, by simp [shape], hword⟩,
    ⟨.natural UInt64.size, by simp [shape], fun _ h => validates_described_iff.mpr (hword _ h)⟩,
    ⟨.natural UInt64.size, by simp [shape], fun _ h => validates_described_iff.mpr (hword _ h)⟩,
    List.forall_mem_nil _⟩

end Shapes

namespace Schema

mutual

theorem isLaidOut_keywords (schema : Schema) :
    ∀ keyword ∈ schema.keywords, keyword.2.IsLaidOut := by
  cases schema with
  | definition name => simp [keywords, Json.isLaidOut_text]
  | string => simp [keywords, Json.isLaidOut_text]
  | integer format maximum =>
    cases maximum <;> simp [keywords, Json.isLaidOut_text, Json.isLaidOut_natural]
  | array items =>
    simp [keywords, Json.isLaidOut_text, Json.isLaidOut_record items.isLaidOut_keywords]
  | object properties required =>
    have hrequired : Json.IsLaidOut (.array (required.map .text)) :=
      Json.isLaidOut_array (List.forall_mem_map.mpr fun name _ => Json.isLaidOut_text name)
    simp [keywords, Json.isLaidOut_text, hrequired,
      Json.isLaidOut_record (isLaidOut_propertyList properties)]
  | described description schema =>
    rw [keywords, List.forall_mem_cons]
    exact ⟨Json.isLaidOut_text description, schema.isLaidOut_keywords⟩

theorem isLaidOut_propertyList (properties : List (String × Schema)) :
    ∀ property ∈ propertyList properties, property.2.IsLaidOut := by
  cases properties with
  | nil => simp [propertyList]
  | cons property rest =>
    rw [propertyList, List.forall_mem_cons]
    exact ⟨Json.isLaidOut_record property.2.isLaidOut_keywords, isLaidOut_propertyList rest⟩

end

end Schema

namespace Report

/-- The keywords around the schema of a report, in front and behind. -/
def header : List (String × Json) :=
  [("$schema", .text "https://json-schema.org/draft/2020-12/schema"), ("title", .text "Report")]

def trailer : List (String × Json) :=
  [("$defs", .record (propertyList definitions))]

theorem schemaDocument_eq : schemaDocument = .record (header ++ schema.keywords ++ trailer) :=
  rfl

theorem isLaidOut_schemaDocument : schemaDocument.IsLaidOut := by
  have hheader : ∀ keyword ∈ header, keyword.2.IsLaidOut := by
    simp [header, Json.isLaidOut_text]
  have htrailer : ∀ keyword ∈ trailer, keyword.2.IsLaidOut :=
    List.forall_mem_singleton.mpr (Json.isLaidOut_record (isLaidOut_propertyList definitions))
  rw [schemaDocument_eq]
  refine Json.isLaidOut_record (List.forall_mem_append.mpr ⟨?_, htrailer⟩)
  exact List.forall_mem_append.mpr ⟨hheader, isLaidOut_keywords schema⟩

/-- The document says of values what the schema of a report says. -/
theorem validates_schemaDocument_iff {value : Json} :
    Validates schemaDocument schemaDocument value ↔
      Validates schemaDocument schema.toJson value := by
  have hheader : ∀ keyword ∈ header, Meets schemaDocument keyword.1 keyword.2 value := by
    have hannotations : ∀ keyword ∈ header, keyword.1 ∈ annotations := by
      simp [header, annotations]
    exact fun keyword hkeyword => .silent (hannotations keyword hkeyword)
  have htrailer : ∀ keyword ∈ trailer, Meets schemaDocument keyword.1 keyword.2 value :=
    List.forall_mem_singleton.mpr (.silent (by simp [annotations]))
  change Validates schemaDocument (.record (header ++ schema.keywords ++ trailer)) value ↔ _
  rw [validates_record_iff, List.forall_mem_append, List.forall_mem_append,
    validates_toJson_iff rfl]
  exact ⟨fun h => h.1.2, fun h => ⟨⟨hheader, h⟩, htrailer⟩⟩

theorem validates_definition_iff_of_mem {name : String} {definition : Schema} {value : Json}
    (h : (name, definition) ∈ definitions) :
    Validates schemaDocument (Schema.definition name).toJson value ↔
      Validates schemaDocument definition.toJson value := by
  have hplain : ∀ definition ∈ definitions, ∀ c ∈ definition.1.toList, c.isAlphanum := by
    simp [definitions]
  have hdefs : Json.HasField (header ++ schema.keywords ++ trailer) "$defs"
      (.record (propertyList definitions)) :=
    Json.hasField_of_mem (by decide) (by simp [trailer])
  have hdefinition : Json.HasField (propertyList definitions) name definition.toJson := by
    rw [propertyList_eq_map]
    exact Json.hasField_of_mem (by decide) (List.mem_map_of_mem h)
  exact validates_definition_iff schemaDocument_eq hdefs (hplain _ h) hdefinition

/-- What has the shape of a report is valid, whatever other members it has. -/
theorem validates_of_hasShape {fields : List (String × Json)} (h : HasShape fields) :
    Validates schemaDocument schemaDocument (.record fields) := by
  have htokens : ∀ elements, AllHaveShape TokenRecord.shape elements →
      Validates schemaDocument (Schema.array (.definition "TokenRecord")).toJson
        (.array elements) := fun elements hshape =>
    hshape.validates fun members hmembers =>
      (validates_definition_iff_of_mem (by simp [definitions])).mpr
        (TokenRecord.validates_of_hasShape hmembers)
  have hdiagnostics : ∀ elements, AllHaveShape DiagnosticRecord.shape elements →
      Validates schemaDocument (Schema.array (.definition "DiagnosticRecord")).toJson
        (.array elements) := fun elements hshape =>
    hshape.validates fun members hmembers =>
      (validates_definition_iff_of_mem (by simp [definitions])).mpr
        (DiagnosticRecord.validates_of_hasShape hmembers)
  obtain ⟨htokensShape, elements, hfield, hshape⟩ := h
  rw [validates_schemaDocument_iff, schema, validates_object_iff]
  refine ⟨_, rfl, ?_, List.forall_mem_singleton.mpr ⟨_, Json.mem_record_iff.mpr hfield.1⟩⟩
  simp only [List.mem_cons, List.not_mem_nil, or_false, Json.mem_record_iff]
  rintro name schema (heq | heq) member hmember <;> cases heq
  · rcases htokensShape with habsent | ⟨tokens, htokensField, htokensShape⟩
    · exact absurd (List.mem_map.mpr ⟨_, hmember, rfl⟩) habsent
    · rw [← htokensField.unique hmember]
      exact htokens tokens htokensShape
  · rw [← hfield.unique hmember]
    exact hdiagnostics elements hshape

/-- Every report is valid under the published schema: both are JSON texts, and the value of
the one meets all that the other says. -/
theorem render_validates (report : Report) :
    ∃ document value, Json.parse schemaDocument.render = some document ∧
      Json.parse report.render = some value ∧ Validates document document value := by
  obtain ⟨fields, hjson, -, hheld⟩ := report.exists_heldBy_toJson
  refine ⟨schemaDocument, report.toJson, Json.parse_render isLaidOut_schemaDocument,
    Json.parse_render report.isLaidOut_toJson, ?_⟩
  rw [hjson]
  exact validates_of_hasShape (hasShape_iff_exists_heldBy.mpr ⟨report, hheld⟩)

end Report

end CurriedLambda
