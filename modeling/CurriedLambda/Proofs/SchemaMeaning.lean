import CurriedLambda.Proofs.JsonFields
import CurriedLambda.Report.Schema
import Mathlib.Algebra.Order.Field.Rat

/-!
What a schema says about values. A schema is a value itself, and its keywords are its
members: a value is valid if it meets all of them. Numbers count by their value, however
they are written, and a keyword says nothing of values of other types.
-/
namespace CurriedLambda

/-- The number that a numeral stands for. -/
def Json.Numeral.value (numeral : Json.Numeral) : ℚ :=
  (if numeral.negative then -1 else 1) * Nat.ofDigitChars 10 numeral.fraction numeral.whole *
    10 ^ (numeral.exponent.getD 0 - numeral.fraction.length)

theorem Json.Numeral.value_ofNat (n : Nat) : (ofNat n).value = n := by
  simp [value, ofNat]

namespace Schema

/-- The types that a value has. A number is an integer if it has no fractional part, however
it is written. -/
def HasType (name : String) : Json → Prop
  | .null => name = "null"
  | .bool _ => name = "boolean"
  | .number numeral => name = "number" ∨ name = "integer" ∧ ∃ n : ℤ, numeral.value = n
  | .string _ => name = "string"
  | .array _ => name = "array"
  | .object _ => name = "object"

/-- The keywords that say nothing about values. -/
def annotations : List String :=
  ["$schema", "title", "description", "format", "$defs"]

mutual

/-- The value meets every keyword of the schema, which is a part of `document`. -/
inductive Validates (document : Json) : Json → Json → Prop
  | keywords {keywords : List (String × Json)} {value : Json}
      (h : ∀ keyword ∈ keywords, Meets document keyword.1 keyword.2 value) :
      Validates document (.record keywords) value

/-- The value meets a keyword with this argument. -/
inductive Meets (document : Json) : String → Json → Json → Prop
  | silent {keyword : String} {argument value : Json} (h : keyword ∈ annotations) :
      Meets document keyword argument value
  | type {name : String} {value : Json} (h : HasType name value) :
      Meets document "type" (.text name) value
  | minimum {bound : Json.Numeral} {value : Json}
      (h : ∀ numeral, value = .number numeral → bound.value ≤ numeral.value) :
      Meets document "minimum" (.number bound) value
  | maximum {bound : Json.Numeral} {value : Json}
      (h : ∀ numeral, value = .number numeral → numeral.value ≤ bound.value) :
      Meets document "maximum" (.number bound) value
  | items {schema value : Json}
      (h : ∀ elements, value = .array elements →
        ∀ element ∈ elements, Validates document schema element) :
      Meets document "items" schema value
  | required {names : List String} {value : Json}
      (h : ∀ members, value = .object members →
        ∀ name ∈ names, ∃ member, (Json.CodePoint.ofString name, member) ∈ members) :
      Meets document "required" (.array (names.map .text)) value
  | properties {schemas : List (String × Json)} {value : Json}
      (h : ∀ members, value = .object members → ∀ name schema, (name, schema) ∈ schemas →
        ∀ member, (Json.CodePoint.ofString name, member) ∈ members →
          Validates document schema member) :
      Meets document "properties" (.record schemas) value
  /-- A reference to a definition, whose name needs no escape in a pointer. -/
  | ref {keywords definitions : List (String × Json)} {name : String} {schema value : Json}
      (hdocument : document = .record keywords)
      (hdefinitions : Json.HasField keywords "$defs" (.record definitions))
      (hname : ∀ c ∈ name.toList, c.isAlphanum) (hschema : Json.HasField definitions name schema)
      (h : Validates document schema value) :
      Meets document "$ref" (.text ("#/$defs/" ++ name)) value

end

variable {document value : Json}

theorem validates_record_iff {keywords : List (String × Json)} :
    Validates document (.record keywords) value ↔
      ∀ keyword ∈ keywords, Meets document keyword.1 keyword.2 value := by
  refine ⟨fun h => ?_, .keywords⟩
  generalize hschema : Json.record keywords = schema at h
  cases h with
  | keywords h => rwa [Json.record_injective hschema]

theorem meets_type_iff {name : String} :
    Meets document "type" (.text name) value ↔ HasType name value := by
  refine ⟨fun h => ?_, .type⟩
  -- No constructor makes a text of a name, so the cases are taken of any keyword and argument.
  generalize hkeyword : "type" = keyword, hargument : Json.text name = argument at h
  cases h with
  | type h => rwa [Json.text_injective hargument]
  | silent h => simp [← hkeyword, annotations] at h
  | _ => simp at hkeyword

theorem meets_minimum_iff {bound : Json.Numeral} :
    Meets document "minimum" (.number bound) value ↔
      ∀ numeral, value = .number numeral → bound.value ≤ numeral.value := by
  refine ⟨fun h => ?_, .minimum⟩
  generalize hkeyword : "minimum" = keyword, hargument : Json.number bound = argument at h
  cases h with
  | minimum h =>
    cases hargument
    exact h
  | silent h => simp [← hkeyword, annotations] at h
  | _ => simp at hkeyword

theorem meets_maximum_iff {bound : Json.Numeral} :
    Meets document "maximum" (.number bound) value ↔
      ∀ numeral, value = .number numeral → numeral.value ≤ bound.value := by
  refine ⟨fun h => ?_, .maximum⟩
  generalize hkeyword : "maximum" = keyword, hargument : Json.number bound = argument at h
  cases h with
  | maximum h =>
    cases hargument
    exact h
  | silent h => simp [← hkeyword, annotations] at h
  | _ => simp at hkeyword

theorem meets_items_iff {schema : Json} :
    Meets document "items" schema value ↔
      ∀ elements, value = .array elements → ∀ element ∈ elements,
        Validates document schema element := by
  refine ⟨fun h => ?_, .items⟩
  generalize hkeyword : "items" = keyword at h
  cases h with
  | items h => exact h
  | silent h => simp [← hkeyword, annotations] at h
  | _ => simp at hkeyword

theorem meets_required_iff {names : List String} :
    Meets document "required" (.array (names.map .text)) value ↔
      ∀ members, value = .object members →
        ∀ name ∈ names, ∃ member, (Json.CodePoint.ofString name, member) ∈ members := by
  refine ⟨fun h => ?_, .required⟩
  generalize hkeyword : "required" = keyword,
    hargument : Json.array (names.map .text) = argument at h
  cases h with
  | required h =>
    rw [Json.array.injEq] at hargument
    rwa [List.map_injective_iff.mpr Json.text_injective hargument]
  | silent h => simp [← hkeyword, annotations] at h
  | _ => simp at hkeyword

theorem meets_properties_iff {schemas : List (String × Json)} :
    Meets document "properties" (.record schemas) value ↔
      ∀ members, value = .object members → ∀ name schema, (name, schema) ∈ schemas →
        ∀ member, (Json.CodePoint.ofString name, member) ∈ members →
          Validates document schema member := by
  refine ⟨fun h => ?_, .properties⟩
  generalize hkeyword : "properties" = keyword, hargument : Json.record schemas = argument at h
  cases h with
  | properties h => rwa [Json.record_injective hargument]
  | silent h => simp [← hkeyword, annotations] at h
  | _ => simp at hkeyword

theorem meets_ref_iff {keywords definitions : List (String × Json)} {name : String}
    {schema : Json} (hdocument : document = .record keywords)
    (hdefinitions : Json.HasField keywords "$defs" (.record definitions))
    (hname : ∀ c ∈ name.toList, c.isAlphanum) (hschema : Json.HasField definitions name schema) :
    Meets document "$ref" (.text ("#/$defs/" ++ name)) value ↔
      Validates document schema value := by
  refine ⟨fun h => ?_, .ref hdocument hdefinitions hname hschema⟩
  generalize hkeyword : "$ref" = keyword,
    hargument : Json.text ("#/$defs/" ++ name) = argument at h
  cases h with
  | ref hother hotherDefinitions _ hotherSchema h =>
    cases Json.record_injective (hdocument.symm.trans hother)
    cases Json.record_injective (hdefinitions.unique hotherDefinitions.1)
    cases (String.append_right_inj _).mp (Json.text_injective hargument)
    rwa [hschema.unique hotherSchema.1]
  | silent h => simp [← hkeyword, annotations] at h
  | _ => simp at hkeyword

theorem hasType_string_iff : HasType "string" value ↔ ∃ content, value = .string content := by
  cases value <;> simp [HasType]

theorem hasType_integer_iff :
    HasType "integer" value ↔ ∃ numeral, value = .number numeral ∧ ∃ n : ℤ, numeral.value = n := by
  cases value <;> simp [HasType]

theorem hasType_array_iff : HasType "array" value ↔ ∃ elements, value = .array elements := by
  cases value <;> simp [HasType]

theorem hasType_object_iff : HasType "object" value ↔ ∃ members, value = .object members := by
  cases value <;> simp [HasType]

theorem propertyList_eq_map (properties : List (String × Schema)) :
    propertyList properties = properties.map fun (name, schema) => (name, schema.toJson) := by
  induction properties with
  | nil => rfl
  | cons property rest ih => rw [propertyList, ih]; rfl

theorem validates_toJson_iff {schema : Schema} {keywords : List (String × Json)}
    (h : schema.keywords = keywords) :
    Validates document schema.toJson value ↔
      ∀ keyword ∈ keywords, Meets document keyword.1 keyword.2 value := by
  rw [toJson, h, validates_record_iff]

theorem validates_string_iff :
    Validates document string.toJson value ↔ ∃ content, value = .string content := by
  rw [validates_toJson_iff (by rw [keywords]), List.forall_mem_singleton, meets_type_iff,
    hasType_string_iff]

theorem validates_integer_iff {format : String} {maximum : Option Nat} :
    Validates document (integer format maximum).toJson value ↔
      ∃ numeral, value = .number numeral ∧
        ∃ n : ℕ, numeral.value = n ∧ ∀ bound ∈ maximum, n ≤ bound := by
  have hformat : Meets document "format" (.text format) value := .silent (by decide)
  rw [validates_toJson_iff (by rw [keywords])]
  simp only [List.forall_mem_append, List.forall_mem_cons, List.forall_mem_map, Option.mem_toList,
    meets_type_iff, hasType_integer_iff, Json.natural, meets_minimum_iff, meets_maximum_iff,
    Json.Numeral.value_ofNat]
  constructor
  · rintro ⟨⟨⟨numeral, rfl, n, hn⟩, -, hminimum, -⟩, hmaximum⟩
    have hnonneg : 0 ≤ n := by exact_mod_cast hn ▸ hminimum numeral rfl
    obtain ⟨n, rfl⟩ := Int.eq_ofNat_of_zero_le hnonneg
    refine ⟨numeral, rfl, n, by exact_mod_cast hn, fun bound hbound => ?_⟩
    exact_mod_cast hn ▸ hmaximum bound hbound numeral rfl
  · rintro ⟨numeral, rfl, n, hn, hmaximum⟩
    refine ⟨⟨⟨numeral, rfl, n, by exact_mod_cast hn⟩, hformat, ?_, List.forall_mem_nil _⟩, ?_⟩
    · rintro _ ⟨⟩
      rw [hn]
      exact_mod_cast n.zero_le
    · rintro bound hbound _ ⟨⟩
      rw [hn]
      exact_mod_cast hmaximum bound hbound

theorem validates_array_iff {items : Schema} :
    Validates document (array items).toJson value ↔
      ∃ elements, value = .array elements ∧
        ∀ element ∈ elements, Validates document items.toJson element := by
  rw [validates_toJson_iff (by rw [keywords, ← toJson]), List.forall_mem_cons,
    List.forall_mem_singleton, meets_type_iff, hasType_array_iff, meets_items_iff]
  constructor
  · rintro ⟨⟨elements, rfl⟩, h⟩
    exact ⟨elements, rfl, h elements rfl⟩
  · rintro ⟨elements, rfl, h⟩
    refine ⟨⟨elements, rfl⟩, ?_⟩
    rintro _ ⟨⟩
    exact h

theorem validates_object_iff {properties : List (String × Schema)} {required : List String} :
    Validates document (object properties required).toJson value ↔
      ∃ members, value = .object members ∧
        (∀ name schema, (name, schema) ∈ properties → ∀ member,
          (Json.CodePoint.ofString name, member) ∈ members →
            Validates document schema.toJson member) ∧
        ∀ name ∈ required, ∃ member, (Json.CodePoint.ofString name, member) ∈ members := by
  rw [validates_toJson_iff (by rw [keywords, propertyList_eq_map]), List.forall_mem_cons,
    List.forall_mem_cons, List.forall_mem_singleton, meets_type_iff, hasType_object_iff,
    meets_properties_iff, meets_required_iff]
  constructor
  · rintro ⟨⟨members, rfl⟩, hproperties, hrequired⟩
    refine ⟨members, rfl, fun name schema hschema => ?_, hrequired members rfl⟩
    exact hproperties members rfl name schema.toJson (List.mem_map_of_mem hschema)
  · rintro ⟨members, rfl, hproperties, hrequired⟩
    refine ⟨⟨members, rfl⟩, ?_, ?_⟩
    · rintro _ ⟨⟩ name _ hschema
      obtain ⟨⟨_, schema⟩, hmem, heq⟩ := List.mem_map.mp hschema
      cases heq
      exact hproperties name schema hmem
    · rintro _ ⟨⟩
      exact hrequired

theorem validates_described_iff {description : String} {schema : Schema} :
    Validates document (described description schema).toJson value ↔
      Validates document schema.toJson value := by
  have hdescription : Meets document "description" (.text description) value :=
    .silent (by decide)
  rw [validates_toJson_iff (by rw [keywords]), List.forall_mem_cons, validates_toJson_iff rfl]
  exact and_iff_right hdescription

theorem validates_definition_iff {keywords definitions : List (String × Json)} {name : String}
    {schema : Json} (hdocument : document = .record keywords)
    (hdefinitions : Json.HasField keywords "$defs" (.record definitions))
    (hname : ∀ c ∈ name.toList, c.isAlphanum) (hschema : Json.HasField definitions name schema) :
    Validates document (definition name).toJson value ↔ Validates document schema value := by
  rw [validates_toJson_iff (by rw [Schema.keywords]), List.forall_mem_singleton]
  exact meets_ref_iff hdocument hdefinitions hname hschema

end Schema

end CurriedLambda
