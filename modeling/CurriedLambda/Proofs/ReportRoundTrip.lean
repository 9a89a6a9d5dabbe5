import CurriedLambda.Proofs.ReportLoading

/-!
Reports and their JSON text. A record is written as the members of an object, each named
for its field, and its fields are found again by these names; what a field holds is read
back from its value. So every report is loaded from its rendering, whether or not it has
tokens, and no two reports are rendered alike.
-/
namespace CurriedLambda

namespace Json

theorem isLaidOut_fields {names : List String} {values : List Json}
    (h : ∀ value ∈ values, value.IsLaidOut) : IsLaidOut (record (names.zip values)) :=
  isLaidOut_record fun _ hfield => h _ (List.of_mem_zip hfield).2

end Json

theorem allHeldBy_map {α : Type} {Held : α → List (String × Json) → Prop}
    {toJson : α → Json} (h : ∀ item, ∃ members, toJson item = .record members ∧ Held item members)
    (items : List α) : AllHeldBy Held items (items.map toJson) :=
  List.forall₂_map_left_iff.mpr (List.forall₂_same.mpr fun item _ => h item)

namespace TokenRecord

theorem exists_heldBy_toJson (token : TokenRecord) :
    ∃ members, token.toJson = .record members ∧ token.HeldBy members := by
  refine ⟨_, rfl, ?_⟩
  constructor <;> exact Json.hasField_zip (by decide) le_rfl (by simp [fieldNames])

theorem isLaidOut_toJson (token : TokenRecord) : token.toJson.IsLaidOut :=
  Json.isLaidOut_fields (by simp [Json.isLaidOut_text, Json.isLaidOut_natural])

end TokenRecord

namespace DiagnosticRecord

theorem exists_heldBy_toJson (diagnostic : DiagnosticRecord) :
    ∃ members, diagnostic.toJson = .record members ∧ diagnostic.HeldBy members := by
  refine ⟨_, rfl, ?_⟩
  constructor <;> exact Json.hasField_zip (by decide) le_rfl (by simp [fieldNames])

theorem isLaidOut_toJson (diagnostic : DiagnosticRecord) : diagnostic.toJson.IsLaidOut :=
  Json.isLaidOut_fields (by simp [Json.isLaidOut_text, Json.isLaidOut_natural])

end DiagnosticRecord

namespace Report

theorem toJson_of_tokens_eq_nil {report : Report} (h : report.tokens = []) :
    report.toJson =
      .record [("diagnostics", .array (report.diagnostics.map DiagnosticRecord.toJson))] := by
  rw [toJson, if_pos h]

theorem toJson_of_tokens_ne_nil {report : Report} (h : report.tokens ≠ []) :
    report.toJson =
      .record [("tokens", .array (report.tokens.map TokenRecord.toJson)),
        ("diagnostics", .array (report.diagnostics.map DiagnosticRecord.toJson))] := by
  rw [toJson, if_neg h]

/-- A report is held by the object that it is written as, also if its tokens are left out. -/
theorem exists_heldBy_toJson (report : Report) :
    ∃ fields, report.toJson = .record fields ∧ ListsRecords fields ∧ report.HeldBy fields := by
  have htokens := allHeldBy_map TokenRecord.exists_heldBy_toJson report.tokens
  have hdiagnostics := allHeldBy_map DiagnosticRecord.exists_heldBy_toJson report.diagnostics
  by_cases hempty : report.tokens = []
  · refine ⟨_, toJson_of_tokens_eq_nil hempty, ?_, .inl ⟨by simp, hempty⟩, _, ?_, hdiagnostics⟩
    · simp [ListsRecords, DiagnosticRecord.toJson]
    · exact Json.hasField_of_mem (by simp) (by simp)
  · refine ⟨_, toJson_of_tokens_ne_nil hempty, ?_, .inr ⟨_, ?_, htokens⟩, _, ?_, hdiagnostics⟩
    · simp [ListsRecords, TokenRecord.toJson, DiagnosticRecord.toJson]
    · exact Json.hasField_of_mem (by simp) (by simp)
    · exact Json.hasField_of_mem (by simp) (by simp)

theorem ofJson?_toJson (report : Report) : ofJson? report.toJson = some report := by
  obtain ⟨fields, hjson, hrecords, hheld⟩ := report.exists_heldBy_toJson
  rw [hjson, ofJson?_record_eq_some_iff hrecords]
  exact hheld

theorem isLaidOut_toJson (report : Report) : report.toJson.IsLaidOut := by
  have htokens : Json.IsLaidOut (.array (report.tokens.map TokenRecord.toJson)) :=
    Json.isLaidOut_array (List.forall_mem_map.mpr fun token _ => token.isLaidOut_toJson)
  have hdiagnostics : Json.IsLaidOut (.array (report.diagnostics.map DiagnosticRecord.toJson)) :=
    Json.isLaidOut_array (List.forall_mem_map.mpr fun diagnostic _ => diagnostic.isLaidOut_toJson)
  refine Json.isLaidOut_record ?_
  split <;> simp [htokens, hdiagnostics]

/-- A rendered report is loaded again, also with white space after it. -/
theorem load_render_append (report : Report) {gap : List Char} (hgap : Json.IsGap gap) :
    load (report.render ++ String.ofList gap) = some report := by
  have hspelled := Json.spelledBy_render_append report.isLaidOut_toJson hgap
  rw [load, render, Json.parse_of_spelledBy hspelled]
  exact report.ofJson?_toJson

/-- Loading undoes rendering, for every report, also when there are no tokens and their
member is left out. So reports that are rendered alike are the same, and rendering a
loaded report gives a text that loads as the same report again. -/
theorem load_render_roundTrip :
    (∀ report : Report, load report.render = some report) ∧
      (∀ report : Report, report.tokens = [] → Json.parse report.render =
        some (.record
          [("diagnostics", .array (report.diagnostics.map DiagnosticRecord.toJson))])) ∧
      Function.Injective render ∧
      ∀ text, (load text).bind (fun report => load report.render) = load text := by
  have hparse : ∀ report : Report, Json.parse report.render = some report.toJson :=
    fun report => Json.parse_render report.isLaidOut_toJson
  have hload : ∀ report : Report, load report.render = some report := fun report => by
    simpa using report.load_render_append Json.isGap_nil
  refine ⟨hload, fun report hempty => ?_, fun first second h => ?_, fun text => ?_⟩
  · rw [hparse, toJson_of_tokens_eq_nil hempty]
  · exact Option.some.inj (by rw [← hload first, h, hload second])
  · cases load text with
    | none => rfl
    | some report => exact hload report

end Report

end CurriedLambda
