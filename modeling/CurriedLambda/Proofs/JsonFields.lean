import CurriedLambda.Report.Loading
import Mathlib.Data.List.Forall2
import Mathlib.Data.List.Nodup

/-!
Reading JSON values one by one: which value a string, a number or an array is read from,
and which members the fields of a record are read from. A field is found if one member
and no other has its name, wherever it stands and whatever else there is.
-/
namespace CurriedLambda

theorem mapM_eq_some_iff_forall₂ {α β : Type} {f : α → Option β} {xs : List α} {ys : List β} :
    xs.mapM f = some ys ↔ List.Forall₂ (fun x y => f x = some y) xs ys := by
  induction xs generalizing ys with
  | nil => cases ys <;> simp
  | cons x xs ih => cases ys <;> simp [Option.bind_eq_some_iff, ih]

theorem exists_forall₂_iff {α β : Type} {R : α → β → Prop} {xs : List α} :
    (∃ ys, List.Forall₂ R xs ys) ↔ ∀ x ∈ xs, ∃ y, R x y := by
  induction xs with
  | nil => simp
  | cons x xs ih =>
    rw [List.forall_mem_cons, ← ih]
    constructor
    · rintro ⟨_, h⟩
      cases h with
      | cons hhead htail => exact ⟨⟨_, hhead⟩, _, htail⟩
    · rintro ⟨⟨y, hhead⟩, ys, htail⟩
      exact ⟨y :: ys, .cons hhead htail⟩

namespace Json

theorem CodePoint.characters?_eq_some_iff {content : List CodePoint} {chars : List Char} :
    characters? content = some chars ↔ content = chars.map scalar := by
  induction content generalizing chars with
  | nil => cases chars <;> simp [characters?]
  | cons point rest ih => cases point <;> cases chars <;> simp [characters?, ih, and_comm]

theorem CodePoint.toString?_eq_some_iff {content : List CodePoint} {text : String} :
    toString? content = some text ↔ content = ofString text := by
  simp [toString?, ofString, ← characters?_eq_some_iff, String.ext_iff]

theorem CodePoint.ofString_injective : Function.Injective ofString := by
  intro first second h
  have htext := congrArg toString? h
  rw [toString?_ofString, toString?_ofString] at htext
  exact Option.some.inj htext

theorem text?_eq_some_iff {json : Json} {content : String} :
    json.text? = some content ↔ json = text content := by
  cases json <;> simp [text?, text, CodePoint.toString?_eq_some_iff]

@[simp]
theorem text?_text (content : String) : (text content).text? = some content :=
  text?_eq_some_iff.mpr rfl

theorem text_injective : Function.Injective text :=
  fun _ _ h => CodePoint.ofString_injective (string.inj h)

theorem Numeral.toNat?_eq_some_iff {numeral : Numeral} {n : Nat} :
    numeral.toNat? = some n ↔ numeral = ofNat n := by
  constructor
  · intro h
    unfold toNat? at h
    split at h
    · next heq => rwa [Option.some.inj h] at heq
    · cases h
  · rintro rfl
    exact toNat?_ofNat n

theorem natural?_eq_some_iff {json : Json} {n : Nat} :
    json.natural? = some n ↔ json = natural n := by
  cases json <;> simp [natural?, natural, Numeral.toNat?_eq_some_iff]

theorem below?_eq_some_iff {bound : Nat} {json : Json} {n : { n : Nat // n < bound }} :
    json.below? bound = some n ↔ json = natural n.val := by
  simp only [below?, Option.bind_eq_bind, Option.bind_eq_some_iff, natural?_eq_some_iff]
  constructor
  · rintro ⟨m, rfl, h⟩
    split at h
    · rw [← Option.some.inj h]
    · cases h
  · rintro rfl
    exact ⟨n.val, rfl, dif_pos n.property⟩

theorem byte?_eq_some_iff {json : Json} {n : UInt8} :
    json.byte? = some n ↔ json = natural n.toNat := by
  simp only [byte?, Option.map_eq_some_iff, below?_eq_some_iff]
  constructor
  · rintro ⟨m, rfl, rfl⟩
    simp
  · rintro rfl
    exact ⟨⟨n.toNat, n.toNat_lt_size⟩, rfl, by simp⟩

@[simp]
theorem byte?_natural (n : UInt8) : (natural n.toNat).byte? = some n :=
  byte?_eq_some_iff.mpr rfl

theorem word?_eq_some_iff {json : Json} {n : UInt64} :
    json.word? = some n ↔ json = natural n.toNat := by
  simp only [word?, Option.map_eq_some_iff, below?_eq_some_iff]
  constructor
  · rintro ⟨m, rfl, rfl⟩
    simp
  · rintro rfl
    exact ⟨⟨n.toNat, n.toNat_lt_size⟩, rfl, by simp⟩

@[simp]
theorem word?_natural (n : UInt64) : (natural n.toNat).word? = some n :=
  word?_eq_some_iff.mpr rfl

theorem elements?_eq_some_iff {json : Json} {elements : List Json} :
    json.elements? = some elements ↔ json = array elements := by
  cases json <;> simp [elements?]

theorem named?_record (fields : List (String × Json)) :
    named? (fields.map fun (name, value) => (CodePoint.ofString name, value)) = some fields := by
  refine mapM_eq_some_iff_forall₂.mpr (List.forall₂_map_left_iff.mpr ?_)
  exact List.forall₂_same.mpr fun field _ => by simp [CodePoint.toString?_ofString]

theorem record_injective : Function.Injective record := by
  intro first second h
  rw [record, record, object.injEq] at h
  have hnamed := congrArg named? h
  rw [named?_record, named?_record] at hnamed
  exact Option.some.inj hnamed

theorem mem_record_iff {members : List (String × Json)} {name : String} {value : Json} :
    (CodePoint.ofString name, value) ∈
        members.map (fun (name, value) => (CodePoint.ofString name, value)) ↔
      (name, value) ∈ members := by
  simp [CodePoint.ofString_injective.eq_iff]

/-- There is just one member of this name, and it has this value. -/
def HasField (members : List (String × Json)) (name : String) (value : Json) : Prop :=
  (name, value) ∈ members ∧ (members.map Prod.fst).count name = 1

theorem mem_valuesOf {members : List (String × Json)} {name : String} {value : Json} :
    value ∈ valuesOf members name ↔ (name, value) ∈ members := by
  simp [valuesOf]

theorem length_valuesOf (members : List (String × Json)) (name : String) :
    (valuesOf members name).length = (members.map Prod.fst).count name := by
  rw [valuesOf, List.length_map, List.count, List.countP_map, List.countP_eq_length_filter]
  rfl

theorem valuesOf_eq_singleton_iff {members : List (String × Json)} {name : String}
    {value : Json} : valuesOf members name = [value] ↔ HasField members name value := by
  rw [HasField, ← mem_valuesOf, ← length_valuesOf, List.length_eq_one_iff]
  constructor
  · intro h
    simp [h]
  · rintro ⟨hmem, _, h⟩
    rw [h, List.mem_singleton] at hmem
    rw [h, hmem]

theorem valuesOf_eq_nil_iff {members : List (String × Json)} {name : String} :
    valuesOf members name = [] ↔ name ∉ members.map Prod.fst := by
  rw [← List.length_eq_zero_iff, length_valuesOf, List.count_eq_zero]

theorem valueOf?_eq_some_iff {members : List (String × Json)} {name : String} {value : Json} :
    valueOf? members name = some value ↔ HasField members name value := by
  rw [← valuesOf_eq_singleton_iff, valueOf?]
  split
  · next h => simp [h]
  · next h => simpa using fun hvalue => h value hvalue

/-- The fields of a record are found exactly if each has a member of its own. -/
theorem fields?_record_eq_some_iff {members : List (String × Json)} {names : List String}
    {values : List Json} :
    (record members).fields? names = some values ↔
      List.Forall₂ (HasField members) names values := by
  simp [record, fields?, named?_record, mapM_eq_some_iff_forall₂, valueOf?_eq_some_iff]

/-- The only value of a field. -/
theorem HasField.unique {members : List (String × Json)} {name : String} {first second : Json}
    (hfirst : HasField members name first) (hsecond : (name, second) ∈ members) :
    first = second := by
  rw [← valuesOf_eq_singleton_iff] at hfirst
  simpa [hfirst, eq_comm] using mem_valuesOf.mpr hsecond

theorem hasField_of_mem {members : List (String × Json)} {name : String} {value : Json}
    (hnodup : (members.map Prod.fst).Nodup) (hmem : (name, value) ∈ members) :
    HasField members name value :=
  ⟨hmem, List.count_eq_one_of_mem hnodup (List.mem_map_of_mem hmem)⟩

/-- Values that are written under different names are found under them. -/
theorem hasField_zip {names : List String} {values : List Json} {name : String} {value : Json}
    (hnodup : names.Nodup) (hlength : names.length ≤ values.length)
    (hmem : (name, value) ∈ names.zip values) : HasField (names.zip values) name value :=
  hasField_of_mem (by rwa [List.map_fst_zip hlength]) hmem

end Json

end CurriedLambda
