import CallSchema.Proofs.Json.Unique
import CallSchema.Schema.Printer

set_option autoImplicit false

namespace CallSchema.Schema

open Json (fieldText stringText)
open Text (Unique entries afterEntry unique_entries)

def fields : Schema → List (Text × Json)
  | .scalar _ _ => []
  | .array _ items => [("items", itemsJson items)]
  | .object _ properties required =>
    [("properties", .record (propertyFields properties)), ("required", .list (required.map .text))]

theorem toJson_eq (schema : Schema) : schema.toJson =
    described schema.description (("type", .text schema.typeName) :: schema.fields) := by
  cases schema with
  | scalar description type => cases type <;> rfl
  | array | object => rfl

def lead : Option Text → Text
  | none => []
  | some t => fieldText ("description", .text t) ++ [',']

def details (schema : Schema) : Text := afterEntry '}' (schema.fields.map fieldText)

theorem details_array (description : Option Text) (items : Option Schema) :
    (array description items).details = ',' :: (fieldText ("items", itemsJson items) ++ ['}']) := by
  rw [details, fields, List.map_singleton, afterEntry, Text.entries_cons]
  rfl

theorem details_object (description : Option Text) (properties : List (Text × Schema))
    (required : List Text) : (object description properties required).details =
      ',' :: (fieldText ("properties", .record (propertyFields properties)) ++
        ',' :: (fieldText ("required", .list (required.map .text)) ++ ['}'])) := by
  rw [details, fields, List.map_cons, afterEntry, Text.entries_cons, List.map_singleton, afterEntry,
    Text.entries_cons]
  rfl

theorem text_eq (schema : Schema) : schema.text = '{' ::
    (lead schema.description ++ (fieldText ("type", .text schema.typeName) ++ schema.details)) := by
  rw [text, toJson_eq]
  cases schema.description with
  | none =>
    rw [described, Json.compact_record, List.map_cons, Text.entries_cons]
    rfl
  | some t =>
    rw [described, Json.compact_record, List.map_cons, Text.entries_cons, List.map_cons, afterEntry,
      Text.entries_cons, lead, List.append_assoc]
    rfl

theorem fieldText_cancel {name : Text} {v w : Json} {s t : Text}
    (same : fieldText (name, v) ++ s = fieldText (name, w) ++ t) : v.compact ++ s = w.compact ++ t := by
  simp only [fieldText, List.append_assoc] at same
  exact (List.cons.inj (List.append_cancel_left same)).2

theorem fieldText_text_cancel {name x y s t : Text}
    (same : fieldText (name, .text x) ++ s = fieldText (name, .text y) ++ t) : x = y ∧ s = t :=
  Json.unique_stringText x y s t (fieldText_cancel same)

theorem lead_cancel {d e : Option Text} {x y s t : Text}
    (same : lead d ++ (fieldText ("type", .text x) ++ s) = lead e ++ (fieldText ("type", .text y) ++ t)) :
    d = e ∧ x = y ∧ s = t := by
  cases d with
  | none =>
    cases e with
    | none => exact ⟨rfl, fieldText_text_cancel same⟩
    | some v => exact absurd (List.cons.inj (List.cons.inj same).2).1 (by decide)
  | some u =>
    cases e with
    | none => exact absurd (List.cons.inj (List.cons.inj same).2).1 (by decide)
    | some v =>
      simp only [lead, List.append_assoc] at same
      obtain ⟨rfl, rest⟩ := fieldText_text_cancel same
      exact ⟨rfl, fieldText_text_cancel (List.cons.inj rest).2⟩

theorem unique_of_details {schema : Schema}
    (inner : ∀ (other : Schema) (s t : Text), schema.description = other.description →
      schema.typeName = other.typeName → schema.details ++ s = other.details ++ t →
      schema = other ∧ s = t) : Unique text schema := by
  intro other s t same
  simp only [text_eq, List.cons_append, List.append_assoc] at same
  obtain ⟨description, type, rest⟩ := lead_cancel (List.cons.inj same).2
  exact inner other s t description type rest

theorem typeName_scalar (description : Option Text) (type : Scalar) :
    (scalar description type).typeName = (scalar none type).typeName := by
  cases type <;> rfl

theorem typeName_scalar_ne (description : Option Text) (type : Scalar) :
    (scalar description type).typeName ≠ "array".toList ∧
      (scalar description type).typeName ≠ "object".toList := by
  rw [typeName_scalar]
  cases type <;> decide

theorem eq_of_typeName {d e : Option Text} {type other : Scalar}
    (same : (scalar d type).typeName = (scalar e other).typeName) : type = other := by
  rw [typeName_scalar d, typeName_scalar e] at same
  cases type <;> cases other <;> first | rfl | exact absurd same (by decide)

theorem unique_scalar (description : Option Text) (type : Scalar) :
    Unique text (.scalar description type) := by
  refine unique_of_details fun other s t described typed rest => ?_
  cases other with
  | scalar e own =>
    obtain rfl : description = e := described
    obtain rfl := eq_of_typeName typed
    exact ⟨rfl, (List.cons.inj rest).2⟩
  | array => exact absurd typed (typeName_scalar_ne description type).1
  | object => exact absurd typed (typeName_scalar_ne description type).2

theorem text_append_ne (schema : Schema) (s t : Text) : schema.text ++ s ≠ '{' :: '}' :: t := by
  intro same
  rw [text_eq] at same
  have second := (List.cons.inj same).2
  cases description : schema.description with
  | none =>
    rw [description] at second
    exact absurd (List.cons.inj second).1 (by decide)
  | some text =>
    rw [description] at second
    exact absurd (List.cons.inj second).1 (by decide)

theorem unique_items {items : Option Schema} (inner : ∀ schema ∈ items, Unique text schema) :
    Unique (fun items => (itemsJson items).compact) items := by
  intro other s t same
  cases items with
  | none =>
    cases other with
    | none => exact ⟨rfl, List.append_cancel_left same⟩
    | some schema => exact absurd same.symm (text_append_ne schema t _)
  | some schema =>
    cases other with
    | none => exact absurd same (text_append_ne schema s _)
    | some other =>
      obtain ⟨rfl, rest⟩ := inner schema rfl other s t same
      exact ⟨rfl, rest⟩

theorem unique_array (description : Option Text) {items : Option Schema}
    (inner : ∀ schema ∈ items, Unique text schema) : Unique text (.array description items) := by
  refine unique_of_details fun other s t described typed rest => ?_
  cases other with
  | scalar e type => exact absurd typed.symm (typeName_scalar_ne e type).1
  | array e own =>
    obtain rfl : description = e := described
    simp only [details_array, List.cons_append, List.append_assoc] at rest
    obtain ⟨rfl, after⟩ := unique_items inner own _ _ (fieldText_cancel (List.cons.inj rest).2)
    exact ⟨rfl, (List.cons.inj after).2⟩
  | object => exact absurd (show "array".toList = "object".toList from typed) (by decide)

def propertyText (property : Text × Schema) : Text :=
  fieldText (property.1, property.2.toJson)

theorem unique_property {property : Text × Schema} (inner : Unique text property.2) :
    Unique propertyText property := by
  intro other s t same
  simp only [propertyText, fieldText, List.append_assoc] at same
  obtain ⟨name, after⟩ := Json.unique_stringText _ _ _ _ same
  obtain ⟨schema, rest⟩ := inner other.2 s t (List.cons.inj after).2
  exact ⟨Prod.ext name schema, rest⟩

theorem fieldTexts_eq (properties : List (Text × Schema)) :
    (propertyFields properties).map fieldText = properties.map propertyText := by
  induction properties with
  | nil => rfl
  | cons property rest ih =>
    obtain ⟨name, schema⟩ := property
    rw [propertyFields, List.map_cons, ih]
    rfl

theorem unique_properties {properties : List (Text × Schema)}
    (inner : ∀ property ∈ properties, Unique text property.2) :
    Unique (fun properties => (Json.record (propertyFields properties)).compact) properties := by
  intro others s t same
  simp only [Json.compact_record, fieldTexts_eq, List.cons_append] at same
  refine unique_entries (by decide) ?_ (fun property mem => unique_property (inner property mem))
    others s t (List.cons.inj same).2
  intro property s t first
  simp only [propertyText, fieldText, List.append_assoc] at first
  exact Json.stringText_append_ne (by decide) _ _ _ first

theorem unique_object (description : Option Text) {properties : List (Text × Schema)}
    (required : List Text) (inner : ∀ property ∈ properties, Unique text property.2) :
    Unique text (.object description properties required) := by
  refine unique_of_details fun other s t described typed rest => ?_
  cases other with
  | scalar e type => exact absurd typed.symm (typeName_scalar_ne e type).2
  | array => exact absurd (show "object".toList = "array".toList from typed) (by decide)
  | object e own names =>
    obtain rfl : description = e := described
    simp only [details_object, List.cons_append, List.append_assoc] at rest
    obtain ⟨rfl, after⟩ := unique_properties inner own _ _ (fieldText_cancel (List.cons.inj rest).2)
    obtain ⟨rfl, last⟩ :=
      Json.unique_strings required names _ _ (fieldText_cancel (List.cons.inj after).2)
    exact ⟨rfl, (List.cons.inj last).2⟩

mutual

theorem unique_text : (schema : Schema) → Unique text schema
  | .scalar description type => unique_scalar description type
  | .array description items => unique_array description (unique_text_items items)
  | .object description properties required =>
    unique_object description required (unique_text_properties properties)

theorem unique_text_items : (items : Option Schema) → ∀ schema ∈ items, Unique text schema
  | none => by simp
  | some schema => by simpa using unique_text schema

theorem unique_text_properties : (properties : List (Text × Schema)) →
    ∀ property ∈ properties, Unique text property.2
  | [] => by simp
  | (_, schema) :: rest =>
    List.forall_mem_cons.mpr ⟨unique_text schema, unique_text_properties rest⟩

end

theorem text_prefixFree (a b : Schema) : (a.text = b.text ↔ a = b) ∧ (a.text <+: b.text ↔ a = b) := by
  have same (rest : Text) (longer : a.text ++ rest = b.text) : a = b :=
    (unique_text a b rest [] (by rw [longer, List.append_nil])).1
  refine ⟨⟨fun equal => same [] (by rw [equal, List.append_nil]), fun equal => by rw [equal]⟩, ?_, ?_⟩
  · rintro ⟨rest, longer⟩
    exact same rest longer
  · rintro rfl
    exact List.prefix_refl a.text

end CallSchema.Schema
