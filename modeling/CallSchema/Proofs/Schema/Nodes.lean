import CallSchema.Proofs.Table
import CallSchema.Schema.Basic
import Mathlib.Data.List.Nodup
import Mathlib.Tactic.Common

set_option autoImplicit false

namespace CallSchema

namespace Shape

structure Keyed (shape : Shape) : Prop where
  known : shape.required ⊆ shape.properties.map Prod.fst
  nodup : shape.required.Nodup

theorem keyed_empty : empty.Keyed := ⟨by simp [empty], by simp [empty]⟩

theorem Keyed.insert {shape : Shape} (h : shape.Keyed) (name : Text) (schema : Schema)
    (required : Bool) : (shape.insert name schema required).Keyed := by
  have old : shape.required ⊆ (Table.put name schema shape.properties).map Prod.fst := by
    intro k mem
    exact Table.mem_keys_put.mpr (.inr (h.known mem))
  by_cases new : (required && !shape.required.contains name) = true
  · have fresh : name ∉ shape.required := by
      simp only [Bool.and_eq_true, Bool.not_eq_true', List.contains_eq_mem,
        decide_eq_false_iff_not] at new
      exact new.2
    constructor
    · intro k mem
      simp only [Shape.insert, if_pos new, List.mem_append, List.mem_singleton] at mem
      rcases mem with mem | rfl
      · exact old mem
      · exact Table.mem_keys_put.mpr (.inl rfl)
    · simp only [Shape.insert, if_pos new]
      rw [List.nodup_append]
      refine ⟨h.nodup, List.nodup_singleton name, ?_⟩
      rintro k mem l single rfl
      obtain rfl := List.mem_singleton.mp single
      exact fresh mem
  · constructor
    · simpa only [Shape.insert, if_neg new] using old
    · simpa only [Shape.insert, if_neg new] using h.nodup

theorem mem_required_insert {shape : Shape} {name other : Text} {schema : Schema}
    {required : Bool} : name ∈ (shape.insert other schema required).required ↔
      name ∈ shape.required ∨ required = true ∧ other = name := by
  unfold insert
  split
  · next new =>
    obtain ⟨needed, -⟩ := Bool.and_eq_true_iff.mp new
    simp [needed, eq_comm]
  · next old =>
    constructor
    · exact .inl
    · rintro (mem | ⟨rfl, rfl⟩)
      · exact mem
      · simpa using old

theorem absorb_empty (other : Shape) : empty.absorb other = other := by
  obtain ⟨properties, required⟩ := other
  cases required <;> rfl

end Shape

namespace Schema

-- The property holds of the schema and of all schemas inside it.
inductive All (P : Schema → Prop) : Schema → Prop where
  | scalar {description : Option Text} {type : Scalar} (here : P (.scalar description type)) :
    All P (.scalar description type)
  | array {description : Option Text} {items : Option Schema} (here : P (.array description items))
    (inner : ∀ schema ∈ items, All P schema) : All P (.array description items)
  | object {description : Option Text} {properties : List (Text × Schema)} {required : List Text}
    (here : P (.object description properties required))
    (inner : ∀ entry ∈ properties, All P entry.2) : All P (.object description properties required)

variable {P Q : Schema → Prop}

theorem All.self {schema : Schema} (h : schema.All P) : P schema := by
  cases h with
  | scalar here => exact here
  | array here => exact here
  | object here => exact here

theorem All.mono (step : ∀ schema, P schema → Q schema) {schema : Schema} (h : schema.All P) :
    schema.All Q := by
  induction h with
  | scalar here => exact .scalar (step _ here)
  | array here _ ih => exact .array (step _ here) ih
  | object here _ ih => exact .object (step _ here) ih

theorem All.describe {schema : Schema} (h : schema.All P) {text : Text}
    (here : P (schema.describe text)) : (schema.describe text).All P := by
  cases h with
  | scalar => exact .scalar here
  | array _ inner => exact .array here inner
  | object _ inner => exact .object here inner

theorem All.host {schema : Schema} (h : schema.All P) {own : Shape}
    (known : own ∈ schema.host?) : ∃ inner, P inner ∧ inner.shape? = some own := by
  rcases Option.or_eq_some_iff.mp known with here | ⟨-, items⟩
  · exact ⟨schema, h.self, here⟩
  · obtain ⟨inner, found, here⟩ := Option.bind_eq_some_iff.mp items
    cases h with
    | scalar => cases found
    | object => cases found
    | array _ all => exact ⟨inner, (all inner found).self, here⟩

theorem All.onHost {schema : Schema} (h : schema.All P) {change : Shape → Shape}
    (keep : ∀ schema, P schema → Q schema)
    (array : ∀ description items, P (.array description items) →
      Q (.array description (items.map (Schema.onShape change))))
    (object : ∀ description, ∀ shape ∈ schema.host?,
      (Schema.object description shape.properties shape.required).All P →
      (Schema.object description (change shape).properties (change shape).required).All Q) :
    (schema.onHost change).All Q := by
  have onShape : ∀ inner : Schema, inner.shape? = none ∨ inner.shape? = schema.host? →
      inner.All P → (inner.onShape change).All Q := by
    intro inner own all
    cases all with
    | scalar here => exact .scalar (keep _ here)
    | array here inner => exact .array (keep _ here) fun items mem => (inner items mem).mono keep
    | object here inner =>
      exact object _ ⟨_, _⟩ (own.resolve_left (by simp [shape?])).symm (.object here inner)
  cases h with
  | scalar here => exact .scalar (keep _ here)
  | array here inner =>
    refine .array (array _ _ here) ?_
    intro items mem
    obtain ⟨old, known, rfl⟩ := Option.map_eq_some_iff.mp mem
    refine onShape old ?_ (inner old known)
    rw [Option.mem_def.mp known]
    exact .inr rfl
  | object here inner => exact object _ ⟨_, _⟩ rfl (.object here inner)

@[simp] theorem isObject_onShape (change : Shape → Shape) (schema : Schema) :
    (schema.onShape change).isObject = schema.isObject := by
  cases schema <;> rfl

@[simp] theorem hosts_onHost (change : Shape → Shape) (schema : Schema) :
    (schema.onHost change).hosts = schema.hosts := by
  cases schema with
  | scalar | object => rfl
  | array description items =>
    cases items with
    | none => rfl
    | some items => exact congrArg (false || ·) (isObject_onShape change items)

theorem isSome_host? (schema : Schema) : schema.host?.isSome = schema.hosts := by
  cases schema with
  | scalar | object => rfl
  | array description items => cases items <;> rfl

@[simp] theorem shape?_describe (text : Text) (schema : Schema) :
    (schema.describe text).shape? = schema.shape? := by
  cases schema <;> rfl

@[simp] theorem items?_describe (text : Text) (schema : Schema) :
    (schema.describe text).items? = schema.items? := by
  cases schema <;> rfl

@[simp] theorem hosts_describe (text : Text) (schema : Schema) :
    (schema.describe text).hosts = schema.hosts := by
  simp [hosts, isObject, isArrayOfObjects]

@[simp] theorem host?_describe (text : Text) (schema : Schema) :
    (schema.describe text).host? = schema.host? := by
  simp [host?]

theorem onHost_congr {schema : Schema} {change other : Shape → Shape}
    (same : ∀ own ∈ schema.host?, change own = other own) :
    schema.onHost change = schema.onHost other := by
  cases schema with
  | scalar => rfl
  | object description properties required =>
    simp only [onHost, onShape, same _ rfl]
  | array description items =>
    cases items with
    | none => rfl
    | some items =>
      cases items with
      | scalar | array => rfl
      | object description properties required =>
        simp only [onHost, Option.map_some, onShape, same _ rfl]

theorem host?_onHost (change : Shape → Shape) (schema : Schema) :
    (schema.onHost change).host? = schema.host?.map change := by
  cases schema with
  | scalar | object => rfl
  | array description items =>
    cases items with
    | none => rfl
    | some items => cases items <;> rfl

theorem onHost_id (schema : Schema) : schema.onHost (fun own => own) = schema := by
  cases schema with
  | scalar | object => rfl
  | array description items =>
    cases items with
    | none => rfl
    | some items => cases items <;> rfl

theorem onHost_of_empty {schema : Schema} (h : ∀ shape ∈ schema.host?, shape = .empty)
    (change : Shape → Shape) : schema.onHost change = schema.onHost fun _ => change .empty :=
  onHost_congr fun own found => congrArg change (h own found)

theorem description_describe (text : Text) (schema : Schema) :
    (schema.describe text).description = if text.isEmpty then none else some text := by
  cases schema <;> rfl

end Schema

end CallSchema
