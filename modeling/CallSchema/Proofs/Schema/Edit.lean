import CallSchema.Proofs.Outline.Nesting
import CallSchema.Schema.Edit

set_option autoImplicit false

namespace CallSchema

def Schema.Keyed (schema : Schema) : Prop := ∀ shape ∈ schema.shape?, shape.Keyed

namespace Shape

def Covers (other own : Shape) : Prop :=
  other.required = [] → own.required ⊆ other.properties.map Prod.fst

theorem keyed_absorb_iff {own other : Shape} (h : own.Keyed) (otherKeyed : other.Keyed) :
    (own.absorb other).Keyed ↔ other.Covers own := by
  by_cases none : other.required = []
  · have kept : own.absorb other = ⟨other.properties, own.required⟩ := by simp [absorb, none]
    rw [kept]
    exact ⟨fun keyed _ => keyed.known, fun covers => ⟨covers none, h.nodup⟩⟩
  · have taken : own.absorb other = other := by simp [absorb, none]
    rw [taken]
    exact ⟨fun _ requiresNothing => absurd requiresNothing none, fun _ => otherKeyed⟩

end Shape

namespace Edit

def child? : Edit → Option Schema
  | .insert _ child _ => some child
  | _ => none

-- A shape that the change puts in the place of the properties covers what the host requires.
def Covers (schema : Schema) : Edit → Prop
  | .absorb text => ∀ shape ∈ (Outline.read text).shape, ∀ own ∈ schema.host?, shape.Covers own
  | _ => True

end Edit

-- The schemas that come from hints by changes of a kind. A schema that is inserted comes about in
-- the same way.
inductive Made (allowed : Schema → Edit → Prop) : Schema → Prop where
  | hint (t : Text) : Made allowed (TypeHint.schema t)
  | edit {schema next : Schema} {change : Edit} (made : Made allowed schema)
    (child : ∀ inserted ∈ change.child?, Made allowed inserted) (fits : allowed schema change)
    (applied : schema.edit? change = some next) : Made allowed next

namespace Schema

theorem keyed_of_bare {schema : Schema} (h : schema.Bare) : schema.Keyed := by
  intro shape mem
  rw [h.2 shape mem]
  exact Shape.keyed_empty

theorem keyed_hint (t : Text) : (TypeHint.schema t).All Keyed :=
  (Outline.bare_schema t).mono fun _ => keyed_of_bare

theorem keyed_read {t : Text} {shape : Shape} (h : (Outline.read t).shape = some shape) :
    (ofShape shape).All Keyed :=
  ((Outline.sound_read t).shape shape h).mono fun _ inner => inner.1.required

theorem keyed_onHost {schema : Schema} (h : schema.All Keyed) {change : Shape → Shape}
    (keyed : ∀ own ∈ schema.host?, own.Keyed → (change own).Keyed)
    (inside : ∀ own : Shape, (∀ entry ∈ own.properties, entry.2.All Keyed) →
      ∀ entry ∈ (change own).properties, entry.2.All Keyed) :
    (schema.onHost change).All Keyed := by
  refine h.onHost (fun _ here => here) (fun _ _ _ => by simp [Keyed, shape?]) ?_
  intro description own host all
  cases all with
  | object here inner =>
    refine .object ?_ (inside own inner)
    rintro shape ⟨⟩
    exact keyed own host (here own rfl)

theorem keyed_insert {schema child : Schema} (h : schema.All Keyed) (childKeyed : child.All Keyed)
    (name : Text) (required : Bool) : (schema.onHost (·.insert name child required)).All Keyed := by
  refine keyed_onHost h (fun own _ keyed => keyed.insert name child required) ?_
  intro own inner entry mem
  rcases Table.mem_put mem with rfl | old
  · exact childKeyed
  · exact inner entry old

theorem keyed_absorb {schema : Schema} (h : schema.All Keyed) {t : Text} {shape : Shape}
    (read : (Outline.read t).shape = some shape) (covers : ∀ own ∈ schema.host?, shape.Covers own) :
    (schema.onHost (·.absorb shape)).All Keyed := by
  have all := keyed_read read
  have shapeKeyed := all.self shape rfl
  refine keyed_onHost h (fun own host keyed => ?_) (fun _ _ => ?_)
  · exact (Shape.keyed_absorb_iff keyed shapeKeyed).mpr (covers own host)
  · cases all with
    | object _ inner => exact inner

theorem keyed_edit {schema next : Schema} {change : Edit} (h : schema.All Keyed)
    (child : ∀ inserted ∈ change.child?, inserted.All Keyed) (covers : change.Covers schema)
    (applied : schema.edit? change = some next) : next.All Keyed := by
  cases change with
  | describe text =>
    cases applied
    refine h.describe ?_
    rw [Keyed, shape?_describe]
    exact h.self
  | insert name inserted required =>
    simp only [edit?] at applied
    split at applied
    · cases applied
      exact keyed_insert h (child inserted rfl) name required
    · cases applied
  | absorb text =>
    simp only [edit?] at applied
    split at applied
    · obtain ⟨shape, read, rfl⟩ := Option.map_eq_some_iff.mp applied
      exact keyed_absorb h read (covers shape read)
    · cases applied
  | wrap =>
    cases applied
    refine .array (by simp [Keyed, shape?]) ?_
    rintro items ⟨⟩
    exact h
  | items =>
    cases h with
    | scalar | object => cases applied
    | array _ inner => exact inner next applied
  | property name =>
    obtain ⟨shape, own, found⟩ := Option.bind_eq_some_iff.mp applied
    cases h with
    | scalar | array => cases own
    | object _ inner =>
      cases own
      exact inner _ (Table.mem_of_get? found)

theorem covers_of_keyed {schema next : Schema} {change : Edit} (h : schema.All Keyed)
    (applied : schema.edit? change = some next) (keyed : next.All Keyed) : change.Covers schema := by
  cases change with
  | absorb text =>
    intro shape read own host
    simp only [edit?, Option.mem_def.mp read] at applied
    split at applied
    · cases applied
      have changed : own.absorb shape ∈ (schema.onHost (·.absorb shape)).host? := by
        rw [host?_onHost, Option.mem_def.mp host]
        rfl
      obtain ⟨inner, sound, here⟩ := keyed.host changed
      obtain ⟨old, oldSound, oldHere⟩ := h.host host
      exact (Shape.keyed_absorb_iff (oldSound own oldHere) ((keyed_read read).self shape rfl)).mp
        (sound _ here)
    · cases applied
  | _ => trivial

end Schema

theorem Made.all_keyed {schema : Schema} (h : Made (fun schema change => change.Covers schema) schema) :
    schema.All Schema.Keyed := by
  induction h with
  | hint t => exact Schema.keyed_hint t
  | edit _ _ covers applied made child => exact Schema.keyed_edit made child covers applied

namespace Made

open Outline (Label)

variable {allowed : Schema → Edit → Prop}

def ageText : Text := "age (int, optional): In years."

def age : Schema := .scalar (some "In years.".toList) .integer

theorem read_ageText : Outline.read ageText = ⟨[], some ⟨[("age", age)], []⟩⟩ := by
  have scanned : (Outline.scan ageText).definitions = [Label.age.definition 0] := by decide +kernel
  have prose : (Outline.scan ageText).prose = [] := by decide +kernel
  have resolved := @Label.resolved_definition 0 Label.age (by decide) (fun _ => by decide +kernel)
  have text : Label.age.text = "In years.".toList := by decide +kernel
  have optional : TypeHint.isOptional Label.age.hint = true := by decide +kernel
  rw [Outline.read_eq, scanned, prose, List.map_singleton, resolved, Outline.nest_singleton,
    if_neg (List.cons_ne_nil _ _), text, Label.value_age]
  simp only [Label.entry, optional]
  rfl

theorem schema_dict : TypeHint.schema "dict" = .anyObject := by
  rw [TypeHint.schema_eq]
  rfl

theorem schema_str : TypeHint.schema "str" = .string := by
  rw [TypeHint.schema_eq]
  rfl

def requiring (name : Text) : Schema := .object none [(name, .string)] [name]

theorem requiring_made (name : Text) (fits : allowed .anyObject (.insert name .string true)) :
    Made allowed (requiring name) := by
  refine .edit (schema_dict ▸ .hint "dict") ?_ fits rfl
  rintro inserted ⟨⟩
  exact schema_str ▸ .hint "str"

theorem edit?_ageText (name : Text) :
    (requiring name).edit? (.absorb ageText) = some (.object none [("age", age)] [name]) := by
  simp only [Schema.edit?, read_ageText]
  rfl

/-- Required names are names of properties, at any depth and after any changes that cover what the
host requires. A change that does not is one that breaks this. -/
theorem required_known {schema : Schema}
    (made : Made (fun schema change => change.Covers schema) schema) :
    schema.All Schema.Keyed ∧ ∀ change next, schema.edit? change = some next →
      (∀ inserted ∈ change.child?, Made (fun schema change => change.Covers schema) inserted) →
      (next.All Schema.Keyed ↔ change.Covers schema) := by
  refine ⟨made.all_keyed, fun change next applied child => ⟨?_, fun covers => ?_⟩⟩
  · exact Schema.covers_of_keyed made.all_keyed applied
  · exact Schema.keyed_edit made.all_keyed (fun inserted mem => (child inserted mem).all_keyed) covers
      applied

theorem required_known_age :
    Made (fun schema change => change.Covers schema) (.object none [("age", age)] ["age"]) ∧
      (Schema.object none [("age", age)] ["age"]).All Schema.Keyed := by
  have covers : (Edit.absorb ageText).Covers (requiring "age") := by
    simp only [Edit.Covers, read_ageText]
    rintro shape ⟨⟩ own ⟨⟩ -
    decide
  have made : Made (fun schema change => change.Covers schema)
      (.object none [("age", age)] ["age"]) :=
    .edit (requiring_made "age" trivial) (by simp [Edit.child?]) covers (edit?_ageText "age")
  exact ⟨made, (required_known made).1⟩

theorem not_required_known :
    Made (fun _ _ => True) (.object none [("age", age)] ["id"]) ∧
    ¬∀ schema, Made (fun _ _ => True) schema → schema.All fun inner =>
      ∀ shape ∈ inner.shape?, shape.required ⊆ shape.properties.map Prod.fst := by
  have made : Made (fun _ _ => True) (.object none [("age", age)] ["id"]) :=
    .edit (requiring_made "id" trivial) (by simp [Edit.child?]) trivial (edit?_ageText "id")
  refine ⟨made, fun always => ?_⟩
  have known := (always _ made).self ⟨[("age", age)], ["id"]⟩ rfl
  exact absurd (known (List.mem_singleton_self _)) (by decide)

end Made

end CallSchema
