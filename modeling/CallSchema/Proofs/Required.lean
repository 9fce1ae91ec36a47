import CallSchema.Function
import CallSchema.Proofs.Outline.Hosts

set_option autoImplicit false

namespace CallSchema

namespace Outline

def lastNamed (name : Text) (entries : List Entry) : Option Entry :=
  (entries.filter (·.name = name)).getLast?

theorem lastNamed_concat (name : Text) (entries : List Entry) (entry : Entry) :
    lastNamed name (entries ++ [entry]) =
      if name = entry.name then some entry else lastNamed name entries := by
  by_cases same : entry.name = name
  · simp [lastNamed, List.filter_append, same]
  · simp [lastNamed, List.filter_append, same, Ne.symm same]

theorem mem_of_lastNamed {name : Text} {entries : List Entry} {entry : Entry}
    (h : lastNamed name entries = some entry) : entry ∈ entries ∧ entry.name = name := by
  simpa using List.mem_of_getLast? h

-- What is in the shape of entries that were inserted in their order: under each name the last
-- entry, and a name is required if some entry of that name is.
structure Records (shape : Shape) (written : List Entry) : Prop where
  kept : ∀ name, Table.get? name shape.properties = (lastNamed name written).map (·.schema)
  required : ∀ name, name ∈ shape.required ↔
    ∃ entry ∈ written, entry.required = true ∧ entry.name = name

namespace Records

variable {shape : Shape} {written : List Entry}

theorem empty : Records .empty [] := ⟨fun _ => rfl, fun _ => by simp [Shape.empty]⟩

theorem insert (h : Records shape written) (entry : Entry) :
    Records (insertEntry shape entry) (written ++ [entry]) := by
  constructor
  · intro name
    rw [lastNamed_concat]
    refine (Table.get?_put entry.name name entry.schema shape.properties).trans ?_
    split
    · rfl
    · exact h.kept name
  · intro name
    rw [insertEntry, Shape.mem_required_insert, h.required]
    simp [or_and_right, exists_or]

theorem foldl (h : Records shape written) (entries : List Entry) :
    Records (entries.foldl insertEntry shape) (written ++ entries) := by
  induction entries generalizing shape written with
  | nil => simpa using h
  | cons entry rest ih => simpa using ih (h.insert entry)

theorem follows_iff (h : Records shape written) {name : Text} {entry : Entry}
    (last : lastNamed name written = some entry) :
    (name ∈ shape.required ↔ entry.required = true) ↔
      (entry.required = true ∨ ∀ other ∈ written, other.name = name → other.required = false) := by
  obtain ⟨mem, named⟩ := mem_of_lastNamed last
  rw [h.required]
  constructor
  · intro follows
    cases needed : entry.required with
    | true => exact .inl rfl
    | false =>
      refine .inr fun other known same => ?_
      rw [needed] at follows
      simpa using fun required => follows.mp ⟨other, known, required, same⟩
  · rintro (needed | none)
    · exact iff_of_true ⟨entry, mem, needed, named⟩ needed
    · refine iff_of_false ?_ (by simp [none entry mem named])
      rintro ⟨other, known, required, same⟩
      simp [none other known same] at required

theorem not_follows {other last : Entry} (h : Records shape (written ++ [last]))
    (known : other ∈ written) (named : other.name = last.name) (needed : other.required = true)
    (optional : last.required = false) :
    Table.get? last.name shape.properties = some last.schema ∧
      ¬(last.name ∈ shape.required ↔ last.required = true) := by
  have kept : lastNamed last.name (written ++ [last]) = some last := by
    rw [lastNamed_concat, if_pos rfl]
  refine ⟨by rw [h.kept, kept]; rfl, ?_⟩
  rw [h.follows_iff kept, not_or]
  refine ⟨by simp [optional], fun none => ?_⟩
  rw [none other (List.mem_append_left _ known) named] at needed
  cases needed

end Records

-- What is inserted one by one: the definitions of one host, with what stands inside each.
def Grove.entries : Grove → List Entry
  | .nil => []
  | .cons row children rest =>
    { row.1 with schema := row.1.schema.onHost children.insertInto } :: rest.entries

theorem Grove.insertInto_eq (grove : Grove) (shape : Shape) :
    grove.insertInto shape = grove.entries.foldl insertEntry shape := by
  induction grove generalizing shape with
  | nil => rfl
  | cons row children rest _ later => exact later _

theorem Grove.records (grove : Grove) : Records (grove.insertInto .empty) grove.entries := by
  rw [grove.insertInto_eq]
  exact Records.empty.foldl grove.entries

theorem Grove.Arranged.eq_nil {grove : Grove} (arranged : grove.Arranged []) : grove = .nil := by
  cases grove with
  | nil => rfl
  | cons row children rest => exact absurd arranged.rows.length_eq (by simp [Grove.rows])

theorem host?_document {t : Text} {schema : Schema} (bare : ∀ shape ∈ schema.host?, shape = .empty) :
    ∀ shape ∈ (document t schema).host?, shape = (read t).shape.getD .empty := by
  intro shape mem
  unfold document at mem
  split at mem
  · unfold fill at mem
    cases read : (Outline.read t).shape with
    | none =>
      simp only [read, Schema.host?_describe] at mem
      exact bare shape mem
    | some own =>
      simp only [read, Schema.host?_onHost, Schema.host?_describe, Option.mem_def,
        Option.map_eq_some_iff] at mem
      obtain ⟨before, known, rfl⟩ := mem
      rw [bare before known]
      exact Shape.absorb_empty own
  · next noHost =>
    rw [Schema.host?_describe] at mem
    rw [← Schema.isSome_host?, Option.mem_def.mp mem] at noHost
    exact absurd rfl noHost

theorem Definition.shape_of_grove {definition : Definition} {own : Grove}
    (arranged : own.Arranged (entriesIn definition.body))
    (shape : (read definition.body).shape =
      if (scan definition.body).definitions = [] then none else some (own.insertInto .empty)) :
    ∀ host ∈ definition.resolved.schema.host?, host = own.insertInto .empty := by
  intro host mem
  rw [host?_document (host?_schema _) host mem, shape]
  split
  · next none =>
    obtain rfl : own = .nil := by
      rw [entriesIn, none] at arranged
      exact arranged.eq_nil
    rfl
  · rfl

theorem Grove.Holds.resolved {t : Text} {grove inside : Grove} {row : Row}
    (holds : grove.Holds row inside) (arranged : grove.Arranged (entriesIn t)) :
    ∃ definition, (scan t).definitions[row.2]? = some definition ∧ row.1 = definition.resolved := by
  have known := List.mem_zipIdx_iff_getElem?.mp (arranged.rows.mem_iff.mp holds.mem_rows)
  rw [entriesIn, List.getElem?_map] at known
  obtain ⟨definition, found, same⟩ := Option.map_eq_some_iff.mp known
  exact ⟨definition, found, same.symm⟩

-- The definitions of a text, laid out in a grove, are recorded in its shape, and in the host of
-- each definition are recorded those of its body, laid out likewise, and then those inside it.
inductive Recorded : Text → Grove → Prop where
  | intro {t : Text} {grove : Grove} (own : Row → Grove)
    (arranged : grove.Arranged (entriesIn t))
    (records : Records (grove.insertInto .empty) grove.entries)
    (bodies : ∀ row inside, grove.Holds row inside →
      ∀ definition, (scan t).definitions[row.2]? = some definition →
        Recorded definition.body (own row))
    (hosts : ∀ row inside, grove.Holds row inside →
      ∀ shape ∈ (row.1.schema.onHost inside.insertInto).host?,
        Records shape ((own row).entries ++ inside.entries)) :
    Recorded t grove

theorem recorded_read (t : Text) : ∃ grove : Grove, Recorded t grove ∧
    (read t).shape =
      if (scan t).definitions = [] then none else some (grove.insertInto .empty) := by
  induction size : t.length using Nat.strong_induction_on generalizing t with
  | _ n ih =>
    obtain ⟨grove, arranged, shape⟩ := shape_read t
    have bodies : ∀ row : Row, ∃ own : Grove,
        ∀ definition, (scan t).definitions[row.2]? = some definition →
          Recorded definition.body own ∧
            ∀ host ∈ definition.resolved.schema.host?, host = own.insertInto .empty := by
      intro row
      cases found : (scan t).definitions[row.2]? with
      | none => exact ⟨.nil, by simp⟩
      | some definition =>
        have shorter := length_body_lt (List.mem_of_getElem? found)
        obtain ⟨own, recorded, read⟩ := ih definition.body.length (by omega) definition.body rfl
        refine ⟨own, fun other same => ?_⟩
        obtain rfl := Option.some.inj same
        have ⟨_, laid, _, _, _⟩ := recorded
        exact ⟨recorded, Definition.shape_of_grove laid read⟩
    choose own body using bodies
    refine ⟨grove, .intro own arranged grove.records ?_ ?_, shape⟩
    · exact fun row inside _ definition found => (body row definition found).1
    · intro row inside holds host mem
      obtain ⟨definition, found, same⟩ := holds.resolved arranged
      rw [Schema.host?_onHost, Option.mem_def, Option.map_eq_some_iff] at mem
      obtain ⟨before, known, rfl⟩ := mem
      rw [same] at known
      rw [(body row definition found).2 before known, inside.insertInto_eq]
      exact (own row).records.foldl inside.entries

end Outline

-- The parameter as it is inserted in the schema of its function.
def Parameter.entry (parameter : Parameter) : Outline.Entry :=
  ⟨0, parameter.publicName, parameter.schema, parameter.required⟩

open Outline (Records Recorded entriesIn lastNamed)

theorem FunctionSchema.records (parameters : List Parameter) :
    Records (parameters.foldl insertParameter .empty) (parameters.map Parameter.entry) := by
  have written : parameters.foldl insertParameter .empty =
      (parameters.map Parameter.entry).foldl Outline.insertEntry .empty := by
    rw [List.foldl_map]
    rfl
  rw [written]
  exact Records.empty.foldl (parameters.map Parameter.entry)

/-- A name is required just if some parameter of that name is, and the last of them is kept. So it
is, with definitions for parameters, in the shape that is read of a text and in every shape inside
that. -/
theorem required_iff_any :
    (∀ (name : Text) (documentation : Documentation), ∃ shape,
      (FunctionSchema.ofDocumentation name documentation).parameters = .ofShape shape ∧
        Records shape (documentation.parameters.map Parameter.entry)) ∧
      ∀ t : Text, ∃ grove : Outline.Grove, Recorded t grove ∧
        (Outline.read t).shape =
          if (Outline.scan t).definitions = [] then none else some (grove.insertInto .empty) :=
  ⟨fun _ documentation => ⟨_, rfl, FunctionSchema.records documentation.parameters⟩,
    Outline.recorded_read⟩

def neededParameter : Parameter := ⟨"x", some "str", [], false, false⟩

def optionalParameter : Parameter := ⟨"x", some "Optional[int]", [], false, false⟩

def neededThenOptional : Text := "x (str): One.\nx (Optional[int]): Two."

-- The parameter or definition that is kept is optional, and its name is required.
theorem not_required_iff_last :
    (∃ shape, (FunctionSchema.ofDocumentation "f"
          ⟨none, none, [neededParameter, optionalParameter]⟩).parameters = .ofShape shape ∧
        Table.get? optionalParameter.publicName shape.properties = some optionalParameter.schema ∧
        ¬(optionalParameter.publicName ∈ shape.required ↔ optionalParameter.required = true)) ∧
      ∃ (shape : Shape) (first last : Outline.Definition),
        (Outline.scan neededThenOptional).definitions = [first, last] ∧
        (Outline.read neededThenOptional).shape = some shape ∧
        Table.get? last.name shape.properties = some last.resolved.schema ∧
        ¬(last.name ∈ shape.required ↔ TypeHint.isOptional last.hint = false) := by
  constructor
  · have records := FunctionSchema.records [neededParameter, optionalParameter]
    exact ⟨_, rfl, @Records.not_follows _ [neededParameter.entry] _ optionalParameter.entry records
      (List.mem_singleton_self _) (by decide +kernel) (by decide +kernel) (by decide +kernel)⟩
  · let first : Outline.Definition := ⟨⟨"x", "str", "One."⟩, 0, []⟩
    let last : Outline.Definition := ⟨⟨"x", "Optional[int]", "Two."⟩, 0, []⟩
    have scanned : (Outline.scan neededThenOptional).definitions = [first, last] := by decide +kernel
    have level : ∀ entry ∈ [first, last].map Outline.Definition.resolved, entry.indent = 0 := by
      simp [Outline.Definition.resolved, first, last]
    have shape : (Outline.read neededThenOptional).shape =
        some ([first.resolved, last.resolved].foldl Outline.insertEntry .empty) := by
      rw [Outline.read_eq, scanned, if_neg (List.cons_ne_nil _ _), Outline.nest_of_level level]
      rfl
    have optional : last.resolved.required = false := by decide +kernel
    obtain ⟨kept, flag⟩ := @Records.not_follows _ [first.resolved] first.resolved last.resolved
      (Records.empty.foldl [first.resolved, last.resolved]) (List.mem_singleton_self _) rfl
      (by decide +kernel) optional
    refine ⟨_, first, last, scanned, shape, kept, ?_⟩
    rwa [show last.resolved.required = !TypeHint.isOptional last.hint from rfl,
      Bool.not_eq_true'] at flag

end CallSchema
