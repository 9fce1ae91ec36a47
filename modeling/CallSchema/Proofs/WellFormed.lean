import CallSchema.Function
import CallSchema.Proofs.Outline.Prose
import CallSchema.Proofs.Schema.Nodes
import CallSchema.Proofs.TypeHint.Form

set_option autoImplicit false

namespace CallSchema

-- What a schema says of itself is consistent, apart from what stands inside it.
structure Schema.Sound (schema : Schema) : Prop where
  required : ∀ shape ∈ schema.shape?, shape.Keyed
  described : ∀ text ∈ schema.description, text ≠ [] ∧ Text.tidy text = text
  prose : schema.hosts = true →
    ∀ text ∈ schema.description, ∀ line ∈ Text.lines text, Outline.head? line = none

def Schema.BareNames (schema : Schema) : Prop :=
  ∀ shape ∈ schema.shape?, ∀ entry ∈ shape.properties, Text.isIdentifier entry.1 = true

def Schema.BareNamesBelow (schema : Schema) : Prop :=
  ∀ shape ∈ schema.shape?, ∀ entry ∈ shape.properties, entry.2.All Schema.BareNames

def Schema.Bare (schema : Schema) : Prop :=
  schema.description = none ∧ ∀ shape ∈ schema.shape?, shape = .empty

namespace Outline

def Inner (schema : Schema) : Prop := schema.Sound ∧ schema.BareNames

def Unfilled (schema : Schema) : Prop :=
  Inner schema ∧ ∀ shape ∈ schema.shape?, shape = .empty

structure Sound (outline : Outline) : Prop where
  prose : IsProse outline.prose
  shape : ∀ shape ∈ outline.shape, (Schema.ofShape shape).All Inner

structure Entry.Sound (entry : Entry) : Prop where
  name : Text.isIdentifier entry.name = true
  schema : entry.schema.All Inner

theorem bare_scalar (type : Scalar) : (Schema.scalar none type).All Schema.Bare :=
  .scalar ⟨rfl, by simp [Schema.shape?]⟩

theorem bare_array {items : Option Schema} (inner : ∀ schema ∈ items, schema.All Schema.Bare) :
    (Schema.array none items).All Schema.Bare :=
  .array ⟨rfl, by simp [Schema.shape?]⟩ inner

theorem bare_anyObject : Schema.anyObject.All Schema.Bare := by
  refine .object ⟨rfl, ?_⟩ (by simp [Shape.empty])
  intro shape mem
  exact (Option.some.inj mem).symm

theorem bare_of_mem_words : ∀ entry ∈ TypeHint.words, entry.2.All Schema.Bare := by
  have anyArray : Schema.anyArray.All Schema.Bare := bare_array (by simp)
  simp only [TypeHint.words, List.forall_mem_cons, List.not_mem_nil, IsEmpty.forall_iff,
    implies_true, and_true]
  exact ⟨bare_scalar _, bare_scalar _, bare_scalar _, bare_scalar _,
    bare_scalar _, bare_scalar _, anyArray, anyArray, anyArray, anyArray,
    bare_anyObject, bare_anyObject, bare_anyObject⟩

theorem bare_of_leaf {t : Text} {schema : Schema} (h : TypeHint.Form.of t = .leaf schema) :
    schema.All Schema.Bare := by
  unfold TypeHint.Form.of at h
  split at h
  · next known =>
    cases h
    obtain ⟨before, after, whole, -⟩ := List.lookup_eq_some_iff.mp known
    exact bare_of_mem_words (t, schema) (by rw [whole]; simp)
  split at h
  · cases h
  split at h
  · cases h
  split at h
  · cases h
  split at h
  · cases h
    unfold TypeHint.literalSchema
    split <;> exact bare_scalar _
  · cases h
    exact bare_anyObject

theorem bare_schema (t : Text) : (TypeHint.schema t).All Schema.Bare := by
  induction size : t.length using Nat.strong_induction_on generalizing t with
  | _ n ih =>
    have shorter : ∀ inner ∈ (TypeHint.Form.of (Text.trim t)).inner,
        (TypeHint.schema inner).All Schema.Bare := by
      intro inner mem
      refine ih inner.length ?_ inner rfl
      have := TypeHint.length_lt_of_mem_inner mem
      have := Text.length_trim_le t
      omega
    rw [TypeHint.schema_eq]
    cases form : TypeHint.Form.of (Text.trim t) with
    | leaf schema => exact bare_of_leaf form
    | quoted inner => exact shorter inner (by simp [form, TypeHint.Form.inner])
    | union members =>
      cases members with
      | nil => exact bare_scalar _
      | cons member rest => exact shorter member (by simp [form, TypeHint.Form.inner])
    | sequence inner =>
      cases inner with
      | nil => exact bare_array (by simp)
      | cons c rest =>
        apply bare_array
        intro items mem
        cases mem
        exact shorter (c :: rest) (by simp [form, TypeHint.Form.inner])

theorem unfilled_of_bare {schema : Schema} (h : schema.Bare) : Unfilled schema := by
  obtain ⟨silent, own⟩ := h
  refine ⟨⟨⟨?_, by simp [silent], by simp [silent]⟩, ?_⟩, own⟩
  · intro shape mem
    rw [own shape mem]
    exact Shape.keyed_empty
  · intro shape mem entry known
    rw [own shape mem] at known
    cases known

theorem unfilled_schema (t : Text) : (TypeHint.schema t).All Unfilled :=
  (bare_schema t).mono fun _ => unfilled_of_bare

theorem host?_schema (t : Text) : ∀ shape ∈ (TypeHint.schema t).host?, shape = .empty := by
  intro shape mem
  obtain ⟨inner, bare, here⟩ := (bare_schema t).host mem
  exact bare.2 shape here

theorem Inner.of_object {description : Option Text} {shape changed : Shape}
    (h : Inner (.object description shape.properties shape.required)) (keyed : changed.Keyed)
    (bare : ∀ entry ∈ changed.properties, Text.isIdentifier entry.1 = true) :
    Inner (.object description changed.properties changed.required) := by
  refine ⟨⟨?_, h.1.described, fun _ => h.1.prose rfl⟩, ?_⟩
  · intro own mem
    cases mem
    exact keyed
  · intro own mem
    cases mem
    exact bare

theorem Inner.of_array {description : Option Text} {items : Option Schema}
    (h : Inner (.array description items)) (change : Shape → Shape) :
    Inner (.array description (items.map (Schema.onShape change))) := by
  refine ⟨⟨by simp [Schema.shape?], h.1.described, ?_⟩, by simp [Schema.BareNames, Schema.shape?]⟩
  intro hosts
  apply h.1.prose
  rwa [← Schema.hosts_onHost change]

theorem inner_insertEntry {shape : Shape} {entry : Entry} (sound : entry.Sound)
    {description : Option Text}
    (h : (Schema.object description shape.properties shape.required).All Inner) :
    (Schema.object description (insertEntry shape entry).properties
      (insertEntry shape entry).required).All Inner := by
  have here := h.self
  cases h with
  | object _ inner =>
    refine .object (here.of_object ((here.1.required _ rfl).insert ..) ?_) ?_
    · intro property mem
      rcases Table.mem_put mem with rfl | old
      · exact sound.name
      · exact here.2 _ rfl property old
    · intro property mem
      rcases Table.mem_put mem with rfl | old
      · exact sound.schema
      · exact inner property old

theorem inner_insertAll {entries : List Entry} (sound : ∀ entry ∈ entries, entry.Sound)
    {shape : Shape} {description : Option Text}
    (h : (Schema.object description shape.properties shape.required).All Inner) :
    (Schema.object description (insertAll shape entries).properties
      (insertAll shape entries).required).All Inner := by
  have sorted : ∀ entry ∈ entries.mergeSort (·.indent ≤ ·.indent), entry.Sound := by
    intro entry mem
    exact sound entry (List.mem_mergeSort.mp mem)
  unfold insertAll
  revert sorted h
  generalize entries.mergeSort (·.indent ≤ ·.indent) = ordered
  induction ordered generalizing shape with
  | nil => exact fun h _ => h
  | cons entry rest ih =>
    intro h sorted
    exact ih (inner_insertEntry (sorted entry (by simp)) h) fun e mem => sorted e (by simp [mem])

theorem inner_onHost_insertAll {entries : List Entry} (sound : ∀ entry ∈ entries, entry.Sound)
    {schema : Schema} (h : schema.All Inner) : (schema.onHost (insertAll · entries)).All Inner :=
  h.onHost (fun _ inner => inner) (fun _ _ inner => inner.of_array _)
    fun _ _ _ inner => inner_insertAll sound inner

theorem sound_branches {entries : List Entry} (sound : ∀ entry ∈ entries, entry.Sound) :
    ∀ branch ∈ branches entries, branch.entry.Sound := by
  have rows : ∀ row ∈ entries.zipIdx, row.1.Sound := by
    intro row mem
    exact sound row.1 (List.fst_mem_of_mem_zipIdx mem)
  unfold branches
  revert rows
  generalize entries.zipIdx = table
  induction table with
  | nil => simp
  | cons row rest ih =>
    intro rows
    have later := ih fun r mem => rows r (by simp [mem])
    have own : ∀ entry ∈ entriesOf (some row.2) (rest.foldr (branch entries) []), entry.Sound := by
      intro entry mem
      obtain ⟨inner, known, rfl⟩ := List.mem_map.mp mem
      exact later inner (List.mem_filter.mp known).1
    intro b mem
    rcases List.mem_cons.mp mem with rfl | mem
    · have first := rows row (by simp)
      exact ⟨first.name, inner_onHost_insertAll own first.schema⟩
    · exact later b (List.mem_filter.mp mem).1

theorem inner_nest {entries : List Entry} (sound : ∀ entry ∈ entries, entry.Sound) :
    (Schema.ofShape (nest entries)).All Inner := by
  apply inner_insertAll
  · intro entry mem
    obtain ⟨inner, known, rfl⟩ := List.mem_map.mp mem
    exact sound_branches sound inner (List.mem_filter.mp known).1
  · exact bare_anyObject.mono fun _ bare => (unfilled_of_bare bare).1

theorem unfilled_describe {schema : Schema} (h : schema.All Unfilled) {t : Text}
    (tidy : Text.tidy t = t)
    (prose : schema.hosts = true → ∀ line ∈ Text.lines t, head? line = none) :
    (schema.describe t).All Unfilled := by
  obtain ⟨⟨sound, bare⟩, own⟩ := h.self
  have text : ∀ text ∈ (schema.describe t).description, text = t ∧ t ≠ [] := by
    intro text mem
    rw [Schema.description_describe] at mem
    split at mem
    · cases mem
    · next visible =>
      cases mem
      exact ⟨rfl, by simpa using visible⟩
  refine h.describe ⟨⟨⟨?_, ?_, ?_⟩, ?_⟩, ?_⟩
  · simpa using sound.required
  · intro described mem
    obtain ⟨rfl, visible⟩ := text described mem
    exact ⟨visible, tidy⟩
  · intro hosts described mem
    obtain ⟨rfl, -⟩ := text described mem
    rw [Schema.hosts_describe] at hosts
    exact prose hosts
  · simpa [Schema.BareNames] using bare
  · simpa using own

theorem inner_fill {outline : Outline} (sound : outline.Sound) {schema : Schema}
    (h : schema.All Unfilled) : (outline.fill schema).All Inner := by
  have described := unfilled_describe h sound.prose.tidy fun _ => sound.prose.lines
  unfold fill
  split
  · next shape found =>
    refine described.onHost (fun _ unfilled => unfilled.1) (fun _ _ unfilled => unfilled.1.of_array _) ?_
    intro description old _ unfilled
    obtain rfl : old = .empty := unfilled.self.2 old rfl
    have outlined := sound.shape shape found
    have here := outlined.self
    rw [Shape.absorb_empty]
    cases outlined with
    | object _ inner =>
      have keyed := here.1.required shape rfl
      exact .object (unfilled.self.1.of_object keyed (here.2 shape rfl)) inner
  · exact described.mono fun _ unfilled => unfilled.1

theorem inner_document {t : Text} (sound : (read t).Sound) {schema : Schema}
    (h : schema.All Unfilled) : (document t schema).All Inner := by
  unfold document
  split
  · exact inner_fill sound h
  · next noHost =>
    have described := unfilled_describe h (Text.tidy_tidy t) fun hosts => absurd hosts noHost
    exact described.mono fun _ unfilled => unfilled.1

theorem sound_read (t : Text) : (read t).Sound := by
  induction size : t.length using Nat.strong_induction_on generalizing t with
  | _ n ih =>
    refine ⟨isProse_read t, ?_⟩
    rw [read_eq]
    split
    · simp
    · intro shape mem
      cases mem
      apply inner_nest
      intro entry mem
      obtain ⟨definition, known, rfl⟩ := List.mem_map.mp mem
      refine ⟨isIdentifier_name known, inner_document ?_ (unfilled_schema _)⟩
      have shorter := length_body_lt known
      exact ih definition.body.length (by omega) definition.body rfl

end Outline

namespace FunctionSchema

theorem inner_parameter (parameter : Parameter) : parameter.schema.All Outline.Inner :=
  Outline.inner_document (Outline.sound_read _) (Outline.unfilled_schema _)

theorem keyed_parameters (parameters : List Parameter) :
    (parameters.foldl insertParameter .empty).Keyed ∧
      ∀ entry ∈ (parameters.foldl insertParameter .empty).properties, entry.2.All Outline.Inner := by
  have step : ∀ shape : Shape, shape.Keyed ∧ (∀ entry ∈ shape.properties, entry.2.All Outline.Inner) →
      (parameters.foldl insertParameter shape).Keyed ∧
        ∀ entry ∈ (parameters.foldl insertParameter shape).properties, entry.2.All Outline.Inner := by
    induction parameters with
    | nil => exact fun _ h => h
    | cons parameter rest ih =>
      intro shape h
      apply ih
      refine ⟨h.1.insert .., ?_⟩
      intro entry mem
      rcases Table.mem_put mem with rfl | old
      · exact inner_parameter parameter
      · exact h.2 entry old
  exact step .empty ⟨Shape.keyed_empty, by simp [Shape.empty]⟩

theorem parameters_wellFormed (name : Text) (documentation : Documentation) :
    (ofDocumentation name documentation).parameters.All Schema.Sound ∧
      (ofDocumentation name documentation).parameters.BareNamesBelow := by
  obtain ⟨keyed, inner⟩ := keyed_parameters documentation.parameters
  constructor
  · refine .object ⟨?_, by simp [Schema.description], by simp [Schema.description]⟩ ?_
    · intro shape mem
      cases mem
      exact keyed
    · intro entry mem
      exact (inner entry mem).mono fun _ h => h.1
  · intro shape mem entry known
    cases mem
    exact (inner entry known).mono fun _ h => h.2

end FunctionSchema

end CallSchema
