import CallSchema.Proofs.Outline.Grove

set_option autoImplicit false

namespace CallSchema

namespace Schema

def descriptionLines (description : Option Text) : List Text := description.elim [] Text.lines

mutual

def texts : Schema → List Text
  | .scalar description _ => descriptionLines description
  | .array description items => descriptionLines description ++ itemsTexts items
  | .object description properties _ => descriptionLines description ++ propertiesTexts properties
termination_by structural schema => schema

def itemsTexts : Option Schema → List Text
  | none => []
  | some schema => texts schema
termination_by structural items => items

def propertiesTexts : List (Text × Schema) → List Text
  | [] => []
  | property :: rest => propertyTexts property ++ propertiesTexts rest
termination_by structural properties => properties

def propertyTexts : Text × Schema → List Text
  | (_, schema) => texts schema
termination_by structural property => property

end

theorem propertiesTexts_eq (properties : List (Text × Schema)) :
    propertiesTexts properties = properties.flatMap (·.2.texts) := by
  induction properties with
  | nil => rfl
  | cons property rest ih => rw [propertiesTexts, ih, List.flatMap_cons, propertyTexts]

theorem Bare.properties_eq {description : Option Text} {properties : List (Text × Schema)}
    {required : List Text} (h : (Schema.object description properties required).Bare) :
    properties = [] :=
  congrArg Shape.properties (h.2 _ rfl)

theorem texts_of_bare {schema : Schema} (h : schema.All Bare) : schema.texts = [] := by
  induction h with
  | scalar here =>
    obtain rfl := here.1
    rfl
  | @array description items here _ ih =>
    obtain rfl : description = none := here.1
    cases items with
    | none => rfl
    | some items => exact ih items rfl
  | @object description properties required here _ _ =>
    obtain rfl : description = none := here.1
    obtain rfl := here.properties_eq
    rfl

theorem texts_describe {schema : Schema} (h : schema.All Bare) (t : Text) :
    (schema.describe t).texts = Text.lines t := by
  have own : descriptionLines (if t.isEmpty then none else some t) = Text.lines t := by
    cases t <;> rfl
  cases h with
  | scalar => exact own
  | @array _ items _ inner =>
    have silent : itemsTexts items = [] := by
      cases items with
      | none => rfl
      | some items => exact texts_of_bare (inner items rfl)
    rw [describe, texts, own, silent, List.append_nil]
  | object here _ =>
    rw [describe, texts, own, here.properties_eq, propertiesTexts, List.append_nil]

theorem texts_onHost (schema : Schema) (more : List (Text × Schema)) (required : Shape → List Text) :
    (schema.onHost fun own => ⟨own.properties ++ more, required own⟩).texts =
      schema.texts ++ if schema.hosts then propertiesTexts more else [] := by
  have object (description : Option Text) (properties : List (Text × Schema))
      (names others : List Text) :
      (Schema.object description (properties ++ more) names).texts =
        (Schema.object description properties others).texts ++ propertiesTexts more := by
    simp only [texts, propertiesTexts_eq, List.flatMap_append, List.append_assoc]
  cases schema with
  | scalar => exact (List.append_nil _).symm
  | object description properties names => exact object description properties _ names
  | array description items =>
    cases items with
    | none => exact (List.append_nil _).symm
    | some items =>
      cases items with
      | scalar | array => exact (List.append_nil _).symm
      | object inner properties names =>
        have items := object inner properties (required ⟨properties, names⟩) names
        change descriptionLines description ++ _ = (descriptionLines description ++ _) ++ _
        rw [List.append_assoc]
        exact congrArg (descriptionLines description ++ ·) items

end Schema

namespace Outline

namespace Head

def remark (head : Head) : List Text :=
  match _inner : head.inline? with
  | some inner => inner.remark
  | none => Text.tidyLines [head.summary]
termination_by head.summary.length
decreasing_by exact length_of_inline? _inner

theorem remark_of_inline? {head inner : Head} (h : head.inline? = some inner) :
    head.remark = inner.remark := by
  rw [remark]
  split
  · next other found =>
    rw [h] at found
    cases found
    rfl
  · next none =>
    rw [h] at none
    cases none

theorem remark_of_plain {head : Head} (h : head.inline? = none) :
    head.remark = Text.tidyLines [head.summary] := by
  rw [remark]
  split
  · next inner found =>
    rw [h] at found
    cases found
  · rfl

theorem bare_value (head : Head) : head.value.All Schema.Bare := bare_schema _

theorem texts_inline (head inner : Head) (hosts : head.value.hosts = true) (schema : Schema)
    (required : List Text) :
    ((head.value.describe []).onHost fun _ => ⟨[(inner.name, schema)], required⟩).texts =
      schema.texts := by
  -- The value has no properties of its own, so nothing is replaced by the one it gets.
  have own : (head.value.describe []).onHost (fun _ => ⟨[(inner.name, schema)], required⟩) =
      (head.value.describe []).onHost
        fun own => ⟨own.properties ++ [(inner.name, schema)], required⟩ := by
    refine Schema.onHost_congr fun shape found => ?_
    rw [Schema.host?_describe] at found
    rw [show shape = .empty from host?_schema _ shape found]
    rfl
  rw [own, Schema.texts_onHost, Schema.texts_describe head.bare_value, Schema.hosts_describe,
    if_pos hosts]
  exact List.append_nil _

theorem texts_schema {head : Head} (line : head.IsLine) {notes : List Text}
    (plain : ∀ note ∈ notes, '\n' ∉ note) :
    (head.schema notes).texts = head.remark ++ Text.tidyLines notes := by
  fun_induction Head.schema notes head with
  | case1 head inner inline ih =>
    obtain ⟨hosts, found⟩ := head?_of_inline? inline
    rw [texts_inline head inner hosts, ih (isLine_of_head? found line.plain),
      remark_of_inline? inline]
  | case2 head inline =>
    have all : ∀ l ∈ head.summary :: notes, '\n' ∉ l := List.forall_mem_cons.mpr ⟨line.plain, plain⟩
    rw [Schema.texts_describe head.bare_value, Text.lines_joinLines_tidyLines all, remark_of_plain inline]
    exact Text.tidyLines_append [head.summary] notes

end Head

-- What a line of a text says, apart from the definition that it makes.
def said (line : Text) : List Text :=
  match head? line with
  | some head => head.remark
  | none => Text.tidyLines [line]

def Definition.texts (definition : Definition) : List Text :=
  definition.toHead.remark ++ Text.tidyLines definition.notes

theorem Definition.Scanned.texts_resolved {definition : Definition} (h : definition.Scanned) :
    definition.resolved.schema.texts = definition.texts := by
  rw [h.schema_resolved, Head.texts_schema h.head fun note mem => (h.notes note mem).plain, texts]

namespace Scan

def texts (scan : Scan) : List Text :=
  Text.tidyLines scan.prose ++ scan.definitions.flatMap Definition.texts

theorem texts_line {scan : Scan} (sound : scan.Sound) (line : Text) :
    (scan.line line).texts.Perm (scan.texts ++ said line) := by
  by_cases blank : Text.blank line = true
  · have empty : said line = [] := by
      simp [said, head?_of_blank blank, Text.tidyLines, Text.trim_eq_nil_iff.mpr blank]
    rw [line_of_blank blank, empty, List.append_nil]
  rw [Bool.not_eq_true] at blank
  cases prose : head? line with
  | some head =>
    have own : (⟨head, indentOf line, []⟩ : Definition).texts = said line := by
      simp [Definition.texts, said, prose]
    rw [line_of_head? prose]
    simp only [texts, define, List.flatMap_append, List.flatMap_singleton, own, List.append_assoc]
    exact .refl _
  | none =>
    rw [line_of_prose blank prose, said, prose]
    -- The line ends up at the end of the prose or of one definition, and all else stays.
    rcases note_cases (sound.runAt (indentOf line)).1 line with
      ⟨same, added⟩ | ⟨before, noted, after, whole, -, added, same⟩
    · rw [texts, texts, same, added, Text.tidyLines_append, List.append_assoc, List.append_assoc]
      exact List.perm_append_comm.append_left _
    · have more : (addNote line noted).texts = noted.texts ++ Text.tidyLines [line] := by
        simp only [Definition.texts, addNote, Text.tidyLines_append, List.append_assoc]
      rw [texts, texts, same, added, whole]
      simp only [List.flatMap_append, List.flatMap_cons, more, List.append_assoc]
      exact (List.perm_append_comm.append_left _).append_left _ |>.append_left _

theorem texts_lines {scan : Scan} (sound : scan.Sound) {ls : List Text}
    (plain : ∀ l ∈ ls, '\n' ∉ l) :
    (ls.foldl Scan.line scan).texts.Perm (scan.texts ++ ls.flatMap said) := by
  induction ls generalizing scan with
  | nil => simp
  | cons first rest ih =>
    obtain ⟨own, later⟩ := List.forall_mem_cons.mp plain
    have step := (ih (sound.line own) later).trans ((texts_line sound first).append_right _)
    rwa [List.append_assoc, ← List.flatMap_cons] at step

end Scan

theorem texts_scan (t : Text) : (scan t).texts.Perm ((Text.lines t).flatMap said) := by
  have whole := Scan.texts_lines Scan.sound_start fun l (mem : l ∈ Text.lines t) =>
    Text.newline_not_mem_of_mem_lines mem
  exact whole

theorem Grove.texts_properties {table : List Row} {host : Option Row} {grove : Grove}
    (placed : grove.Placed table host) :
    (Schema.propertiesTexts grove.properties).Perm (grove.rows.flatMap (·.1.schema.texts)) := by
  induction grove generalizing host with
  | nil => exact .refl _
  | cons row children rest inner later =>
    obtain ⟨-, -, childrenPlaced, restPlaced⟩ := placed
    -- A definition that has others inside it can have properties.
    have filled : (row.1.schema.onHost children.addTo).texts =
        row.1.schema.texts ++ Schema.propertiesTexts children.properties := by
      refine (Schema.texts_onHost row.1.schema children.properties _).trans ?_
      cases children with
      | nil => simp [properties, Schema.propertiesTexts]
      | cons => rw [if_pos childrenPlaced.1.2.1.hosts]
    rw [properties_cons, Schema.propertiesTexts, Schema.propertyTexts, filled, rows,
      List.flatMap_cons, List.flatMap_append, List.append_assoc]
    exact ((inner childrenPlaced).append (later restPlaced)).append_left _

def texts (outline : Outline) : List Text :=
  Text.lines outline.prose ++ outline.shape.elim [] fun shape => Schema.propertiesTexts shape.properties

theorem flatMap_said {ls : List Text} (prose : ∀ l ∈ ls, head? l = none) :
    ls.flatMap said = Text.tidyLines ls := by
  induction ls with
  | nil => rfl
  | cons first rest ih =>
    obtain ⟨own, later⟩ := List.forall_mem_cons.mp prose
    rw [List.flatMap_cons, ih later, said, own]
    exact (Text.tidyLines_append [first] rest).symm

theorem Grove.Arranged.texts {t : Text} {grove : Grove} (arranged : grove.Arranged (entriesIn t)) :
    (Schema.propertiesTexts grove.properties).Perm
      ((scan t).definitions.flatMap Definition.texts) := by
  have entries : (entriesIn t).zipIdx.flatMap (·.1.schema.texts) =
      (scan t).definitions.flatMap Definition.texts := by
    calc (entriesIn t).zipIdx.flatMap (·.1.schema.texts)
        = ((entriesIn t).zipIdx.map Prod.fst).flatMap (·.schema.texts) := by rw [List.flatMap_map]
      _ = (scan t).definitions.flatMap (·.resolved.schema.texts) := by
        rw [List.zipIdx_map_fst, entriesIn, List.flatMap_map]
      _ = (scan t).definitions.flatMap Definition.texts :=
        List.flatMap_congr fun definition mem =>
          ((sound_scan t).definitions definition mem).texts_resolved
  rw [← entries]
  exact (Grove.texts_properties arranged.placed).trans (arranged.rows.flatMap_right _)

/-- Where no two definitions of one host share a name, the prose and the descriptions hold each line
of prose and each remark once. -/
theorem texts_read {t : Text} (distinct : Distinct (entriesIn t)) :
    (read t).texts.Perm ((Text.lines t).flatMap said) := by
  obtain ⟨grove, arranged, shape⟩ := shape_read t
  rw [texts, shape]
  split
  · next none =>
    have prose : (read t).prose = Text.tidy t := by rw [read_eq, if_pos none]
    rw [prose, Text.lines_tidy, flatMap_said (head?_of_no_definitions none)]
    exact .of_eq (List.append_nil _)
  · next some =>
    have prose : (read t).prose = Text.tidy (Text.joinLines (scan t).prose) := by
      rw [read_eq, if_neg some]
    rw [prose, tidy_prose, Text.lines_joinLines_tidyLines fun l => newline_not_mem_of_mem_prose,
      arranged.insertInto distinct]
    exact (arranged.texts.append_left _).trans (texts_scan t)

theorem texts_requestText :
    Distinct (entriesIn Forest.requestText) ∧
      (read Forest.requestText).texts.Perm ((Text.lines Forest.requestText).flatMap said) :=
  ⟨Forest.distinct_requestText, texts_read Forest.distinct_requestText⟩

end Outline

end CallSchema
