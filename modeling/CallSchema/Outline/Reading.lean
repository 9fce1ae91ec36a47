import CallSchema.TypeHint.Optionality
import CallSchema.TypeHint.Reading
import CallSchema.Outline.Tree

set_option autoImplicit false

namespace CallSchema

structure Outline where
  prose : Text
  shape : Option Shape

namespace Outline

def fill (outline : Outline) (schema : Schema) : Schema :=
  match outline.shape with
  | some shape => (schema.describe outline.prose).onHost (·.absorb shape)
  | none => schema.describe outline.prose

def Definition.valueSchema (definition : Definition) : Schema :=
  TypeHint.schema (valueHint definition.hint)

def Definition.entry (definition : Definition) (outline : Outline) : Entry where
  indent := definition.indent
  name := definition.name
  schema := outline.fill definition.valueSchema
  required := !TypeHint.isOptional definition.hint

def read (t : Text) : Outline :=
  let scanned := scan t
  let entries := scanned.definitions.attach.map fun ⟨definition, _member⟩ =>
    definition.entry
      (if definition.valueSchema.hosts then read definition.body
        else ⟨Text.tidy definition.body, none⟩)
  if entries.isEmpty then ⟨Text.tidy t, none⟩
  else ⟨Text.tidy (Text.joinLines scanned.prose), some (nest entries)⟩
termination_by t.length
decreasing_by exact length_body_lt _member

-- The schema with its description taken from a text: the prose of the text, where the schema can
-- have properties, with the properties that the text defines, and otherwise the whole text.
def document (t : Text) (schema : Schema) : Schema :=
  if schema.hosts then (read t).fill schema else schema.describe (Text.tidy t)

end Outline

end CallSchema
