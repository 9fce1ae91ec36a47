import CallSchema.Outline.Reading

set_option autoImplicit false

namespace CallSchema

inductive Edit where
  | describe (text : Text)
  | insert (name : Text) (child : Schema) (required : Bool)
  -- Fill the host with the properties that a text defines.
  | absorb (text : Text)
  -- Make an array of the schema.
  | wrap
  -- Go to the items of an array.
  | items
  -- Go to a property of an object.
  | property (name : Text)

namespace Schema

def edit? (schema : Schema) : Edit → Option Schema
  | .describe text => some (schema.describe text)
  | .insert name child required =>
    if schema.hosts then some (schema.onHost (·.insert name child required)) else none
  | .absorb text =>
    if schema.hosts then (Outline.read text).shape.map fun shape => schema.onHost (·.absorb shape)
    else none
  | .wrap => some (.arrayOf schema)
  | .items => schema.items?
  | .property name => schema.property? name

end Schema

end CallSchema
