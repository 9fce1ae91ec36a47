import CallSchema.Table

set_option autoImplicit false

namespace CallSchema

inductive Scalar where
  | string | integer | number | boolean | null
  deriving DecidableEq, Repr

inductive Schema where
  | scalar (description : Option Text) (type : Scalar)
  -- An array without `items` takes items of any kind.
  | array (description : Option Text) (items : Option Schema)
  | object (description : Option Text) (properties : List (Text × Schema)) (required : List Text)

structure Shape where
  properties : List (Text × Schema)
  required : List Text

namespace Shape

def empty : Shape := ⟨[], []⟩

def insert (shape : Shape) (name : Text) (schema : Schema) (required : Bool) : Shape where
  properties := Table.put name schema shape.properties
  required :=
    if required && !shape.required.contains name then shape.required ++ [name] else shape.required

-- The properties of `other` in place of the present ones, and its required names if it has any.
def absorb (shape other : Shape) : Shape where
  properties := other.properties
  required := if other.required.isEmpty then shape.required else other.required

end Shape

namespace Schema

def string : Schema := .scalar none .string

def integer : Schema := .scalar none .integer

def number : Schema := .scalar none .number

def boolean : Schema := .scalar none .boolean

def null : Schema := .scalar none .null

def arrayOf (items : Schema) : Schema := .array none (some items)

def anyArray : Schema := .array none none

def ofShape (shape : Shape) : Schema := .object none shape.properties shape.required

def anyObject : Schema := ofShape .empty

def description : Schema → Option Text
  | .scalar description _ => description
  | .array description _ => description
  | .object description _ _ => description

def describe (text : Text) (schema : Schema) : Schema :=
  let description := if text.isEmpty then none else some text
  match schema with
  | .scalar _ type => .scalar description type
  | .array _ items => .array description items
  | .object _ properties required => .object description properties required

def typeName : Schema → Text
  | .scalar _ .string => "string"
  | .scalar _ .integer => "integer"
  | .scalar _ .number => "number"
  | .scalar _ .boolean => "boolean"
  | .scalar _ .null => "null"
  | .array _ _ => "array"
  | .object _ _ _ => "object"

def shape? : Schema → Option Shape
  | .object _ properties required => some ⟨properties, required⟩
  | _ => none

def items? : Schema → Option Schema
  | .array _ items => items
  | _ => none

def isObject (schema : Schema) : Bool := schema.shape?.isSome

def isArrayOfObjects (schema : Schema) : Bool := schema.items?.any isObject

def host? (schema : Schema) : Option Shape :=
  schema.shape?.or (schema.items?.bind shape?)

def hosts (schema : Schema) : Bool := schema.isObject || schema.isArrayOfObjects

def onShape (change : Shape → Shape) : Schema → Schema
  | .object description properties required =>
    let shape := change ⟨properties, required⟩
    .object description shape.properties shape.required
  | schema => schema

-- The schema with its host changed; a schema without a host stays as it is.
def onHost (change : Shape → Shape) : Schema → Schema
  | .array description items => .array description (items.map (onShape change))
  | schema => onShape change schema

def property? (name : Text) (schema : Schema) : Option Schema :=
  schema.shape?.bind fun shape => Table.get? name shape.properties

end Schema

end CallSchema
