import CallSchema.Json.Basic
import CallSchema.Schema.Basic

set_option autoImplicit false

namespace CallSchema.Schema

def described (description : Option Text) (fields : List (Text × Json)) : Json :=
  match description with
  | none => .record fields
  | some text => .record (("description", .text text) :: fields)

mutual

def toJson : Schema → Json
  | .scalar description type =>
    described description [("type", .text (typeName (.scalar none type)))]
  | .array description items =>
    described description [("type", .text "array"), ("items", itemsJson items)]
  | .object description properties required =>
    described description [("type", .text "object"),
      ("properties", .record (propertyFields properties)),
      ("required", .list (required.map .text))]
termination_by structural schema => schema

def itemsJson : Option Schema → Json
  | none => .record []
  | some schema => toJson schema
termination_by structural items => items

def propertyFields : List (Text × Schema) → List (Text × Json)
  | [] => []
  | property :: rest => propertyField property :: propertyFields rest
termination_by structural properties => properties

def propertyField : Text × Schema → Text × Json
  | (name, schema) => (name, toJson schema)
termination_by structural property => property

end

def text (schema : Schema) : Text := schema.toJson.compact

end CallSchema.Schema
