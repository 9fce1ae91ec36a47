import CallSchema.Json.Quoted

set_option autoImplicit false

namespace CallSchema

inductive Json where
  | null
  | bool (value : Bool)
  | number (digits : Text)
  | string (escaped : Text)
  | list (items : List Json)
  | object (fields : List (Text × Json))

namespace Json

def text (t : Text) : Json := .string (escape t)

def record (fields : List (Text × Json)) : Json :=
  .object (fields.map fun field => (escape field.1, field.2))

def quoted (escaped : Text) : Text := '"' :: escaped ++ ['"']

mutual

def compact : Json → Text
  | .null => "null"
  | .bool true => "true"
  | .bool false => "false"
  | .number digits => digits
  | .string escaped => quoted escaped
  | .list items => '[' :: List.intercalate [','] (compactItems items) ++ [']']
  | .object fields => '{' :: List.intercalate [','] (compactFields fields) ++ ['}']
termination_by structural value => value

def compactItems : List Json → List Text
  | [] => []
  | item :: rest => compact item :: compactItems rest
termination_by structural items => items

def compactFields : List (Text × Json) → List Text
  | [] => []
  | field :: rest => compactField field :: compactFields rest
termination_by structural fields => fields

def compactField : Text × Json → Text
  | (name, value) => quoted name ++ ':' :: compact value
termination_by structural field => field

end

def newline (depth : Nat) : Text := '\n' :: List.replicate (2 * depth) ' '

def stacked (opening closing : Char) (depth : Nat) (entries : List Text) : Text :=
  if entries.isEmpty then [opening, closing]
  else
    opening :: newline (depth + 1) ++ List.intercalate (',' :: newline (depth + 1)) entries ++
      newline depth ++ [closing]

mutual

def prettyAt (depth : Nat) : Json → Text
  | .null => "null"
  | .bool true => "true"
  | .bool false => "false"
  | .number digits => digits
  | .string escaped => quoted escaped
  | .list items => stacked '[' ']' depth (prettyItems (depth + 1) items)
  | .object fields => stacked '{' '}' depth (prettyFields (depth + 1) fields)
termination_by structural value => value

def prettyItems (depth : Nat) : List Json → List Text
  | [] => []
  | item :: rest => prettyAt depth item :: prettyItems depth rest
termination_by structural items => items

def prettyFields (depth : Nat) : List (Text × Json) → List Text
  | [] => []
  | field :: rest => prettyField depth field :: prettyFields depth rest
termination_by structural fields => fields

def prettyField (depth : Nat) : Text × Json → Text
  | (name, value) => quoted name ++ ':' :: ' ' :: prettyAt depth value
termination_by structural field => field

end

def pretty (value : Json) : Text := prettyAt 0 value

end Json

end CallSchema
