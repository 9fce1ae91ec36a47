import CallSchema.DocMode
import CallSchema.Json.Reader
import CallSchema.Table

set_option autoImplicit false

namespace CallSchema

structure Modes where
  overall : Option DocMode
  services : List (Text × DocMode)
  deriving DecidableEq, Repr

structure Config where
  documentation : Option Modes
  deriving DecidableEq, Repr

namespace Config

def empty : Config := ⟨none⟩

def modeFor (config : Config) (package : Text) : DocMode :=
  (config.documentation.bind fun modes =>
    (Table.get? package modes.services).or modes.overall).getD .rawDocstring

def namedFields? (fields : List (Text × Json)) : Option (List (Text × Json)) :=
  fields.mapM fun field => (Json.unescape? field.1).map (·, field.2)

def single? (fields : List (Text × Json)) (name : Text) : Option (Option Json) :=
  match fields.filter (·.1 = name) with
  | [] => some none
  | [field] => some (some field.2)
  | _ => none

def fieldValues? (names : List Text) : Json → Option (List (Option Json))
  | .object fields => do
    let fields ← namedFields? fields
    names.mapM (single? fields)
  | .list items =>
    if items.length ≤ names.length then
      some (items.map some ++ List.replicate (names.length - items.length) none)
    else none
  | _ => none

def optional? {α : Type} (read : Json → Option α) : Option Json → Option (Option α)
  | none => some none
  | some .null => some none
  | some value => (read value).map some

def mode? : Json → Option DocMode
  | .string name => (Json.unescape? name).bind DocMode.ofName?
  | .object [(name, .null)] => (Json.unescape? name).bind DocMode.ofName?
  | _ => none

def setting? (value : Json) : Option DocMode := do
  let [some mode] ← fieldValues? ["doc_mode"] value | none
  mode? mode

def services? : Option Json → Option (List (Text × DocMode))
  | none => some []
  | some (.object fields) => do
    let fields ← namedFields? fields
    return Table.ofEntries (← fields.mapM fun field => (setting? field.2).map (field.1, ·))
  | some _ => none

def modes? (value : Json) : Option Modes := do
  let [overall, services] ← fieldValues? ["global", "services"] value | none
  return ⟨← optional? setting? overall, ← services? services⟩

def ofJson? (value : Json) : Option Config := do
  let [documentation] ← fieldValues? ["documentation"] value | none
  return ⟨← optional? modes? documentation⟩

def read? (t : Text) : Option Config := (Json.read? t).bind ofJson?

end Config

end CallSchema
