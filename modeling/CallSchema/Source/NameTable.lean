import CallSchema.Compilation
import CallSchema.Source.StatementReader

set_option autoImplicit false

namespace CallSchema.NameTable

open Source

def variableName : Text := "_function_map"

def ofExpression? : Expression → Option NameTable
  | .dictionary false items => (items.mapM Item.texts?).map Table.ofEntries
  | _ => none

def ofModule? (module : Module) (name : Text) : Option NameTable := do
  guard module.wellFormed
  let assignment ← module.assignmentTo? name
  ofExpression? (← assignment.value?)

def read? (source name : Text) : Option NameTable := ofModule? (Module.read source) name

end CallSchema.NameTable
