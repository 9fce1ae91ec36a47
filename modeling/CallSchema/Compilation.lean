import CallSchema.Failure
import CallSchema.Function
import CallSchema.Table

set_option autoImplicit false

namespace CallSchema

-- What is known of callables: for each dotted location the documentation of the callable there, if
-- it has any, or the reason why there is no such callable.
abbrev Lookup := Text → Except Failure (Option Documentation)

abbrev NameTable := List (Text × Text)

namespace Compilation

def function (lookup : Lookup) (name location : Text) : Except Failure FunctionSchema := do
  match ← lookup location with
  | some documentation => return .ofDocumentation name documentation
  | none => throw (.undocumented location)

def inOrder (a b : FunctionSchema) : Bool := Text.inOrder a.name b.name

def package (lookup : Lookup) (table : NameTable) : List FunctionSchema :=
  (table.filterMap fun entry => (function lookup entry.1 entry.2).toOption).mergeSort inOrder

end Compilation

end CallSchema
