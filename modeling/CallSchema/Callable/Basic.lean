import CallSchema.Callable.Location
import CallSchema.Compilation
import CallSchema.Docstring.Reading
import CallSchema.Source.StatementReader

set_option autoImplicit false

namespace CallSchema

open Source (Module Function)

structure Callable where
  location : Text
  file : Path
  docstring : Option Docstring
  -- The names of the parameters that have a default, in ascending order.
  defaults : List Text

structure SourceView where
  isFile : Path → Bool
  text : Path → Except Cause Text

def FileTree.sources (tree : FileTree) : SourceView := ⟨tree.isFile, tree.readText⟩

namespace Callable

def ofFunction (location : Text) (file : Path) (function : Function) : Callable where
  location := location
  file := file
  docstring := function.docstring?.map Docstring.read
  defaults := function.defaults.eraseDups.mergeSort Text.inOrder

-- The statements that a location leads to: those of a class if there is one of that name, and
-- otherwise those of the module.
def scope (module : Module) (location : Text) (file : Path) : List Source.Statement :=
  ((DottedLocation.className? location file).bind module.classBody?).getD module.statements

def ofSource (location : Text) (file : Path) (source : Text) : Except Failure Callable :=
  match Function.find? (DottedLocation.functionName location)
      (scope (Module.read source) location file) with
  | some function => .ok (ofFunction location file function)
  | none => .error (.callableMissing location file)

def resolve (sources : SourceView) (root : Path) (location : Text) : Except Failure Callable :=
  match DottedLocation.sourceFile? sources.isFile root location with
  | none => .error (.unresolvable location)
  | some file =>
    match sources.text file with
    | .ok source => ofSource location file source
    | .error cause => .error (.io file cause)

def parameters (callable : Callable) : List Parameter :=
  match callable.docstring with
  | some docstring => docstring.items.map (Docstring.Item.parameter callable.defaults)
  | none => []

def documentation (callable : Callable) : Option Documentation :=
  callable.docstring.map fun docstring => ⟨docstring.short, docstring.long, callable.parameters⟩

def lookup (sources : SourceView) (root : Path) : Lookup := fun location =>
  (resolve sources root location).map documentation

end Callable

end CallSchema
