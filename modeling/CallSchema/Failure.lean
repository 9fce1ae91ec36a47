import CallSchema.DocMode
import CallSchema.FileTree.Basic

set_option autoImplicit false

namespace CallSchema

inductive Failure where
  -- No source file belongs to a dotted location.
  | unresolvable (location : Text)
  | callableMissing (location : Text) (file : Path)
  | undocumented (location : Text)
  | packageInitMissing (package : Path)
  -- The file declares no table of public names, or an empty one.
  | tableMissing (file : Path)
  | alternateMissing (mode : DocMode) (package : Text) (expected : Path)
  | io (path : Path) (cause : Cause)
  | unknownMode (name : Text)
  | badConfiguration (file : Path)
  | notPackage (path : Path)
  deriving DecidableEq, Repr

namespace Failure

def quoted (t : Text) : Text := '\'' :: t ++ ['\'']

def message : Failure → Text
  | unresolvable location => "could not resolve a source file for ".toList ++ quoted location
  | callableMissing location file =>
    "callable ".toList ++ quoted location ++ " not found in ".toList ++ file.text
  | undocumented location => "no documentation found for ".toList ++ quoted location
  | packageInitMissing package => "__init__.py not found in package ".toList ++ package.text
  | tableMissing file => "no literal _function_map table in ".toList ++ file.text
  | alternateMissing mode package expected =>
    mode.name ++ " schema does not exist for ".toList ++ package ++ " (expected ".toList ++
      expected.text ++ [')']
  | io path cause => "I/O error on ".toList ++ path.text ++ ": ".toList ++ cause.message
  | unknownMode name =>
    "invalid configuration: invalid doc mode ".toList ++ quoted name ++
      ", expected raw_docstring, concise or medium_detail".toList
  | badConfiguration file => "invalid configuration: ".toList ++ file.text
  | notPackage path => "not a package directory: ".toList ++ path.text

end Failure

end CallSchema
