import CallSchema.DocMode
import CallSchema.FileTree.Basic

set_option autoImplicit false

namespace CallSchema.Package

structure Options where
  mode : DocMode
  -- The directory that locations start from. By default the one that the package lies in.
  sourceRoot : Option Path
  -- The file name of the artifact. By default the one that the mode gives.
  fileName : Option Text
  deriving DecidableEq, Repr

def initFile (package : Path) : Path := package.join "__init__.py"

def alternateFile (package : Path) (artifact : Text) : Path :=
  ((package.join "SimulationEngine").join "alternate_fcds").join artifact

def variantsDirectory (package : Path) : Path := package.join "mutations"

-- The directory that the artifact of a variant goes to: it lies beside the directory that the
-- artifact of the package goes to.
def variantOutput (output : Path) (variant : Text) : Path :=
  ((output.parent?.getD output).join "MutationSchemas").join variant

def isIgnored (name : Text) : Bool := name == "__pycache__".toList || name.head? == some '.'

def directoriesIn (tree : FileTree) (path : Path) : Except Cause (List Text) := do
  return (← tree.list path).filter fun name => tree.isDirectory (path.join name) && !isIgnored name

def variants (tree : FileTree) (package : Path) : List Text :=
  ((directoriesIn tree (variantsDirectory package)).toOption).getD []

end CallSchema.Package
