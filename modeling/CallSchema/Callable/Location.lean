import CallSchema.FileTree.Basic

set_option autoImplicit false

namespace CallSchema.DottedLocation

def names (location : Text) : List Text := (Text.pieces '.' location).filter (· ≠ [])

def modulePath (root : Path) (names : List Text) : Path := names.foldl Path.join root

-- The files that may hold a module: one of its own name, or one in a directory of that name.
def moduleFiles (root : Path) (names : List Text) : List Path :=
  let path := modulePath root names
  [path.withExtension "py", path.join "__init__.py"]

def beginnings (names : List Text) : List (List Text) :=
  (List.range names.length).reverse.map fun n => names.take (n + 1)

def candidates (root : Path) (location : Text) : List Path :=
  (beginnings (names location)).flatMap (moduleFiles root)

def sourceFile? (isFile : Path → Bool) (root : Path) (location : Text) : Option Path :=
  (candidates root location).find? isFile

def functionName (location : Text) : Text := (Text.pieces '.' location).getLastD []

-- The name of the class that a location may lead through: the last but one, unless it is the name
-- of the file.
def className? (location : Text) (file : Path) : Option Text :=
  ((Text.pieces '.' location).dropLast.getLast?).filter fun name => some name ≠ file.stem?

end CallSchema.DottedLocation
