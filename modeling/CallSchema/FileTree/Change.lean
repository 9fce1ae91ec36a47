import CallSchema.FileTree.Basic

set_option autoImplicit false

namespace CallSchema.FileTree

abbrev Change := FileTree → Except Cause Unit × FileTree

def put (tree : FileTree) (location : Location) (entry : Entry) : FileTree :=
  { tree with entries := Table.put location entry tree.entries }

def locateParent (tree : FileTree) (path : Path) : Except Cause (Location × Text) := do
  let segments := path.segments
  let location ← segments.dropLast.foldlM tree.step (tree.origin path)
  match tree.find? location with
  | some .directory => .ok (location, segments.getLastD [])
  | some (.file _) => .error .notDirectory
  | none => .error .notFound

def withoutClosingSlashes (path : Path) : Path :=
  match path.text.reverse.dropWhile (· = '/') with
  | [] => path
  | backwards => ⟨backwards.reverse⟩

-- The place that a file is written to. A closing slash makes the path that of a directory.
def target (tree : FileTree) (path : Path) : Except Cause Location := do
  if path.text = [] then .error .notFound
  let stripped := withoutClosingSlashes path
  let (directory, name) ← tree.locateParent stripped
  if stripped ≠ path ∨ name = [] ∨ name = ['.'] ∨ name = ['.', '.'] then .error .isDirectory
  if tree.find? (directory ++ [name]) = some .directory then .error .isDirectory
  return directory ++ [name]

def write (path : Path) (content : Content) : Change := fun tree =>
  match tree.target path with
  | .ok location => (.ok (), tree.put location (.file content))
  | .error cause => (.error cause, tree)

-- Copy a file. The target is emptied before the source is read.
def copy (source path : Path) : Change := fun tree =>
  match tree.target path with
  | .error cause => (.error cause, tree)
  | .ok location =>
    -- So a file copied onto itself ends up empty.
    let opened := tree.put location (.file (.text []))
    match opened.read source with
    | .ok content => (.ok (), opened.put location (.file content))
    | .error cause => (.error cause, opened)

def makeDirectory (path : Path) : Change := fun tree =>
  let path := withoutClosingSlashes path
  if path.text = [] then (.error .notFound, tree)
  else match tree.locateParent path with
    | .error cause => (.error cause, tree)
    | .ok (directory, name) =>
      if name = [] ∨ name = ['.'] ∨ name = ['.', '.'] then (.error .exists, tree)
      else if (tree.find? (directory ++ [name])).isSome then (.error .exists, tree)
      else (.ok (), tree.put (directory ++ [name]) .directory)

def unlessDirectory (path : Path) (cause : Cause) : Change := fun tree =>
  if tree.isDirectory path then (.ok (), tree) else (.error cause, tree)

-- Make a directory, and before it the ones above that are missing; `levels` bounds their number.
def makeDirectoriesWithin : Nat → Path → Change
  | 0, _ => fun tree => (.error .notFound, tree)
  | levels + 1, path => fun tree =>
    if path.text = [] then (.ok (), tree)
    else match makeDirectory path tree with
      | (.ok (), tree) => (.ok (), tree)
      | (.error .notFound, tree) =>
        match path.parent? with
        | none => (.error .notFound, tree)
        | some parent =>
          match makeDirectoriesWithin levels parent tree with
          | (.error cause, tree) => (.error cause, tree)
          | (.ok (), tree) =>
            match makeDirectory path tree with
            | (.ok (), tree) => (.ok (), tree)
            | (.error cause, tree) => unlessDirectory path cause tree
      | (.error cause, tree) => unlessDirectory path cause tree

-- Make a directory and the ones above it. There are no more of them than the path has characters.
def makeDirectories (path : Path) : Change := makeDirectoriesWithin (path.text.length + 1) path

def remove (path : Path) : Change := fun tree =>
  match tree.locate path with
  | .error cause => (.error cause, tree)
  | .ok location =>
    if tree.find? location = some .directory then (.error .isDirectory, tree)
    else (.ok (), { tree with entries := tree.entries.filter (·.1 ≠ location) })

def changedFiles (before after : FileTree) : List (Path × Content) :=
  let changed := after.entries.filterMap fun entry =>
    match entry.2 with
    | .file content =>
      if before.find? entry.1 = some (.file content) then none
      else some (pathOf entry.1, content)
    | .directory => none
  changed.mergeSort fun a b => Text.inOrder a.1.text b.1.text

end CallSchema.FileTree
