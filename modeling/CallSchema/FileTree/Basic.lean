import CallSchema.FileTree.Path
import CallSchema.Table

set_option autoImplicit false

namespace CallSchema

inductive Content where
  | text (t : Text)
  | bytes (values : List UInt8)
  deriving DecidableEq, Repr

inductive Entry where
  | directory
  | file (content : Content)
  deriving DecidableEq, Repr

inductive Cause where
  | notFound | exists | notDirectory | isDirectory | notText | emptyPath
  deriving DecidableEq, Repr

def Cause.message : Cause → Text
  | .notFound => "No such file or directory (os error 2)"
  | .exists => "File exists (os error 17)"
  | .notDirectory => "Not a directory (os error 20)"
  | .isDirectory => "Is a directory (os error 21)"
  | .notText => "stream did not contain valid UTF-8"
  | .emptyPath => "cannot make an empty path absolute"

abbrev Location := List Text

structure FileTree where
  entries : List (Location × Entry)
  -- The directory that relative paths start from.
  current : Location

namespace FileTree

def find? (tree : FileTree) (location : Location) : Option Entry :=
  if location = [] then some .directory else Table.get? location tree.entries

def pathOf (location : Location) : Path := location.foldl Path.join ⟨['/']⟩

def currentPath (tree : FileTree) : Path := pathOf tree.current

def absolute (tree : FileTree) (path : Path) : Except Cause Path :=
  if path.text = [] then .error .emptyPath else .ok (Path.absolute tree.currentPath path)

def step (tree : FileTree) (location : Location) (name : Text) : Except Cause Location :=
  match tree.find? location with
  | none => .error .notFound
  | some (.file _) => .error .notDirectory
  | some .directory =>
    if name = [] ∨ name = ['.'] then .ok location
    else if name = ['.', '.'] then .ok location.dropLast
    else if (tree.find? (location ++ [name])).isSome then .ok (location ++ [name])
    else .error .notFound

def origin (tree : FileTree) (path : Path) : Location :=
  if path.isAbsolute then [] else tree.current

def locate (tree : FileTree) (path : Path) : Except Cause Location :=
  if path.text = [] then .error .notFound
  else path.segments.foldlM tree.step (tree.origin path)

def entry? (tree : FileTree) (path : Path) : Option Entry :=
  match tree.locate path with
  | .ok location => tree.find? location
  | .error _ => none

def isFile (tree : FileTree) (path : Path) : Bool :=
  match tree.entry? path with
  | some (.file _) => true
  | _ => false

def isDirectory (tree : FileTree) (path : Path) : Bool := tree.entry? path == some .directory

def read (tree : FileTree) (path : Path) : Except Cause Content := do
  match tree.find? (← tree.locate path) with
  | some (.file content) => .ok content
  | some .directory => .error .isDirectory
  | none => .error .notFound

def readText (tree : FileTree) (path : Path) : Except Cause Text := do
  match ← tree.read path with
  | .text t => .ok t
  | .bytes _ => .error .notText

def list (tree : FileTree) (path : Path) : Except Cause (List Text) := do
  let location ← tree.locate path
  match tree.find? location with
  | some .directory =>
    let children := tree.entries.filterMap fun entry =>
      if entry.1.dropLast = location then entry.1.getLast? else none
    .ok (children.mergeSort Text.inOrder)
  | some (.file _) => .error .notDirectory
  | none => .error .notFound

end FileTree

end CallSchema
