import CallSchema.Action
import CallSchema.Callable.Basic
import CallSchema.Package.Layout
import CallSchema.Source.NameTable

set_option autoImplicit false

namespace CallSchema.Package

def table? (tree : FileTree) (file : Path) : Except Failure (Option NameTable) :=
  match tree.readText file with
  | .error cause => .error (.io file cause)
  | .ok source => .ok (NameTable.read? source NameTable.variableName)

def schemas (tree : FileTree) (package root : Path) : Except Failure (List FunctionSchema) :=
  match table? tree (initFile package) with
  | .error failure => .error failure
  | .ok none => .error (.tableMissing (initFile package))
  | .ok (some []) => .error (.tableMissing (initFile package))
  | .ok (some table) => .ok (Compilation.package (Callable.lookup tree.sources root) table)

def artifactText (schemas : List FunctionSchema) : Text :=
  (Json.list (schemas.map FunctionSchema.toJson)).pretty

def makeParent (file : Path) : Action Unit :=
  match file.parent? with
  | some parent => Action.change parent (FileTree.makeDirectories parent)
  | none => pure ()

def compileArtifact (package root file : Path) : Action (List Path) := do
  let schemas ← Action.look fun tree => schemas tree package root
  if schemas.isEmpty then return []
  makeParent file
  Action.change file (FileTree.write file (.text (artifactText schemas)))
  return [file]

def copyArtifact (mode : DocMode) (package : Path) (name : Text) (file : Path) :
    Action (List Path) := do
  let alternate := alternateFile package (mode.artifactName name)
  Action.look fun tree =>
    if tree.isFile alternate then .ok () else .error (.alternateMissing mode name alternate)
  makeParent file
  Action.change alternate (FileTree.copy alternate file)
  return [file]

def makeArtifact (mode : DocMode) (package root : Path) (name : Text) (file : Path) :
    Action (List Path) :=
  match mode with
  | .rawDocstring => compileArtifact package root file
  | mode => copyArtifact mode package name file

def name (tree : FileTree) (package : Path) : Except Failure Text :=
  match package.fileName? with
  | none => .error (.notPackage package)
  | some name =>
    if tree.isFile (initFile package) then .ok name else .error (.packageInitMissing package)

-- Make the artifacts of a package and its variants, which may have variants again: `levels` of them
-- at most. The paths start from the root.
def generateWithin : Nat → Path → Path → Options → Action (List Path)
  | 0, package, _, _ => throw (.packageInitMissing package)
  | levels + 1, package, output, options => do
    let name ← Action.look fun tree => name tree package
    let root := options.sourceRoot.getD (package.parent?.getD ⟨['.']⟩)
    let fileName := options.fileName.getD (options.mode.artifactName name)
    let written ← makeArtifact options.mode package root name (output.join fileName)
    if written.isEmpty then return []
    let variants ← Action.look fun tree => .ok (variants tree package)
    -- Variants are compiled from source whatever the mode of the package.
    let more ← Action.forEach (fun variant =>
      Action.orNothing (generateWithin levels ((variantsDirectory package).join variant)
        (variantOutput output variant) ⟨.rawDocstring, some root, some fileName⟩)) variants
    return written ++ more

-- More levels than the tree has, and than it can have once a file is at the given path.
def enoughLevels (tree : FileTree) (file : Path) : Nat :=
  (tree.entries.map (·.1.length)).foldr max 0 + tree.current.length + file.text.length + 1

def generate (package output : Path) (options : Options) : Action (List Path) := do
  let package ← Action.look fun tree => (tree.absolute package).mapError (Failure.io package)
  let output ← Action.look fun tree => (tree.absolute output).mapError (Failure.io output)
  let levels ← Action.look fun tree =>
    .ok (enoughLevels tree (output.join (options.fileName.getD [])))
  generateWithin levels package output options

end CallSchema.Package
