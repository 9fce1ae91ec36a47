import CallSchema.Callable.Session
import CallSchema.Package.Generation
import CallSchema.Steps

set_option autoImplicit false

namespace CallSchema

namespace FileTree

-- Writing starts with an empty file. Where it lies stays known, whatever the path leads to then.
def create (path : Path) : FileTree → Except Cause Location × FileTree := fun tree =>
  match tree.target path with
  | .ok location => (.ok location, tree.put location (.file (.text [])))
  | .error cause => (.error cause, tree)

def fill (location : Location) (content : Content) : FileTree → Unit × FileTree := fun tree =>
  ((), tree.put location (.file content))

end FileTree

-- Making the artifacts of a package and its variants call by call. With nothing in between it is
-- the same as doing it at once.
namespace Stepwise

open Package (Options)

def orFail {α : Type} (path : Path) (result : Except Cause α) : Steps α :=
  .done (result.mapError (Failure.io path))

def settle (path : Path) : Except Cause Unit → Steps (Except Cause Unit)
  | .ok () => return .ok ()
  | .error cause => do
    let there ← Steps.look fun tree => .ok (tree.isDirectory path)
    return if there then .ok () else .error cause

def makeDirectoriesWithin : Nat → Path → Steps (Except Cause Unit)
  | 0, _ => return .error .notFound
  | levels + 1, path =>
    if path.text = [] then return .ok ()
    else do
      match ← Steps.call (FileTree.makeDirectory path) with
      | .error .notFound =>
        match path.parent? with
        | none => return .error .notFound
        | some parent =>
          match ← makeDirectoriesWithin levels parent with
          | .error cause => return .error cause
          | .ok () => settle path (← Steps.call (FileTree.makeDirectory path))
      | made => settle path made

def makeParent (file : Path) : Steps Unit :=
  match file.parent? with
  | some parent => do
    orFail parent (← makeDirectoriesWithin (parent.text.length + 1) parent)
  | none => return ()

def write (path : Path) (content : Content) : Steps Unit := do
  let location ← orFail path (← Steps.call (FileTree.create path))
  Steps.call (FileTree.fill location content)

def copy (source path : Path) : Steps Unit := do
  let read : Steps Content := Steps.look fun tree => (tree.read source).mapError (Failure.io source)
  let _ ← read
  let location ← orFail source (← Steps.call (FileTree.create path))
  -- Here the target is empty already.
  let content ← read
  Steps.call (FileTree.fill location content)

def firstFile : List Path → Steps (Option Path)
  | [] => return none
  | path :: rest => do
    let there ← Steps.look fun tree => .ok (tree.isFile path)
    if there then return some path else firstFile rest

def resolve (session : Session) (location : Text) :
    Steps (Except Failure Callable × Session) := do
  match ← firstFile (DottedLocation.candidates session.root location) with
  | none => return (.error (.unresolvable location), session)
  | some file =>
    let (text, session) ← Steps.look fun tree => .ok (session.text tree file)
    return (text.mapError (Failure.io file) >>= Callable.ofSource location file, session)

def compile (session : Session) : NameTable → Steps (List FunctionSchema)
  | [] => return []
  | entry :: rest => do
    let (callable, session) ← resolve session entry.2
    let lookup : Lookup := fun _ => callable.map Callable.documentation
    let schema := Compilation.function lookup entry.1 entry.2
    return schema.toOption.toList ++ (← compile session rest)

def schemas (package root : Path) : Steps (List FunctionSchema) := do
  let file := Package.initFile package
  match ← Steps.look fun tree => Package.table? tree file with
  | none => .done (.error (.tableMissing file))
  | some [] => .done (.error (.tableMissing file))
  | some table => return (← compile (Session.start root) table).mergeSort Compilation.inOrder

def directories (path : Path) : List Text → Steps (List Text)
  | [] => return []
  | name :: rest => do
    let there ← Steps.look fun tree => .ok (tree.isDirectory (path.join name))
    let more ← directories path rest
    return if there && !Package.isIgnored name then name :: more else more

def variants (package : Path) : Steps (List Text) := do
  let directory := Package.variantsDirectory package
  let there ← Steps.look fun tree => .ok (tree.isDirectory directory)
  if !there then return []
  let names ← Steps.look fun tree => (tree.list directory).mapError (Failure.io directory)
  directories directory names

def compileArtifact (package root file : Path) : Steps (List Path) := do
  let schemas ← schemas package root
  if schemas.isEmpty then return []
  makeParent file
  write file (.text (Package.artifactText schemas))
  return [file]

def copyArtifact (mode : DocMode) (package : Path) (name : Text) (file : Path) :
    Steps (List Path) := do
  let alternate := Package.alternateFile package (mode.artifactName name)
  Steps.look fun tree =>
    if tree.isFile alternate then .ok () else .error (.alternateMissing mode name alternate)
  makeParent file
  copy alternate file
  return [file]

def makeArtifact (mode : DocMode) (package root : Path) (name : Text) (file : Path) :
    Steps (List Path) :=
  match mode with
  | .rawDocstring => compileArtifact package root file
  | mode => copyArtifact mode package name file

def generateWithin : Nat → Path → Path → Options → Steps (List Path)
  | 0, package, _, _ => .done (.error (.packageInitMissing package))
  | levels + 1, package, output, options => do
    let name ← Steps.look fun tree => Package.name tree package
    let root := options.sourceRoot.getD (package.parent?.getD ⟨['.']⟩)
    let fileName := options.fileName.getD (options.mode.artifactName name)
    let written ← makeArtifact options.mode package root name (output.join fileName)
    if written.isEmpty then return []
    let variants ← variants package
    let more ← Steps.forEach (fun variant =>
      (generateWithin levels ((Package.variantsDirectory package).join variant)
        (Package.variantOutput output variant) ⟨.rawDocstring, some root, some fileName⟩).orNothing)
      variants
    return written ++ more

def generate (levels : Nat) (package output : Path) (options : Options) : Steps (List Path) := do
  let package ← Steps.look fun tree => (tree.absolute package).mapError (Failure.io package)
  let output ← Steps.look fun tree => (tree.absolute output).mapError (Failure.io output)
  generateWithin levels package output options

end Stepwise

end CallSchema
