import CallSchema.CommandLine.Places
import CallSchema.CommandLine.Run
import CallSchema.FileTree.Encoding

set_option autoImplicit false

namespace CallSchema.Program

def nameOf (location : Location) : String := String.ofList (FileTree.pathOf location).text

-- The deepest nesting that is followed, so that links in a circle come to an end.
def deepest : Nat := 64

def takeIn : Nat → Location → IO (List (Location × Entry))
  | 0, _ => return []
  | depth + 1, location => do
    let path := System.mkFilePath [nameOf location]
    if ← path.isDir then
      let children ← (← path.readDir).toList.mapM fun child =>
        takeIn depth (location ++ [child.fileName.toList])
      return (location, .directory) :: children.flatten
    else if ← path.pathExists then
      return [(location, .file (.ofBytes (← IO.FS.readBinFile path)))]
    else return []

def takeInAlone (location : Location) : IO (List (Location × Entry)) := do
  let path := System.mkFilePath [nameOf location]
  if ← path.isDir then return [(location, .directory)]
  else if ← path.pathExists then
    return [(location, .file (.ofBytes (← IO.FS.readBinFile path)))]
  else return []

def treeFor (arguments : List Text) : IO FileTree := do
  let current : Path := ⟨(← IO.currentDir).toString.toList⟩
  let here := CommandLine.locationOf current
  let places := match CommandLine.Request.read arguments with
    | .run command => command.places current
    | _ => []
  let above := ((here :: places).flatMap fun place => CommandLine.above place) ++ [here]
  let alone := above.eraseDups.filter fun location =>
    !places.any fun place => place.isPrefixOf location
  let highest ← alone.mapM takeInAlone
  let deep ← places.mapM (takeIn deepest)
  return ⟨(highest.flatten ++ deep.flatten).filter fun entry => !entry.1.isEmpty, here⟩

def writeBack (before after : FileTree) : IO Unit := do
  for entry in after.entries do
    if entry.2 == .directory && (before.find? entry.1).isNone then
      IO.FS.createDirAll (System.mkFilePath [nameOf entry.1])
  for change in FileTree.changedFiles before after do
    IO.FS.writeBinFile (System.mkFilePath [String.ofList change.1.text]) change.2.toBytes

end CallSchema.Program

open CallSchema in
def main (arguments : List String) : IO UInt32 := do
  let arguments := arguments.map String.toList
  let before ← Program.treeFor arguments
  let (answer, after) := CommandLine.run arguments before
  Program.writeBack before after
  IO.print (String.ofList answer.output)
  for line in answer.errors do
    IO.eprintln (String.ofList line)
  if CommandLine.Request.read arguments = .misuse then
    IO.eprint (String.ofList CommandLine.Topic.program.text)
  return answer.code
