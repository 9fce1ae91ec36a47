import CallSchema.CommandLine.Command
import CallSchema.FileTree.Basic
import CallSchema.Package.Layout

set_option autoImplicit false

namespace CallSchema.CommandLine

def locationOf (path : Path) : Location :=
  path.names.foldl (fun location name =>
    if name = ['.', '.'] then location.dropLast else location ++ [name]) []

def Command.paths (current : Path) : Command → List Path
  | .package directory output sourceRoot _ =>
    let directory := Path.absolute current directory
    let output := Path.absolute current output
    [directory, (sourceRoot.orElse fun _ => directory.parent?).getD directory, output,
      Package.variantOutput output []]
  | .all sources output _ _ config _ =>
    [sources, output, Package.variantOutput (Path.absolute current output) []] ++ config.toList

def Command.places (current : Path) (command : Command) : List Location :=
  let places := ((command.paths current).map fun path =>
    locationOf (Path.absolute current path)).eraseDups
  places.filter fun place => !places.any fun other => other != place && other.isPrefixOf place

def above (place : Location) : List Location :=
  (List.range place.length).filterMap fun n => if n = 0 then none else some (place.take n)

end CallSchema.CommandLine
