import CallSchema.Config
import CallSchema.Package.Generation

set_option autoImplicit false

namespace CallSchema

-- What is to be made, however many packages are under way at a time.
structure Batch where
  -- The directory of the packages, from which their locations start as well.
  sources : Path
  output : Path
  -- The package that is put off.
  deferred : Option Text
  -- The packages that are made; all of them if the list is empty.
  only : List Text
  config : Config

structure Outcome where
  package : Text
  result : Except Failure (List Path)

def Outcome.failed (outcome : Outcome) : Bool := !outcome.result.isOk

structure Report where
  outcomes : List Outcome

namespace Report

def failures (report : Report) : List Outcome := report.outcomes.filter Outcome.failed

def success (report : Report) : Bool := report.failures.isEmpty

end Report

namespace Batch

def discover (tree : FileTree) (sources : Path) : Except Failure (List Text) :=
  (Package.directoriesIn tree sources).mapError (Failure.io sources)

def isDeferred (batch : Batch) (package : Text) : Bool := batch.deferred == some package

def selected (batch : Batch) (packages : List Text) : List Text :=
  -- An empty list of names chooses every package.
  let chosen := packages.filter fun package => batch.only.isEmpty || batch.only.contains package
  chosen.filter (!batch.isDeferred ·) ++ chosen.filter batch.isDeferred

def options (batch : Batch) (package : Text) : Package.Options :=
  ⟨batch.config.modeFor package, some batch.sources, none⟩

def runPackage (batch : Batch) (package : Text) (tree : FileTree) : Outcome × FileTree :=
  let (result, tree) :=
    Package.generate (batch.sources.join package) batch.output (batch.options package) tree
  (⟨package, result⟩, tree)

-- One package after the other. How they may go at the same time is said of a crew.
def runAll (batch : Batch) : List Text → FileTree → List Outcome × FileTree
  | [], tree => ([], tree)
  | package :: rest, tree =>
    let (outcome, tree) := batch.runPackage package tree
    let (outcomes, tree) := batch.runAll rest tree
    (outcome :: outcomes, tree)

def run (batch : Batch) : Action Report := do
  let packages ← Action.look fun tree => discover tree batch.sources
  Action.change batch.output (FileTree.makeDirectories batch.output)
  let outcomes ← fun tree =>
    let (outcomes, tree) := batch.runAll (batch.selected packages) tree
    (.ok outcomes, tree)
  return ⟨outcomes⟩

end Batch

end CallSchema
