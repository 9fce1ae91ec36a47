import CallSchema.Crew
import CallSchema.CommandLine.Help

set_option autoImplicit false

namespace CallSchema

def Config.load (path : Path) (tree : FileTree) : Except Failure Config :=
  match tree.readText path with
  | .error cause => .error (.io path cause)
  | .ok t =>
    match Config.read? t with
    | some config => .ok config
    | none => .error (.badConfiguration path)

namespace CommandLine

structure Answer where
  code : UInt32
  -- What is printed.
  output : Text
  -- The lines that tell of errors.
  errors : List Text
  deriving DecidableEq, Repr

-- The line that tells why a command failed. What a file system says stands there twice.
def errorLine (failure : Failure) : Text :=
  let message := "error: ".toList ++ failure.message
  match failure with
  | .io _ cause => message ++ ": ".toList ++ cause.message
  | _ => message

def resultText : Except Failure (List Path) → Text
  | .ok [] => "no schemas"
  | .ok files => "ok (".toList ++ (toString files.length).toList ++ " files)".toList
  | .error failure => "FAILED: ".toList ++ failure.message

def nameWidth : Nat := 32

def outcomeLine (outcome : Outcome) : Text :=
  outcome.package ++ List.replicate (nameWidth - outcome.package.length) ' ' ++
    ' ' :: resultText outcome.result

def printed (lines : List Text) : Text := lines.flatMap (· ++ ['\n'])

def Command.action : Command → Action (List Text × Bool)
  | .package directory output sourceRoot mode => do
    let written ← Package.generate directory output ⟨mode, sourceRoot, none⟩
    return (written.map Path.text, true)
  | .all sources output deferred only config jobs => do
    let config ← Action.look fun tree =>
      (config.map fun path => Config.load path tree).getD (.ok .empty)
    -- Without a number it is up to the machine how many there are.
    let crew : Crew := ⟨⟨sources, output, deferred, only, config⟩, jobs.getD 1⟩
    -- Of the ways in which the crew may go it goes the one without any overlap.
    let report ← crew.run
    return (report.outcomes.map outcomeLine, report.success)

def Command.run (command : Command) (tree : FileTree) : Answer × FileTree :=
  match command.action tree with
  | (.ok (lines, success), tree) => (⟨if success then 0 else 1, printed lines, []⟩, tree)
  | (.error failure, tree) => (⟨1, [], [errorLine failure]⟩, tree)

def run (arguments : List Text) (tree : FileTree) : Answer × FileTree :=
  match Request.read arguments with
  | .run command => command.run tree
  | .help topic => (⟨0, topic.text, []⟩, tree)
  | .version => (⟨0, versionText, []⟩, tree)
  | .misuse => (⟨2, [], []⟩, tree)

end CommandLine

end CallSchema
