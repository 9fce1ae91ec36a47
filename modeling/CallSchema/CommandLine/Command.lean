import CallSchema.CommandLine.Arguments
import CallSchema.DocMode
import CallSchema.FileTree.Path

set_option autoImplicit false

namespace CallSchema.CommandLine

inductive Command where
  | package (directory output : Path) (sourceRoot : Option Path) (mode : DocMode)
  | all (sources output : Path) (deferred : Option Text) (only : List Text) (config : Option Path)
    (jobs : Option Nat)
  deriving DecidableEq, Repr

def defaultOutput : Text := "./Schemas"

def defaultSources : Text := "./APIs"

def pathOption (name : String) : OptionRule := ⟨name, false, (!·.isEmpty)⟩

def count? (value : Text) : Option Nat := do
  let digits := (Text.stripStart? ['+'] value).getD value
  guard (!digits.isEmpty && digits.all Char.isDigit)
  let count := digits.foldl (fun n c => 10 * n + (c.toNat - '0'.toNat)) 0
  guard (count < UInt64.size)
  return count

namespace Command

def packageRules : Rules where
  options := [pathOption "out", pathOption "source-root",
    ⟨"doc-mode", false, fun value => (DocMode.ofName? value).isSome⟩]
  operands := 1

def allRules : Rules where
  options := [pathOption "src", pathOption "out", ⟨"defer", false, fun _ => true⟩,
    ⟨"only", true, fun _ => true⟩, pathOption "config",
    ⟨"jobs", false, fun value => (count? value).isSome⟩]
  operands := 0

def ofPackageArguments (given : Given) : Command :=
  .package ⟨given.operands.headD []⟩ ⟨(given.value? "out").getD defaultOutput⟩
    ((given.value? "source-root").map Path.mk)
    (((given.value? "doc-mode").bind DocMode.ofName?).getD .rawDocstring)

def ofAllArguments (given : Given) : Command :=
  .all ⟨(given.value? "src").getD defaultSources⟩ ⟨(given.value? "out").getD defaultOutput⟩
    (given.value? "defer") (given.values "only") ((given.value? "config").map Path.mk)
    ((given.value? "jobs").bind count?)

end Command

inductive Topic where
  | program | package | all | help
  deriving DecidableEq, Repr

inductive Request where
  | run (command : Command)
  | help (topic : Topic)
  | version
  | misuse
  deriving DecidableEq, Repr

namespace Request

def ofArguments (topic : Topic) (rules : Rules) (command : Given → Command)
    (arguments : List Text) : Request :=
  match Given.read rules arguments with
  | .ok given => .run (command given)
  | .error .help => .help topic
  | .error .misuse => .misuse

def ofHelpArguments (arguments : List Text) : Request :=
  if arguments = [] then .help .program
  else if arguments = ["package".toList] then .help .package
  else if arguments = ["all".toList] then .help .all
  else if arguments = ["help".toList] then .help .help
  else .misuse

def ofOption (option : Text) : Request :=
  if option = "--help" then .help .program
  else if option = "--version" then .version
  else match option with
    | '-' :: 'h' :: _ => .help .program
    | '-' :: 'V' :: _ => .version
    | _ => .misuse

def read : List Text → Request
  | [] => .misuse
  | first :: rest =>
    if first = "package" then
      ofArguments .package Command.packageRules Command.ofPackageArguments rest
    else if first = "all" then ofArguments .all Command.allRules Command.ofAllArguments rest
    else if first = "help" then ofHelpArguments rest
    else ofOption first

end Request

end CallSchema.CommandLine
