import CallSchema.Batch
import CallSchema.Callable.Session
import CallSchema.CommandLine.Run
import CallSchema.Main
import CallSchema.Proofs.Docstring.Agreement
import CallSchema.Proofs.Docstring.Page
import CallSchema.Proofs.Outline.Reindent
import CallSchema.Proofs.Outline.Texts
import CallSchema.Proofs.Outline.ValueHint
import CallSchema.Proofs.TypeHint.Optionality
import CallSchema.Proofs.TypeHint.Structure
import CallSchema.Schema.Edit
import CallSchema.Source.NameTable
import CallSchema.Proofs.Compilation
import CallSchema.Proofs.FileTree.Path
import CallSchema.Proofs.FileTree.Growth
import CallSchema.Proofs.FileTree.Change
import CallSchema.Proofs.Action
import CallSchema.Proofs.Package.Steps
import CallSchema.Proofs.Package.Variants
import CallSchema.Proofs.Package.Artifacts
import CallSchema.Proofs.Package.Run
import CallSchema.Proofs.Batch
import CallSchema.Proofs.Package.Levels
import CallSchema.Proofs.Callable.Defaults
import CallSchema.Proofs.Callable.Session
import CallSchema.Proofs.Package.Aside
import CallSchema.Proofs.Crew.Alone
import CallSchema.Proofs.Outline.Head
import CallSchema.Proofs.TypeHint.Torn
import CallSchema.Proofs.Schema.Edit
import CallSchema.Proofs.Outline.Above
import CallSchema.Proofs.Required
import CallSchema.Proofs.Docstring.Shift
import CallSchema.Proofs.Source.Depth
import CallSchema.Proofs.Callable.Containment
import CallSchema.Proofs.Schema.Printer
import CallSchema.Proofs.Outline.Descent
import CallSchema.Proofs.TypeHint.Joined
