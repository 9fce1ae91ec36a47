import CallSchema.Proofs.Compilation
import CallSchema.Proofs.FileTree.Alike
import CallSchema.Proofs.Callable.Session
import CallSchema.Proofs.Package.Steps

set_option autoImplicit false

namespace CallSchema

open FileTree (AgreeOn Alike)

namespace Action

variable {α β : Type} {Related : FileTree → FileTree → Prop} {tree other : FileTree}

theorem alike_bind {action counterpart : Action α} {f g : α → Action β}
    (first : Alike Related (action tree) (counterpart other))
    (later : ∀ a middle after, action tree = (.ok a, middle) → counterpart other = (.ok a, after) →
      Related middle after → Alike Related (f a middle) (g a after)) :
    Alike Related ((action >>= f) tree) ((counterpart >>= g) other) := by
  obtain ⟨same, related⟩ := first
  cases run : action tree with
  | mk result middle =>
    cases otherRun : counterpart other with
    | mk otherResult after =>
      rw [run, otherRun] at same related
      cases same
      cases result with
      | error failure =>
        rw [bind_error run, bind_error otherRun]
        exact ⟨rfl, related⟩
      | ok a =>
        rw [bind_ok run, bind_ok otherRun]
        exact later a middle after run otherRun related

theorem alike_look_bind {f g : FileTree → Except Failure α} {next counterpart : α → Action β}
    (same : g other = f tree) (start : Related tree other)
    (later : ∀ a, f tree = .ok a → Alike Related (next a tree) (counterpart a other)) :
    Alike Related ((look f >>= next) tree) ((look g >>= counterpart) other) := by
  refine alike_bind ⟨same, start⟩ fun a middle after run otherRun _ => ?_
  obtain ⟨known, rfl⟩ := Prod.mk.inj run
  obtain ⟨-, rfl⟩ := Prod.mk.inj otherRun
  exact later a known

theorem alike_change {path : Path} {f g : FileTree.Change}
    (same : Alike Related (f tree) (g other)) :
    Alike Related (change path f tree) (change path g other) :=
  ⟨congrArg (Except.mapError (Failure.io path)) same.1, same.2⟩

end Action

namespace Compilation

variable {lookup other : Lookup} {table : NameTable}

theorem package_congr (same : ∀ entry ∈ table, other entry.2 = lookup entry.2) :
    package other table = package lookup table := by
  have each : ∀ entry ∈ table, (function other entry.1 entry.2).toOption =
      (function lookup entry.1 entry.2).toOption := by
    intro entry mem
    simp only [function, same entry mem]
  simp only [package, List.filterMap_congr each]

end Compilation

namespace Package

variable {Related : FileTree → FileTree → Prop} {tree other : FileTree} {package root file : Path}
  {mode : DocMode} {found : Text}

theorem table?_congr (agree : AgreeOn tree other (initFile package)) :
    table? other (initFile package) = table? tree (initFile package) := by
  simp only [table?, agree.readText]

theorem name_congr (agree : AgreeOn tree other (initFile package)) :
    name other package = name tree package := by
  simp only [name, agree.isFile]

theorem schemas_congr (agree : AgreeOn tree other (initFile package))
    (same : ∀ table entry, table? tree (initFile package) = .ok (some table) → entry ∈ table →
      Callable.resolve other.sources root entry.2 = Callable.resolve tree.sources root entry.2) :
    schemas other package root = schemas tree package root := by
  unfold schemas
  rw [table?_congr agree]
  cases read : table? tree (initFile package) with
  | error failure => rfl
  | ok table =>
    match table with
    | none => rfl
    | some [] => rfl
    | some (first :: rest) =>
      dsimp only
      rw [Compilation.package_congr fun entry mem => ?_]
      simp only [Callable.lookup, same _ entry read mem]

theorem alike_makeArtifact (start : Related tree other)
    (compiled : mode = .rawDocstring → schemas other package root = schemas tree package root)
    (alternate : other.isFile (alternateFile package (mode.artifactName found)) =
      tree.isFile (alternateFile package (mode.artifactName found)))
    (parent : Alike Related (makeParent file tree) (makeParent file other))
    (write : ∀ middle after content, makeParent file tree = (.ok (), middle) →
      makeParent file other = (.ok (), after) → Related middle after →
      Alike Related (FileTree.write file content middle) (FileTree.write file content after))
    (copy : ∀ middle after, makeParent file tree = (.ok (), middle) →
      makeParent file other = (.ok (), after) → Related middle after →
      Alike Related
        (FileTree.copy (alternateFile package (mode.artifactName found)) file middle)
        (FileTree.copy (alternateFile package (mode.artifactName found)) file after)) :
    Alike Related (makeArtifact mode package root found file tree)
      (makeArtifact mode package root found file other) := by
  have alternately : Alike Related (copyArtifact mode package found file tree)
      (copyArtifact mode package found file other) := by
    refine Action.alike_look_bind (by simp only [alternate]) start fun _ _ => ?_
    refine Action.alike_bind parent fun _ middle after made otherMade related => ?_
    refine Action.alike_bind (Action.alike_change (copy middle after made otherMade related)) ?_
    exact fun _ _ _ _ _ last => ⟨rfl, last⟩
  cases mode with
  | rawDocstring =>
    refine Action.alike_look_bind (compiled rfl) start fun made _ => ?_
    by_cases empty : made.isEmpty = true
    · simp only [if_pos empty]
      exact ⟨rfl, start⟩
    · simp only [if_neg empty]
      refine Action.alike_bind parent fun _ middle after made otherMade related => ?_
      refine Action.alike_bind
        (Action.alike_change (write middle after _ made otherMade related)) ?_
      exact fun _ _ _ _ _ last => ⟨rfl, last⟩
  | concise => exact alternately
  | mediumDetail => exact alternately

end Package

end CallSchema
