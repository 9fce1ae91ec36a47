import CallSchema.Batch
import CallSchema.Proofs.Package.Artifacts

set_option autoImplicit false

namespace CallSchema

deriving instance DecidableEq for Outcome

namespace Batch

open DocMode (Shadows)
open FileTree (Grows)
open Package (Covers variantFile)
open CallSchema.Path (IsName)

variable {batch : Batch} {tree after : FileTree}

def goal (batch : Batch) (tree : FileTree) : Path := Path.absolute tree.currentPath batch.output

def artifact (batch : Batch) (package : Text) : Text :=
  (batch.config.modeFor package).artifactName package

theorem runPackage_eq (batch : Batch) (package : Text) (tree : FileTree) :
    batch.runPackage package tree =
      (⟨package, (Package.generate (batch.sources.join package) batch.output
        (batch.options package) tree).1⟩,
        (Package.generate (batch.sources.join package) batch.output
          (batch.options package) tree).2) := by
  rw [runPackage]
  cases Package.generate (batch.sources.join package) batch.output (batch.options package) tree
  rfl

theorem exists_generate {packages : List Text} {outcome : Outcome}
    (mem : outcome ∈ (batch.runAll packages tree).1) : outcome.package ∈ packages ∧
      ∃ middle, Grows tree middle ∧
        outcome.result = (Package.generate (batch.sources.join outcome.package) batch.output
          (batch.options outcome.package) middle).1 := by
  induction packages generalizing tree with
  | nil => cases mem
  | cons package rest ih =>
    have grows := (Package.reports_generate (batch.sources.join package) batch.output
      (batch.options package) tree).toGrows
    rw [runAll, runPackage_eq] at mem
    rcases List.mem_cons.mp mem with rfl | later
    · exact ⟨by simp, tree, Grows.refl tree, rfl⟩
    · obtain ⟨known, middle, more, result⟩ := ih later
      exact ⟨by simp [known], middle, grows.trans more, result⟩

theorem mem_of_mem_selected {packages : List Text} {package : Text}
    (mem : package ∈ batch.selected packages) : package ∈ packages := by
  unfold selected at mem
  rcases List.mem_append.mp mem with first | last
  · exact (List.mem_filter.mp (List.mem_filter.mp first).1).1
  · exact (List.mem_filter.mp (List.mem_filter.mp last).1).1

theorem run_eq {packages : List Text} (found : discover tree batch.sources = .ok packages)
    (made : (FileTree.makeDirectories batch.output tree).1 = .ok ()) :
    batch.run tree =
      (.ok ⟨(batch.runAll (batch.selected packages)
          (FileTree.makeDirectories batch.output tree).2).1⟩,
        (batch.runAll (batch.selected packages)
          (FileTree.makeDirectories batch.output tree).2).2) := by
  have directory : Action.change batch.output (FileTree.makeDirectories batch.output) tree =
      (.ok (), (FileTree.makeDirectories batch.output tree).2) := by
    rw [Action.change, made, Except.mapError]
  rw [run, Action.look_bind_ok found, Action.bind_ok directory]
  generalize (FileTree.makeDirectories batch.output tree).2 = middle
  cases all : batch.runAll (batch.selected packages) middle with
  | mk outcomes last => exact Action.bind_ok (by simp only [all]) _

theorem exists_run_eq {report : Report} (h : batch.run tree = (.ok report, after)) :
    ∃ packages, discover tree batch.sources = .ok packages ∧
      report.outcomes = (batch.runAll (batch.selected packages)
        (FileTree.makeDirectories batch.output tree).2).1 := by
  cases found : discover tree batch.sources with
  | error failure =>
    rw [run, Action.look_bind_error found] at h
    cases h
  | ok packages =>
    cases made : (FileTree.makeDirectories batch.output tree).1 with
    | error cause =>
      have failed : Action.change batch.output (FileTree.makeDirectories batch.output) tree =
          (.error (.io batch.output cause), (FileTree.makeDirectories batch.output tree).2) := by
        rw [Action.change, made, Except.mapError]
      rw [run, Action.look_bind_ok found, Action.bind_error failed] at h
      cases h
    | ok =>
      rw [run_eq found made] at h
      cases h
      exact ⟨packages, rfl, rfl⟩

theorem directoriesIn_of_discover {packages : List Text}
    (found : discover tree batch.sources = .ok packages) :
    Package.directoriesIn tree batch.sources = .ok packages := by
  unfold discover at found
  cases listed : Package.directoriesIn tree batch.sources with
  | error cause =>
    rw [listed] at found
    cases found
  | ok names =>
    rw [listed] at found
    cases found
    rfl

theorem isName_of_discover {packages : List Text} (wellFormed : tree.WellFormed)
    (found : discover tree batch.sources = .ok packages) : ∀ name ∈ packages, IsName name :=
  (Package.nodup_directoriesIn wellFormed (directoriesIn_of_discover found)).2

theorem exists_chains (wellFormed : tree.WellFormed) {report : Report}
    (h : batch.run tree = (.ok report, after)) {outcome : Outcome}
    (mem : outcome ∈ report.outcomes) {written : List Path} (done : outcome.result = .ok written) :
    IsName (batch.artifact outcome.package) ∧ ∃ chains : List (List Text),
      written = chains.map (variantFile (batch.goal tree) (batch.artifact outcome.package)) ∧
      (written ≠ [] → [] ∈ chains) := by
  obtain ⟨packages, found, outcomes⟩ := exists_run_eq h
  rw [outcomes] at mem
  obtain ⟨known, middle, grows, result⟩ := exists_generate mem
  have named := isName_of_discover wellFormed found _ (mem_of_mem_selected known)
  have later := (FileTree.writes_makeDirectories batch.output tree).toGrows.trans grows
  rw [done] at result
  obtain ⟨name, chains, last, covers, own⟩ :=
    Package.exists_covers (later.wellFormed wellFormed) rfl (Action.eq_ok result.symm)
  rw [Path.fileName?_absolute_join _ _ named, Option.some.injEq] at last
  have same : middle.currentPath = tree.currentPath := by
    rw [FileTree.currentPath, FileTree.currentPath, later.current]
  refine ⟨DocMode.isName_artifactName _ named, chains, ?_, own⟩
  rw [covers.written, ← last, same]
  rfl

theorem fileName?_of_mem {output path : Path} {fileName : Text} (fileNamed : IsName fileName)
    {chains : List (List Text)} (mem : path ∈ chains.map (variantFile output fileName)) :
    path.fileName? = some fileName := by
  obtain ⟨chain, -, rfl⟩ := List.mem_map.mp mem
  exact Path.fileName?_join _ fileNamed

def impostor : FileTree where
  current := []
  entries := [
    (["s"], .directory),
    (["s", "concise_crm"], .directory),
    (["s", "concise_crm", "__init__.py"],
      .file (.text "def f():\n 'F'\n_function_map=\x7b'f':'concise_crm.f'\x7d\n")),
    (["s", "crm"], .directory),
    (["s", "crm", "__init__.py"], .file (.text [])),
    (["s", "crm", "SimulationEngine"], .directory),
    (["s", "crm", "SimulationEngine", "alternate_fcds"], .directory),
    (["s", "crm", "SimulationEngine", "alternate_fcds", "concise_crm.json"], .file (.text "[]"))]

def impostorBatch : Batch := ⟨⟨"/s"⟩, ⟨"/out"⟩, none, [], ⟨some ⟨none, [("crm", .concise)]⟩⟩⟩

def impostorOutcomes : List Outcome :=
  [⟨"concise_crm", .ok [⟨"/out/concise_crm.json"⟩]⟩, ⟨"crm", .ok [⟨"/out/concise_crm.json"⟩]⟩]

theorem wellFormed_impostor : impostor.WellFormed := by decide +kernel

theorem impostor_steps :
    impostor.locate impostorBatch.sources = .ok ["s"] ∧
    impostor.find? ["s"] = some .directory ∧
    impostor.namesIn ["s"] = (["concise_crm", "crm"] : List Text) ∧
    (["concise_crm", "crm"] : List Text).filter (fun name =>
      impostor.isDirectory (impostorBatch.sources.join name) && !Package.isIgnored name) =
      (["concise_crm", "crm"] : List Text) ∧
    (FileTree.makeDirectories impostorBatch.output impostor).1 = .ok () ∧
    (impostorBatch.runAll (impostorBatch.selected ["concise_crm", "crm"])
      (FileTree.makeDirectories impostorBatch.output impostor).2).1 = impostorOutcomes := by
  decide +kernel

theorem run_impostor : ∃ after,
    impostorBatch.run impostor = (.ok ⟨impostorOutcomes⟩, after) := by
  obtain ⟨located, directory, listed, kept, made, outcomes⟩ := impostor_steps
  have found : discover impostor impostorBatch.sources =
      .ok (["concise_crm", "crm"] : List Text) := by
    rw [discover, Package.directoriesIn_eq
      (FileTree.list_of_sorted located directory listed (by decide)), kept, Except.mapError]
  rw [run_eq found made, outcomes]
  exact ⟨_, rfl⟩

/-- Two packages of a batch have an artifact in common just if one of them bears the name of the
other one's artifact, and both have been made. -/
theorem disjoint_written_iff (wellFormed : tree.WellFormed) {report : Report}
    (h : batch.run tree = (.ok report, after)) {first second : Outcome}
    (mem : first ∈ report.outcomes) (otherMem : second ∈ report.outcomes)
    (differ : first.package ≠ second.package) {written other : List Path}
    (done : first.result = .ok written) (otherDone : second.result = .ok other) :
    written.Disjoint other ↔ written = [] ∨ other = [] ∨
      ¬(Shadows (batch.config.modeFor first.package) first.package
          (batch.config.modeFor second.package) second.package ∨
        Shadows (batch.config.modeFor second.package) second.package
          (batch.config.modeFor first.package) first.package) := by
  obtain ⟨named, chains, places, own⟩ := exists_chains wellFormed h mem done
  obtain ⟨otherNamed, otherChains, otherPlaces, otherOwn⟩ :=
    exists_chains wellFormed h otherMem otherDone
  rw [← DocMode.artifactName_eq_iff differ]
  constructor
  · intro apart
    by_contra shared
    simp only [not_or, not_not] at shared
    obtain ⟨some, otherSome, same⟩ := shared
    have here : variantFile (batch.goal tree) (batch.artifact first.package) [] ∈ written := by
      rw [places]
      exact List.mem_map_of_mem (own some)
    have there : variantFile (batch.goal tree) (batch.artifact second.package) [] ∈ other := by
      rw [otherPlaces]
      exact List.mem_map_of_mem (otherOwn otherSome)
    rw [artifact, same] at here
    exact apart here there
  · rintro (rfl | rfl | unlike)
    · exact List.disjoint_nil_left _
    · exact List.disjoint_nil_right _
    · intro path here there
      rw [places] at here
      rw [otherPlaces] at there
      have ends := (fileName?_of_mem named here).symm.trans (fileName?_of_mem otherNamed there)
      exact unlike (Option.some.inj ends)

theorem disjoint_written_iff_impostor : ∃ after,
    impostorBatch.run impostor = (.ok ⟨impostorOutcomes⟩, after) ∧
      ¬([⟨"/out/concise_crm.json"⟩] : List Path).Disjoint [⟨"/out/concise_crm.json"⟩] := by
  obtain ⟨after, run⟩ := run_impostor
  have mode : impostorBatch.config.modeFor "concise_crm" = .rawDocstring := by decide
  have otherMode : impostorBatch.config.modeFor "crm" = .concise := by decide
  have shadows : Shadows .rawDocstring "concise_crm" .concise "crm" :=
    ⟨rfl, by decide, by decide⟩
  have apart := disjoint_written_iff wellFormed_impostor run (.head _) (.tail _ (.head _))
    (by decide) rfl rfl
  rw [mode, otherMode] at apart
  refine ⟨after, run, apart.not.mpr ?_⟩
  rintro (none | none | unlike)
  · cases none
  · cases none
  · exact unlike (.inl shadows)

-- So one package of a batch may overwrite the artifact of another one.
theorem not_disjoint_written :
    ¬∀ (batch : Batch) (tree after : FileTree) (report : Report) (first second : Outcome)
      (written other : List Path), tree.WellFormed → batch.run tree = (.ok report, after) →
      first ∈ report.outcomes → second ∈ report.outcomes → first.package ≠ second.package →
      first.result = .ok written → second.result = .ok other → written.Disjoint other := by
  intro always
  obtain ⟨after, run⟩ := run_impostor
  have apart := always impostorBatch impostor after ⟨impostorOutcomes⟩ ⟨"concise_crm", _⟩ ⟨"crm", _⟩
    _ _ wellFormed_impostor run (.head _) (.tail _ (.head _)) (by decide) rfl rfl
  exact apart (List.mem_singleton_self _) (List.mem_singleton_self _)

end Batch

end CallSchema
