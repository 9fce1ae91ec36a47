import CallSchema.Proofs.FileTree.Directories
import CallSchema.Proofs.Package.Alike
import CallSchema.Proofs.Package.Artifacts
import CallSchema.Proofs.Package.Places
import CallSchema.Proofs.Package.Run

set_option autoImplicit false

namespace CallSchema

open DottedLocation (candidates sourceFile?)
open FileTree (AgreeOn Alike)
open CallSchema.Path (IsName)

namespace FileTree

variable {tree other : FileTree} {path base : Path} {hidden location : Location} {name : Text}

structure AgreeOutside (hidden : Location) (tree other : FileTree) : Prop where
  current : other.current = tree.current
  same : ∀ location, ¬Below hidden location → other.find? location = tree.find? location

def Avoids (tree : FileTree) (hidden : Location) (path : Path) : Prop :=
  ∀ before, before <+: path.names → ¬Below hidden (walk (tree.origin path) before)

instance (tree : FileTree) (hidden : Location) (path : Path) :
    Decidable (tree.Avoids hidden path) :=
  decidable_of_iff (∀ before ∈ path.names.inits, ¬Below hidden (walk (tree.origin path) before))
    (by simp [Avoids])

theorem Avoids.parent {parent : Path} (avoids : tree.Avoids hidden path)
    (above : path.parent? = some parent) : tree.Avoids hidden parent := by
  intro before shorter
  obtain ⟨last, -, whole⟩ := Path.names_of_parent? above
  have start : tree.origin parent = tree.origin path := by
    simp only [origin, Path.isAbsolute_of_parent? above]
  rw [start]
  exact avoids before (whole ▸ shorter.trans (List.prefix_append _ _))

theorem Avoids.join (avoids : tree.Avoids hidden base) (named : IsName name)
    (last : ¬Below hidden (tree.place base ++ [name])) : tree.Avoids hidden (base.join name) := by
  intro before shorter
  have start : tree.origin (base.join name) = tree.origin base := by
    simp only [origin, Path.isAbsolute_join_name named]
  rw [Path.names_join base named, List.prefix_concat_iff] at shorter
  rw [start]
  rcases shorter with rfl | within
  · have single : ∀ other ∈ [name], IsName other := by simpa using named
    rwa [walk_append, walk_of_isName single]
  · exact avoids before within

def AgreeSince (start : FileTree) (hidden : Location) (tree other : FileTree) : Prop :=
  tree.current = start.current ∧ AgreeOutside hidden tree other

namespace AgreeSince

variable {start : FileTree}

theorem put (agree : AgreeSince start hidden tree other) (visible : location ≠ []) (entry : Entry) :
    AgreeSince start hidden (tree.put location entry) (other.put location entry) := by
  refine ⟨agree.1, agree.2.current, fun second outside => ?_⟩
  rw [find?_put _ visible, find?_put _ visible, agree.2.same second outside]

variable (agree : AgreeSince start hidden tree other) (avoids : start.Avoids hidden path)

include agree avoids

theorem agreeOn : AgreeOn tree other path where
  current := agree.2.current
  same before shorter := by
    have begin : tree.origin path = start.origin path := by simp only [origin, agree.1]
    rw [begin]
    exact agree.2.same _ (avoids before shorter)

theorem makeDirectory : Alike (AgreeSince start hidden) (FileTree.makeDirectory path tree)
    (FileTree.makeDirectory path other) := by
  have stripped := (agree.agreeOn avoids).withoutClosingSlashes
  unfold FileTree.makeDirectory
  dsimp only
  split
  · exact ⟨rfl, agree⟩
  rw [stripped.locateParent]
  cases parent : tree.locateParent (withoutClosingSlashes path) with
  | error cause => exact ⟨rfl, agree⟩
  | ok found =>
    obtain ⟨directory, name⟩ := found
    dsimp only
    split
    · exact ⟨rfl, agree⟩
    · next proper =>
      simp only [not_or] at proper
      rw [stripped.find?_of_locateParent parent (not_or.mpr ⟨proper.1, proper.2.1⟩) proper.2.2]
      split
      · exact ⟨rfl, agree⟩
      · exact ⟨rfl, agree.put (by simp) _⟩

omit agree in
theorem settle {first second : Except Cause Unit × FileTree}
    (same : Alike (AgreeSince start hidden) first second) :
    Alike (AgreeSince start hidden) (FileTree.settle path first) (FileTree.settle path second) := by
  obtain ⟨_, tree⟩ := first
  obtain ⟨result, other⟩ := second
  obtain ⟨rfl, agree⟩ := same
  cases result with
  | ok => exact ⟨rfl, agree⟩
  | error cause =>
    simp only [FileTree.settle, unlessDirectory, (agree.agreeOn avoids).isDirectory]
    split
    · exact ⟨rfl, agree⟩
    · exact ⟨rfl, agree⟩

omit agree in
theorem settleBelow {first second : Except Cause Unit × FileTree}
    (same : Alike (AgreeSince start hidden) first second) :
    Alike (AgreeSince start hidden) (FileTree.settleBelow path first)
      (FileTree.settleBelow path second) := by
  obtain ⟨_, tree⟩ := first
  obtain ⟨result, other⟩ := second
  obtain ⟨rfl, agree⟩ := same
  cases result with
  | ok => exact settle avoids (agree.makeDirectory avoids)
  | error cause => exact ⟨rfl, agree⟩

theorem makeDirectoriesWithin (levels : Nat) : Alike (AgreeSince start hidden)
    (FileTree.makeDirectoriesWithin levels path tree)
    (FileTree.makeDirectoriesWithin levels path other) := by
  induction levels generalizing path with
  | zero => exact ⟨rfl, agree⟩
  | succ levels ih =>
    by_cases empty : path.text = []
    · simp only [FileTree.makeDirectoriesWithin, if_pos empty]
      exact ⟨rfl, agree⟩
    have first := agree.makeDirectory avoids
    by_cases missing : (FileTree.makeDirectory path tree).1 = .error .notFound
    · have otherMissing := first.1.trans missing
      cases above : path.parent? with
      | none =>
        rw [makeDirectoriesWithin_of_topmost empty missing above,
          makeDirectoriesWithin_of_topmost empty otherMissing above]
        exact ⟨rfl, agree⟩
      | some parent =>
        rw [makeDirectoriesWithin_of_missing empty missing above,
          makeDirectoriesWithin_of_missing empty otherMissing above]
        exact settleBelow avoids (ih (avoids.parent above))
    · have otherFound : (FileTree.makeDirectory path other).1 ≠ .error .notFound := by
        rwa [first.1]
      rw [makeDirectoriesWithin_of_settled empty missing,
        makeDirectoriesWithin_of_settled empty otherFound]
      exact settle avoids first

theorem makeDirectories : Alike (AgreeSince start hidden) (FileTree.makeDirectories path tree)
    (FileTree.makeDirectories path other) :=
  makeDirectoriesWithin agree avoids _

end AgreeSince

theorem Avoids.of_mem_candidates {root file : Path} {asked : Text}
    (avoids : tree.Avoids hidden root) (mem : file ∈ candidates root asked)
    (outside : ¬Below hidden (tree.place file)) : tree.Avoids hidden file := by
  intro before shorter below
  rcases (DottedLocation.of_mem_candidates mem).1 with
    ⟨absolute, rest, -, named, whole⟩ | ⟨⟨absolute, named⟩, -⟩
  · have start : tree.origin file = tree.origin root := by simp only [origin, absolute]
    rw [whole] at shorter
    rw [start] at below
    rcases prefix_append_cases shorter with within | ⟨further, inner, rfl⟩
    · exact avoids before within below
    · rw [place, start, whole, walk_append, walk_of_isName named] at outside
      rw [walk_append, walk_of_isName fun name mem => named name (inner.subset mem)] at below
      exact outside (below.mono (List.prefix_append_right_inj _ |>.mpr inner))
  · rw [place, walk_of_isName named] at outside
    rw [walk_of_isName fun name mem => named name (shorter.subset mem)] at below
    exact outside (below.mono (List.prefix_append_right_inj _ |>.mpr shorter))

theorem resolve_eq_of_outside {root : Path} {asked : Text}
    (agree : AgreeOutside hidden tree other) (avoids : tree.Avoids hidden root)
    (here : ∀ file, sourceFile? tree.isFile root asked = some file →
      ¬Below hidden (tree.place file))
    (there : ∀ file, sourceFile? other.isFile root asked = some file →
      ¬Below hidden (other.place file)) :
    Callable.resolve other.sources root asked = Callable.resolve tree.sources root asked := by
  have alike {file : Path} (mem : file ∈ candidates root asked)
      (outside : ¬Below hidden (tree.place file)) : AgreeOn tree other file :=
    AgreeSince.agreeOn ⟨rfl, agree⟩ (avoids.of_mem_candidates mem outside)
  refine Callable.resolve_eq_of_agreeOn (fun file found => ?_) fun file found => ?_
  · exact alike (DottedLocation.of_sourceFile? found).1 (here file found)
  · have outside := there file found
    rw [place_congr agree.current] at outside
    exact alike (DottedLocation.of_sourceFile? found).1 outside

end FileTree

namespace Package

open FileTree (AgreeOutside AgreeSince Avoids Below Writes)

variable {tree other : FileTree} {package output root : Path} {options : Options}
  {hidden : Location} {found : Text}

-- No location in the table of the package leads to a file below.
def SourcesOutside (hidden : Location) (tree : FileTree) (package root : Path) : Prop :=
  ∀ table entry file, table? tree (initFile package) = .ok (some table) → entry ∈ table →
    sourceFile? tree.isFile root entry.2 = some file → ¬Below hidden (tree.place file)

-- The paths of a package, of the output directory and of the root directory do not lead through
-- places below, and the output directory lies outside.
structure PathsOutside (hidden : Location) (tree : FileTree) (package output root : Path) :
    Prop where
  outside : ¬hidden <+: tree.place output
  package : tree.Avoids hidden package
  output : tree.Avoids hidden output
  root : tree.Avoids hidden root

def variantsPlace (tree : FileTree) (package : Path) : Location :=
  tree.place (variantsDirectory package)

theorem variantsPlace_eq (tree : FileTree) (package : Path) :
    variantsPlace tree package = tree.place package ++ ["mutations".toList] :=
  tree.place_join package (by decide)

section Artifact

variable (paths : PathsOutside (variantsPlace tree package) tree package output root)

include paths

theorem avoids_initFile : tree.Avoids (variantsPlace tree package) (initFile package) := by
  refine paths.package.join (by decide) ?_
  rw [variantsPlace_eq]
  exact FileTree.not_below_of_ne (by decide)

theorem avoids_alternateFile {artifact : Text} (named : IsName artifact) :
    tree.Avoids (variantsPlace tree package) (alternateFile package artifact) := by
  have engine : IsName "SimulationEngine".toList := by decide
  have alternates : IsName "alternate_fcds".toList := by decide
  have beside (rest : List Text) : ¬Below (variantsPlace tree package)
      (tree.place package ++ "SimulationEngine".toList :: rest) := by
    rw [variantsPlace_eq]
    exact FileTree.not_below_of_ne (by decide)
  have first := paths.package.join engine (beside [])
  have engineBelow := tree.place_join package engine
  have second := first.join alternates (by
    rw [engineBelow, List.append_assoc]
    exact beside _)
  exact second.join named (by
    rw [tree.place_join _ alternates, engineBelow, List.append_assoc, List.append_assoc]
    exact beside _)

theorem avoids_artifact {file : Text} (named : IsName file) :
    tree.Avoids (variantsPlace tree package) (output.join file) := by
  refine paths.output.join named ?_
  rintro ⟨shorter, differ⟩
  rcases List.prefix_concat_iff.mp shorter with whole | within
  · exact differ whole.symm
  · exact paths.outside within

theorem alike_ownArtifact (agree : AgreeOutside (variantsPlace tree package) tree other)
    (named : name tree package = .ok found) (mode : DocMode)
    (sources : SourcesOutside (variantsPlace tree package) tree package root)
    (otherSources : SourcesOutside (variantsPlace tree package) other package root) :
    Alike (AgreeSince tree (variantsPlace tree package))
      (makeArtifact mode package root found (output.join (mode.artifactName found)) tree)
      (makeArtifact mode package root found (output.join (mode.artifactName found)) other) := by
  have start : AgreeSince tree (variantsPlace tree package) tree other := ⟨rfl, agree⟩
  have artifactNamed := mode.isName_artifactName (Path.isName_of_fileName? (of_name named).1)
  have init := start.agreeOn (avoids_initFile paths)
  have alternate := avoids_alternateFile paths artifactNamed
  have artifact := avoids_artifact paths artifactNamed
  have visible {tree : FileTree} {path : Path} {location : Location}
      (target : tree.target path = .ok location) : location ≠ [] := by
    obtain ⟨directory, name, rfl, -⟩ := FileTree.of_target target
    simp
  refine alike_makeArtifact start (fun _ => ?_) (start.agreeOn alternate).isFile ?_ ?_ ?_
  · refine schemas_congr init fun table entry read mem => ?_
    have otherRead := (table?_congr init).trans read
    exact FileTree.resolve_eq_of_outside agree paths.root
      (fun file => sources table entry file read mem)
      (fun file => otherSources table entry file otherRead mem)
  · unfold makeParent
    cases above : (output.join (mode.artifactName found)).parent? with
    | none => exact ⟨rfl, start⟩
    | some parent => exact Action.alike_change (start.makeDirectories (artifact.parent above))
  · intro middle after content _ _ later
    exact (later.agreeOn artifact).write content later
      fun location target => later.put (visible target) _
  · intro middle after _ _ later
    exact (later.agreeOn artifact).copy later
      (fun location target => (later.put (visible target) _).agreeOn alternate)
      (fun location content target => later.put (visible target) _)

end Artifact

section Variants

variable {levels : Nat} {fileName : Text} {middle after : FileTree} {more : List Path}

theorem exists_chain_of_variants (wellFormed : middle.WellFormed)
    (later : Action.forEach
      (fun variant => (generateVariant levels package output root fileName variant).orNothing)
      (variants middle package) middle = (.ok more, after)) :
    ∀ path ∈ more, ∃ chain, chain ≠ [] ∧ (∀ name ∈ chain, IsName name) ∧
      path = variantFile output fileName chain := by
  obtain ⟨nodup, names⟩ := nodup_variants wellFormed package
  have one : ∀ variant, IsName variant → ∀ (first second : FileTree) (written : List Path),
      first.WellFormed → generateVariant levels package output root fileName variant first =
        (.ok written, second) → ∃ chains, Covers ((variantsDirectory package).join variant)
          (variantOutput output variant) fileName second chains written :=
    fun variant _ first second written firstFormed done =>
      let ⟨chains, covers, _⟩ := covers_generateWithin levels firstFormed (fun _ _ => rfl) done
      ⟨chains, covers⟩
  obtain ⟨chains, covers, heads⟩ := covers_forEach one nodup names wellFormed later
  intro path mem
  rw [covers.written] at mem
  obtain ⟨chain, known, rfl⟩ := List.mem_map.mp mem
  obtain ⟨first, -, head⟩ := heads chain known
  have inner : chain ≠ [] := by
    rintro rfl
    cases head
  exact ⟨chain, inner, (covers.variants chain known).named, rfl⟩

theorem read_artifact_of_variants (wellFormed : middle.WellFormed) (fileNamed : IsName fileName)
    (there : middle.isFile (output.join fileName) = true)
    (later : Action.forEach
      (fun variant => (generateVariant levels package output root fileName variant).orNothing)
      (variants middle package) middle = (.ok more, after)) :
    after.read (output.join fileName) = middle.read (output.join fileName) := by
  obtain ⟨located, content, found⟩ := FileTree.exists_content_of_isFile there
  have reports (variant : Text) :
      (generateVariant levels package output root fileName variant).Reports :=
    reports_generateWithin _ _ _ _
  have writes := Action.Reports.forEach reports (variants middle package) middle
  rw [later] at writes
  have same : after.content? (middle.place (output.join fileName)) =
      middle.content? (middle.place (output.join fileName)) := by
    by_contra differ
    obtain ⟨path, mem, reached⟩ := writes.changed _ differ
    obtain ⟨chain, inner, named, rfl⟩ := exists_chain_of_variants wellFormed later path mem
    have place := FileTree.eq_place_of_locate reached
    rw [← FileTree.place_congr writes.current] at place
    exact place_variantFile_ne after output inner named fileNamed place.symm
  have foundAfter := FileTree.content?_eq_some_iff.mp
    (same.trans (FileTree.content?_eq_some_iff.mpr found))
  simp only [FileTree.read, located, writes.locate located, found, foundAfter, bind, Except.bind]

theorem generateWithin_keeps_artifact (levels : Nat) {before : FileTree}
    (wellFormed : before.WellFormed) (named : name before package = .ok found)
    (fileNamed : IsName (Package.fileName found options))
    (made : makeArtifact options.mode package (sourceRoot package options) found
      (output.join (Package.fileName found options)) before =
        (.ok [output.join (Package.fileName found options)], middle))
    (writes : Writes [output.join (Package.fileName found options)] before middle) :
    ∃ more, (generateWithin (levels + 1) package output options before).1 =
        .ok (output.join (Package.fileName found options) :: more) ∧
      (generateWithin (levels + 1) package output options before).2.read
          (output.join (Package.fileName found options)) =
        middle.read (output.join (Package.fileName found options)) := by
  obtain ⟨more, after, later⟩ := Action.exists_forEach (generateVariant levels package output
    (sourceRoot package options) (Package.fileName found options)) (variants middle package) middle
  rw [generateWithin_of_made named made later]
  exact ⟨more, rfl, read_artifact_of_variants (writes.wellFormed wellFormed) fileNamed
    (writes.present _ (.head _)) later⟩

end Variants

-- Both runs fail in the same way, both write nothing, or the first file that both write is the same
-- and holds the same in the end.
def SameArtifact (first second : Except Failure (List Path) × FileTree) : Prop :=
  (∃ failure, first.1 = .error failure ∧ second.1 = .error failure) ∨
  (first.1 = .ok [] ∧ second.1 = .ok []) ∨
  ∃ file content more others, first.1 = .ok (file :: more) ∧ second.1 = .ok (file :: others) ∧
    first.2.read file = .ok content ∧ second.2.read file = .ok content

theorem sameArtifact_generateWithin (levels more : Nat) (wellFormed : tree.WellFormed)
    (otherWellFormed : other.WellFormed) (derived : options.fileName = none)
    (agree : AgreeOutside (variantsPlace tree package) tree other)
    (paths : PathsOutside (variantsPlace tree package) tree package output
      (sourceRoot package options))
    (sources : SourcesOutside (variantsPlace tree package) tree package
      (sourceRoot package options))
    (otherSources : SourcesOutside (variantsPlace tree package) other package
      (sourceRoot package options)) :
    SameArtifact (generateWithin (levels + 1) package output options tree)
      (generateWithin (more + 1) package output options other) := by
  have start : AgreeSince tree (variantsPlace tree package) tree other := ⟨rfl, agree⟩
  have sameName := name_congr (start.agreeOn (avoids_initFile paths))
  cases named : name tree package with
  | error failure =>
    rw [generateWithin_succ, Action.look_bind_error named, generateWithin_succ,
      Action.look_bind_error (sameName.trans named)]
    exact .inl ⟨failure, rfl, rfl⟩
  | ok found =>
    have otherNamed := sameName.trans named
    have called : fileName found options = options.mode.artifactName found := by
      rw [fileName, derived, Option.getD_none]
    have fileNamed := options.mode.isName_artifactName (Path.isName_of_fileName? (of_name named).1)
    have alike := alike_ownArtifact paths agree named options.mode sources otherSources
    rw [← called] at alike fileNamed
    have made := made_makeArtifact options.mode package (sourceRoot package options) found
      (output.join (fileName found options)) tree
    have otherMade := made_makeArtifact options.mode package (sourceRoot package options) found
      (output.join (fileName found options)) other
    cases run : makeArtifact options.mode package (sourceRoot package options) found
        (output.join (fileName found options)) tree with
    | mk result middle =>
      cases otherRun : makeArtifact options.mode package (sourceRoot package options) found
          (output.join (fileName found options)) other with
      | mk otherResult otherMiddle =>
        rw [run] at made
        rw [otherRun] at otherMade
        rw [run, otherRun] at alike
        obtain ⟨rfl, related⟩ := alike
        cases made with
        | failed failure untouched =>
          rw [generateWithin_succ, Action.look_bind_ok named, Action.bind_error run,
            generateWithin_succ, Action.look_bind_ok otherNamed, Action.bind_error otherRun]
          exact .inl ⟨failure, rfl, rfl⟩
        | nothing untouched =>
          rw [generateWithin_of_nothing named run, generateWithin_of_nothing otherNamed otherRun]
          exact .inr (.inl ⟨rfl, rfl⟩)
        | written writes =>
          cases otherMade with
          | written otherWrites =>
            obtain ⟨content, read⟩ := FileTree.read_of_isFile (writes.present _ (.head _))
            have same := (related.agreeOn (avoids_artifact paths fileNamed)).read
            obtain ⟨rest, reported, kept⟩ := generateWithin_keeps_artifact levels wellFormed
              named fileNamed run writes
            obtain ⟨otherRest, otherReported, otherKept⟩ := generateWithin_keeps_artifact more
              otherWellFormed otherNamed fileNamed otherRun otherWrites
            exact .inr (.inr ⟨_, content, rest, otherRest, reported, otherReported,
              kept.trans read, otherKept.trans (same.trans read)⟩)

def rooted (tree : FileTree) (path : Path) : Path := Path.absolute tree.currentPath path

def ownEntries : List (Location × Entry) := [
  (["s"], .directory),
  (["s", "p"], .directory),
  (["s", "p", "__init__.py"], sampleSource "Own"),
  (["s", "p", "mutations"], .directory)]

def sampleVariants : Location := ["s", "p", "mutations"]

def withVariants (below : List (Location × Entry)) : FileTree := ⟨ownEntries ++ below, []⟩

def oneVariant : FileTree := withVariants [
  (["s", "p", "mutations", "a"], .directory),
  (["s", "p", "mutations", "a", "__init__.py"], sampleSource "A")]

theorem agreeOutside_withVariants {below : List (Location × Entry)}
    (inside : ∀ entry ∈ below, Below sampleVariants entry.1) :
    AgreeOutside sampleVariants (withVariants below) (withVariants []) where
  current := rfl
  same location outside := by
    have none : below.find? (·.1 = location) = none := by
      refine List.find?_eq_none.mpr fun entry mem same => outside ?_
      exact (of_decide_eq_true same) ▸ inside entry mem
    simp [FileTree.find?, Table.get?, withVariants, List.find?_append, none]

theorem sourcesOutside_withVariants {below : List (Location × Entry)}
    (read : table? (withVariants below) ⟨"/s/p/__init__.py"⟩ = .ok (some [("f", "p.f")]))
    (outside : ∀ file ∈ sourceFile? (withVariants below).isFile root "p.f",
      ¬Below sampleVariants ((withVariants below).place file)) :
    SourcesOutside sampleVariants (withVariants below) ⟨"/s/p"⟩ root := by
  intro table entry file known mem found
  have init : initFile ⟨"/s/p"⟩ = ⟨"/s/p/__init__.py"⟩ := by decide
  rw [init, read] at known
  cases known
  obtain rfl := List.mem_singleton.mp mem
  exact outside file found

theorem steps_sample :
    rooted oneVariant ⟨"/s/p"⟩ = ⟨"/s/p"⟩ ∧ rooted oneVariant ⟨"/o"⟩ = ⟨"/o"⟩ ∧
    variantsPlace oneVariant ⟨"/s/p"⟩ = sampleVariants ∧
    oneVariant.WellFormed ∧ (withVariants []).WellFormed ∧
    table? oneVariant ⟨"/s/p/__init__.py"⟩ = .ok (some [("f", "p.f")]) ∧
    table? (withVariants []) ⟨"/s/p/__init__.py"⟩ = .ok (some [("f", "p.f")]) := by
  decide +kernel

def detour : Options := ⟨.rawDocstring, some ⟨"/s/p/mutations/a/../../.."⟩, none⟩

theorem generate_detour :
    (∃ more, (generate ⟨"/s/p"⟩ ⟨"/o"⟩ detour oneVariant).1 = .ok (⟨"/o/p.json"⟩ :: more)) ∧
    (generate ⟨"/s/p"⟩ ⟨"/o"⟩ detour (withVariants [])).1 = .ok [] := by
  have named : name oneVariant ⟨"/s/p"⟩ = .ok "p" := by decide +kernel
  have otherNamed : name (withVariants []) ⟨"/s/p"⟩ = .ok "p" := by decide +kernel
  have file : Path.join ⟨"/o"⟩ (fileName "p" detour) = ⟨"/o/p.json"⟩ := by decide
  have made : (makeArtifact detour.mode ⟨"/s/p"⟩ (sourceRoot ⟨"/s/p"⟩ detour) "p"
      (Path.join ⟨"/o"⟩ (fileName "p" detour)) oneVariant).1 =
        .ok [Path.join ⟨"/o"⟩ (fileName "p" detour)] := by decide +kernel
  have nothing : (makeArtifact detour.mode ⟨"/s/p"⟩ (sourceRoot ⟨"/s/p"⟩ detour) "p"
      (Path.join ⟨"/o"⟩ (fileName "p" detour)) (withVariants [])).1 = .ok [] := by
    decide +kernel
  have start (below : List (Location × Entry)) :
      Path.absolute (withVariants below).currentPath ⟨"/s/p"⟩ = ⟨"/s/p"⟩ := by
    exact (by decide : Path.absolute (FileTree.pathOf []) ⟨"/s/p"⟩ = ⟨"/s/p"⟩)
  have goal (below : List (Location × Entry)) :
      Path.absolute (withVariants below).currentPath ⟨"/o"⟩ = ⟨"/o"⟩ := by
    exact (by decide : Path.absolute (FileTree.pathOf []) ⟨"/o"⟩ = ⟨"/o"⟩)
  constructor
  · obtain ⟨more, after, later⟩ := Action.exists_forEach (generateVariant _ ⟨"/s/p"⟩ ⟨"/o"⟩
      (sourceRoot ⟨"/s/p"⟩ detour) (fileName "p" detour)) (variants _ ⟨"/s/p"⟩) _
    rw [oneVariant, generate_eq _ detour (by decide) (by decide), start, goal]
    rw [oneVariant] at named made
    rw [enoughLevels, generateWithin_of_made named (Action.eq_ok made) later, file]
    exact ⟨more, rfl⟩
  · rw [generate_eq _ detour (by decide) (by decide), start, goal]
    rw [enoughLevels, generateWithin_of_nothing otherNamed (Action.eq_ok nothing)]

/-- Two trees that agree outside of the directory of the variants give the package the same
artifact, whatever its variants are and however they fail, as long as none of the paths of the
package, the output directory and the root directory leads through that directory. -/
theorem sameArtifact_generate (wellFormed : tree.WellFormed) (otherWellFormed : other.WellFormed)
    (package output : Path) (options : Options) (derived : options.fileName = none)
    (agree : AgreeOutside (variantsPlace tree (rooted tree package)) tree other)
    (paths : PathsOutside (variantsPlace tree (rooted tree package)) tree (rooted tree package)
      (rooted tree output) (sourceRoot (rooted tree package) options))
    (sources : SourcesOutside (variantsPlace tree (rooted tree package)) tree
      (rooted tree package) (sourceRoot (rooted tree package) options))
    (otherSources : SourcesOutside (variantsPlace tree (rooted tree package)) other
      (rooted tree package) (sourceRoot (rooted tree package) options)) :
    SameArtifact (generate package output options tree)
      (generate package output options other) := by
  by_cases empty : package.text = [] ∨ output.text = []
  · obtain ⟨failure, failed⟩ := generate_error options empty
    rw [failed tree, failed other]
    exact .inl ⟨failure, rfl, rfl⟩
  · obtain ⟨visible, outputVisible⟩ := not_or.mp empty
    have current : other.currentPath = tree.currentPath := by
      simp only [FileTree.currentPath, agree.current]
    rw [generate_eq tree options visible outputVisible, generate_eq other options visible
      outputVisible, current]
    exact sameArtifact_generateWithin _ _ wellFormed otherWellFormed derived agree paths sources
      otherSources

theorem sameArtifact_generate_sample :
    SameArtifact (generate ⟨"/s/p"⟩ ⟨"/o"⟩ compiled oneVariant)
      (generate ⟨"/s/p"⟩ ⟨"/o"⟩ compiled (withVariants [])) := by
  obtain ⟨start, goal, place, wellFormed, otherWellFormed, read, otherRead⟩ := steps_sample
  have root : sourceRoot ⟨"/s/p"⟩ compiled = ⟨"/s"⟩ := by decide
  refine sameArtifact_generate wellFormed otherWellFormed _ _ _ rfl ?_ ?_ ?_ ?_
  · rw [start, place]
    exact agreeOutside_withVariants (by decide)
  · rw [start, place, goal, root]
    exact ⟨by decide, by decide, by decide, by decide⟩
  · rw [start, place, root]
    exact sourcesOutside_withVariants read (by decide +kernel)
  · rw [start, place, root]
    exact sourcesOutside_withVariants otherRead (by decide +kernel)

-- So a variant may have its package compiled by being there.
theorem not_sameArtifact_generate :
    ¬∀ (tree other : FileTree) (package output : Path) (options : Options),
      tree.WellFormed → other.WellFormed → options.fileName = none →
      AgreeOutside (variantsPlace tree (rooted tree package)) tree other →
      ¬variantsPlace tree (rooted tree package) <+: tree.place (rooted tree output) →
      SourcesOutside (variantsPlace tree (rooted tree package)) tree (rooted tree package)
        (sourceRoot (rooted tree package) options) →
      SourcesOutside (variantsPlace tree (rooted tree package)) other (rooted tree package)
        (sourceRoot (rooted tree package) options) →
      SameArtifact (generate package output options tree)
        (generate package output options other) := by
  intro always
  obtain ⟨start, goal, place, wellFormed, otherWellFormed, read, otherRead⟩ := steps_sample
  obtain ⟨⟨more, written⟩, nothing⟩ := generate_detour
  have root : sourceRoot ⟨"/s/p"⟩ detour = ⟨"/s/p/mutations/a/../../.."⟩ := by decide
  have same := always oneVariant (withVariants []) ⟨"/s/p"⟩ ⟨"/o"⟩ detour wellFormed
    otherWellFormed rfl
  rw [start, place, goal, root] at same
  have differ := same (agreeOutside_withVariants (by decide)) (by decide)
    (sourcesOutside_withVariants read (by decide +kernel))
    (sourcesOutside_withVariants otherRead (by decide +kernel))
  rcases differ with ⟨failure, failed, -⟩ | ⟨none, -⟩ | ⟨_, _, _, _, -, some, -⟩
  · cases written.symm.trans failed
  · cases written.symm.trans none
  · cases nothing.symm.trans some

end Package

end CallSchema
