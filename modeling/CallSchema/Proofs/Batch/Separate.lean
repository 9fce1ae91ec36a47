import CallSchema.Proofs.Batch
import CallSchema.Proofs.Package.Company
import CallSchema.Proofs.Package.Run

set_option autoImplicit false

namespace CallSchema.Batch

open CallSchema.Path (IsName)
open FileTree (Below Extends SameAt)
open Package (EndsAsArtifact IsNested Site Targets variantFile)
open Stepwise (Neighbours)

variable {batch : Batch} {tree start now : FileTree} {packages done : List Text}
  {package second : Text}

-- The selected packages, each once, in ascending order but for the one that is put off.
structure Lists (batch : Batch) (packages listed : List Text) : Prop where
  nodup : listed.Nodup
  mem_iff : ∀ package, package ∈ listed ↔
    package ∈ packages ∧ (batch.only = [] ∨ package ∈ batch.only)
  order : listed.Pairwise fun first second =>
    batch.deferred ≠ some first ∧ (batch.deferred = some second ∨ first < second)

theorem lists_selected (batch : Batch)
    (ascending : packages.Pairwise fun first second => first < second) :
    batch.Lists packages (batch.selected packages) := by
  have chosen := ascending.filter fun package =>
    batch.only.isEmpty || batch.only.contains package
  have order : (batch.selected packages).Pairwise fun first second =>
      batch.deferred ≠ some first ∧ (batch.deferred = some second ∨ first < second) := by
    refine List.pairwise_append.mpr ⟨?_, ?_, ?_⟩
    · refine (chosen.filter _).imp_of_mem fun mem _ less => ⟨?_, .inr less⟩
      simpa [isDeferred] using (List.mem_filter.mp mem).2
    · refine (chosen.filter _).imp_of_mem fun mem otherMem less => ?_
      have same := (List.mem_filter.mp mem).2
      have otherSame := (List.mem_filter.mp otherMem).2
      simp only [isDeferred, beq_iff_eq] at same otherSame
      rw [same, Option.some.injEq] at otherSame
      exact absurd (otherSame ▸ less) (List.lt_irrefl _)
    · intro first mem second otherMem
      have differ := (List.mem_filter.mp mem).2
      have same := (List.mem_filter.mp otherMem).2
      simp only [isDeferred, Bool.not_eq_true', beq_eq_false_iff_ne, beq_iff_eq] at differ same
      exact ⟨differ, .inl same⟩
  refine ⟨?_, fun package => ?_, order⟩
  · refine order.imp ?_
    rintro first second ⟨differ, later⟩ rfl
    exact later.elim differ (List.lt_irrefl _)
  · by_cases last : batch.isDeferred package = true
    · simp [selected, last]
    · simp [selected, last]

def packagePath (batch : Batch) (tree : FileTree) (package : Text) : Path :=
  Path.absolute tree.currentPath (batch.sources.join package)

-- A path that the artifact of the package, or of one of its variants, may be written to.
def IsTarget (batch : Batch) (tree : FileTree) (package : Text) (path : Path) : Prop :=
  ∃ chain, IsNested tree (batch.packagePath tree package) chain ∧
    path = variantFile (batch.goal tree) (batch.artifact package) chain

-- The same bytes, or none, by all these paths.
def SameFiles (batch : Batch) (tree : FileTree) (package : Text) (left right : FileTree) : Prop :=
  ∀ path, batch.IsTarget tree package path →
    (left.read path).toOption = (right.read path).toOption

-- No such path leads below the sources, and none of one package is one of another or above it.
structure Separate (batch : Batch) (tree : FileTree) (packages : List Text) : Prop where
  outside : ∀ package ∈ packages, ∀ path, batch.IsTarget tree package path →
    ¬Below (tree.place batch.sources) (tree.place path)
  apart : ∀ first ∈ packages, ∀ second ∈ packages, first ≠ second →
    ∀ path, batch.IsTarget tree first path → ∀ other, batch.IsTarget tree second other →
      ¬path.names <+: other.names

-- The places of one package.
def Own (batch : Batch) (tree : FileTree) (package : Text) : Location → Prop :=
  Targets tree (batch.packagePath tree package) (batch.goal tree) (batch.artifact package)

-- The places of several ones.
def OwnOf (batch : Batch) (tree : FileTree) (packages : List Text) (place : Location) : Prop :=
  ∃ package ∈ packages, batch.Own tree package place

theorem OwnOf.mono (subset : done ⊆ packages) (place : Location)
    (own : batch.OwnOf tree done place) : batch.OwnOf tree packages place :=
  own.imp fun _ known => ⟨subset known.1, known.2⟩

theorem isAbsolute_goal (batch : Batch) (tree : FileTree) : (batch.goal tree).isAbsolute = true :=
  Path.isAbsolute_absolute tree.isAbsolute_currentPath _

theorem getLast?_artifact (batch : Batch) (package : Text) :
    (batch.artifact package).getLast? = some 'n' := by
  simp [artifact, DocMode.artifactName_eq]

-- What is known of the tree that the packages are run in, and of their places.
structure Arranged (batch : Batch) (tree : FileTree) (packages : List Text) : Prop
    extends Separate batch tree packages where
  wellFormed : tree.WellFormed
  sources : tree.isDirectory batch.sources = true
  goal : tree.isDirectory (batch.goal tree) = true
  named : ∀ package ∈ packages, IsName package

namespace Arranged

variable (arranged : batch.Arranged tree packages)

include arranged

theorem isName_artifact (mem : package ∈ packages) : IsName (batch.artifact package) :=
  DocMode.isName_artifactName _ (arranged.named package mem)

theorem endsAsArtifact_of_own (mem : package ∈ packages) {place : Location}
    (own : batch.Own tree package place) : EndsAsArtifact place := by
  obtain ⟨-, chain, -, rfl⟩ := own
  refine ⟨batch.artifact package, ?_, ?_⟩
  · rw [variantFile, FileTree.place_join tree _ (arranged.isName_artifact mem),
      List.getLast?_concat]
    rfl
  · exact batch.getLast?_artifact package

theorem site (mem : package ∈ packages) : Site tree batch.sources (batch.packagePath tree package)
    (batch.goal tree) (batch.artifact package) (batch.OwnOf tree packages) where
  wellFormed := arranged.wellFormed
  there := arranged.sources
  outside := by
    rintro place ⟨other, known, -, chain, nested, rfl⟩
    exact arranged.outside other known _ ⟨chain, nested, rfl⟩
  ends := by
    rintro place ⟨other, known, own⟩
    exact arranged.endsAsArtifact_of_own known own
  inside := ((FileTree.Descends.of_isDirectory arranged.sources).join
    (arranged.named package mem)).absolute arranged.wellFormed
  directory := arranged.goal
  absolute := batch.isAbsolute_goal tree
  fileNamed := arranged.isName_artifact mem
  covered place own := ⟨package, mem, own⟩

theorem due (mem : package ∈ packages) : Package.Due tree batch.sources
    (batch.packagePath tree package) (batch.artifact package) [] (batch.options package) where
  root := rfl
  called found named := by
    have last := (Package.of_name named).1
    rw [Package.variantPackage, List.foldl_nil, packagePath,
      Path.fileName?_absolute_join _ _ (arranged.named package mem), Option.some.injEq] at last
    rw [← last]
    rfl
  named := by simp
  reached there := by
    refine ⟨by simp, by simp, fun outer shorter => ?_⟩
    rw [List.prefix_nil.mp shorter]
    exact there

-- No place of one package lies above one of another, since no path says so.
theorem not_prefix_of_own (mem : package ∈ packages) (otherMem : second ∈ packages)
    (differ : package ≠ second) {place other : Location} (own : batch.Own tree package place)
    (otherOwn : batch.Own tree second other) : ¬place <+: other := by
  obtain ⟨free, chain, nested, rfl⟩ := own
  obtain ⟨-, others, otherNested, rfl⟩ := otherOwn
  have unlike : batch.artifact package ≠ Package.schemasDirectory := by
    intro same
    have ends := batch.getLast?_artifact package
    rw [same] at ends
    exact absurd ends (by decide)
  exact Package.not_prefix_place (batch.isAbsolute_goal tree) arranged.goal nested.named
    otherNested.named (arranged.isName_artifact mem) (arranged.isName_artifact otherMem) unlike free
    (arranged.apart package mem second otherMem differ _ ⟨chain, nested, rfl⟩ _
      ⟨others, otherNested, rfl⟩)

-- The places of all the others.
theorem neighbours (mem : package ∈ packages) : Neighbours (batch.Own tree package)
    (batch.OwnOf tree (packages.filter (· ≠ package))) (batch.OwnOf tree packages) where
  covered := OwnOf.mono (List.filter_subset_self _)
  apart := by
    rintro place own other ⟨second, known, otherOwn⟩
    obtain ⟨otherMem, differ⟩ := List.mem_filter.mp known
    have differ : second ≠ package := by simpa using differ
    exact ⟨arranged.not_prefix_of_own mem otherMem differ.symm own otherOwn,
      arranged.not_prefix_of_own otherMem mem differ otherOwn own⟩

theorem mono {fewer : List Text} (subset : fewer ⊆ packages) : batch.Arranged tree fewer where
  outside package mem := arranged.outside package (subset mem)
  apart package mem second otherMem := arranged.apart package (subset mem) second (subset otherMem)
  wellFormed := arranged.wellFormed
  sources := arranged.sources
  goal := arranged.goal
  named package mem := arranged.named package (subset mem)

theorem toOption_read_target (mem : package ∈ packages)
    (grown : Extends (batch.OwnOf tree packages) tree now) {path : Path}
    (target : batch.IsTarget tree package path) :
    (now.read path).toOption = now.content? (tree.place path) := by
  obtain ⟨chain, nested, rfl⟩ := target
  rw [Package.toOption_read_variantFile (grown.grows.wellFormed arranged.wellFormed)
    (batch.isAbsolute_goal tree) (grown.grows.isDirectory arranged.goal) nested.named
    (arranged.isName_artifact mem), FileTree.place_congr grown.grows.current]

theorem sameFiles {other : FileTree} (mem : package ∈ packages)
    (grown : Extends (batch.OwnOf tree packages) tree now)
    (otherGrown : Extends (batch.OwnOf tree packages) tree other)
    (same : SameAt (batch.Own tree package) now other) :
    batch.SameFiles tree package now other := by
  intro path target
  rw [arranged.toOption_read_target mem grown target,
    arranged.toOption_read_target mem otherGrown target]
  obtain ⟨chain, nested, rfl⟩ := target
  rcases nested.targets_or_directory (batch.goal tree) (batch.artifact package) with own | taken
  · exact (same _ own).symm
  · rw [FileTree.content?_eq_none_iff.mpr (.inr (otherGrown.grows.directories _ taken)),
      FileTree.content?_eq_none_iff.mpr (.inr (grown.grows.directories _ taken))]

end Arranged

-- The tree once the output directory is there.
def ready (batch : Batch) (start : FileTree) : FileTree :=
  (FileTree.makeDirectories batch.output start).2

-- A package with a variant, and one that has no functions.
def pair : FileTree where
  current := []
  entries := [
    (["s"], .directory),
    (["s", "p"], .directory),
    (["s", "p", "__init__.py"], Package.sampleSource "P"),
    (["s", "p", "mutations"], .directory),
    (["s", "p", "mutations", "a"], .directory),
    (["s", "p", "mutations", "a", "__init__.py"], Package.sampleSource "A"),
    (["s", "q"], .directory),
    (["s", "q", "__init__.py"], .file (.text []))]

def pairBatch : Batch := ⟨⟨"/s"⟩, ⟨"/o"⟩, none, [], Config.empty⟩

theorem pair_steps :
    pair.WellFormed ∧
    pair.locate pairBatch.sources = .ok ["s"] ∧
    pair.find? ["s"] = some .directory ∧
    pair.namesIn ["s"] = (["p", "q"] : List Text) ∧
    (["p", "q"] : List Text).filter (fun name =>
      pair.isDirectory (pairBatch.sources.join name) && !Package.isIgnored name) =
      (["p", "q"] : List Text) ∧
    (FileTree.makeDirectories pairBatch.output pair).1 = .ok () ∧
    pairBatch.selected ["p", "q"] = (["p", "q"] : List Text) := by
  decide +kernel

theorem discover_pair : discover pair pairBatch.sources = .ok (["p", "q"] : List Text) := by
  obtain ⟨-, located, directory, listed, kept, -⟩ := pair_steps
  rw [discover, Package.directoriesIn_eq
    (FileTree.list_of_sorted located directory listed (by decide)), kept, Except.mapError]

theorem pair_ready :
    pairBatch.goal (pairBatch.ready pair) = ⟨"/o"⟩ ∧
    (pairBatch.ready pair).place ⟨"/o"⟩ = ["o"] ∧
    (pairBatch.ready pair).place (Package.outputBase ⟨"/o"⟩) = [] ∧
    (pairBatch.ready pair).place pairBatch.sources = ["s"] ∧
    (pairBatch.ready pair).place (pairBatch.packagePath (pairBatch.ready pair) "q") =
      ["s", "q"] ∧
    (pairBatch.ready pair).find? ["s", "q", "mutations"] = none := by
  decide +kernel

-- The artifact of a package goes to the output directory there, that of a variant elsewhere.
theorem names_pair {chain : List Text} {file : Text} (named : ∀ name ∈ chain, IsName name)
    (fileNamed : IsName file) :
    (variantFile ⟨"/o"⟩ file chain).names = ["o".toList, file] ∨
      ∃ rest, (variantFile ⟨"/o"⟩ file chain).names = Package.schemasDirectory :: rest := by
  have goal : Path.names ⟨"/o"⟩ = ["o".toList] := by decide
  have base : (Package.outputBase ⟨"/o"⟩).names = [] := by decide
  rcases List.eq_nil_or_concat' chain with rfl | ⟨outer, variant, rfl⟩
  · rw [Package.names_variantFile_nil _ fileNamed, goal]
    exact .inl rfl
  · rw [Package.names_variantFile_concat_eq _ (fun name mem => named name (by simp [mem]))
      (named variant (by simp)) fileNamed, base]
    exact .inr ⟨_, rfl⟩

theorem apart_pair {names : List Text} (place : names = ["o".toList, pairBatch.artifact "p"] ∨
      ∃ rest, names = Package.schemasDirectory :: rest) :
    ¬(["o", "q.json"] : List Text) <+: names ∧ ¬names <+: (["o", "q.json"] : List Text) := by
  have outside : "o".toList ≠ Package.schemasDirectory := by decide
  rcases place with rfl | ⟨rest, rfl⟩
  · decide
  · exact ⟨fun shorter => outside (List.cons_prefix_cons.mp shorter).1,
      fun shorter => outside (List.cons_prefix_cons.mp shorter).1.symm⟩

theorem separate_pair : pairBatch.Separate (pairBatch.ready pair) ["p", "q"] := by
  obtain ⟨goal, own, base, sources, place, missing⟩ := pair_ready
  have wellFormed : (pairBatch.ready pair).WellFormed :=
    (FileTree.writes_makeDirectories _ _).wellFormed pair_steps.1
  have fileNamed {package : Text} (mem : package ∈ (["p", "q"] : List Text)) :
      IsName (pairBatch.artifact package) := by
    rcases List.mem_pair.mp mem with rfl | rfl <;> decide
  have single {chain : List Text} (nested : IsNested (pairBatch.ready pair)
      (pairBatch.packagePath (pairBatch.ready pair) "q") chain) : chain = [] :=
    nested.eq_nil wellFormed (by rw [place]; exact missing)
  have only : (variantFile ⟨"/o"⟩ (pairBatch.artifact "q") []).names = ["o", "q.json"] := by decide
  refine ⟨?_, ?_⟩
  · rintro package mem _ ⟨chain, nested, rfl⟩ ⟨shorter, -⟩
    rw [goal, sources] at shorter
    rcases List.eq_nil_or_concat' chain with rfl | ⟨outer, variant, rfl⟩
    · rw [Package.place_variantFile_nil _ _ (fileNamed mem), own] at shorter
      exact absurd (List.cons_prefix_cons.mp shorter).1 (by decide)
    · rw [Package.place_variantFile_concat _ _ (fun name mem => nested.named name (by simp [mem]))
        (nested.named variant (by simp)) (fileNamed mem), base] at shorter
      exact absurd (List.cons_prefix_cons.mp shorter).1 (by decide)
  · rintro first mem second otherMem differ _ ⟨chain, nested, rfl⟩ _ ⟨others, otherNested, rfl⟩
    rw [goal]
    rcases List.mem_pair.mp mem with rfl | rfl
    · rcases List.mem_pair.mp otherMem with rfl | rfl
      · exact absurd rfl differ
      · rw [single otherNested, only]
        exact (apart_pair (names_pair nested.named (fileNamed mem))).2
    · rcases List.mem_pair.mp otherMem with rfl | rfl
      · rw [single nested, only]
        exact (apart_pair (names_pair otherNested.named (fileNamed otherMem))).1
      · exact absurd rfl differ

section Ready

variable (wellFormed : start.WellFormed) (found : discover start batch.sources = .ok packages)
  (made : (FileTree.makeDirectories batch.output start).1 = .ok ())

include wellFormed found

include made

theorem arranged_ready
    (separate : batch.Separate (batch.ready start) (batch.selected packages)) :
    batch.Arranged (batch.ready start) (batch.selected packages) where
  toSeparate := separate
  wellFormed := (FileTree.writes_makeDirectories batch.output start).wellFormed wellFormed
  sources := by
    obtain ⟨all, listed, -⟩ :=
      Package.exists_list_of_directoriesIn (directoriesIn_of_discover found)
    exact (FileTree.writes_makeDirectories batch.output start).toGrows.isDirectory
      (FileTree.isDirectory_of_list listed)
  goal := by
    have formed := (FileTree.writes_makeDirectories batch.output start).wellFormed wellFormed
    by_cases empty : batch.output.text = []
    · rw [Batch.goal, Path.absolute_of_empty empty]
      exact FileTree.isDirectory_currentPath formed
    · exact FileTree.isDirectory_absolute formed
        (FileTree.isDirectory_of_makeDirectories empty (Prod.ext made rfl))
  named package mem := isName_of_discover wellFormed found _ (mem_of_mem_selected mem)

end Ready

end CallSchema.Batch
