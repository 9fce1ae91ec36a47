import CallSchema.Proofs.Package.Artifacts

set_option autoImplicit false

namespace CallSchema

open FileTree (Writes)
open CallSchema.Path (IsName)

namespace Path

def LiesIn (directory path : Path) : Prop := ∃ name, IsName name ∧ path = directory.join name

-- The path of a file that lies in the directory or in one below it.
def LiesBelow (directory path : Path) : Prop :=
  ∃ names, names ≠ [] ∧ (∀ name ∈ names, IsName name) ∧ path = names.foldl join directory

end Path

namespace Package

theorem liesIn_variantFile_nil (output : Path) {fileName : Text} (fileNamed : IsName fileName) :
    output.LiesIn (variantFile output fileName []) :=
  ⟨fileName, fileNamed, rfl⟩

theorem liesBelow_variantFile {output parent : Path} (above : output.parent? = some parent)
    {fileName : Text} (fileNamed : IsName fileName) {chain : List Text} (inner : chain ≠ [])
    (named : ∀ name ∈ chain, IsName name) :
    (parent.join schemasDirectory).LiesBelow (variantFile output fileName chain) := by
  obtain ⟨outer, variant, rfl⟩ := (List.eq_nil_or_concat' chain).resolve_left inner
  have outerNamed : ∀ name ∈ outer, IsName name := fun name mem => named name (by simp [mem])
  refine ⟨List.replicate outer.length schemasDirectory ++ [variant, fileName], by simp, ?_, ?_⟩
  · intro name mem
    rcases List.mem_append.mp mem with directory | last
    · rw [(List.mem_replicate.mp directory).2]
      exact isName_schemasDirectory
    · rcases List.mem_pair.mp last with rfl | rfl
      · exact named _ (by simp)
      · exact fileNamed
  · rw [variantFile_concat output fileName variant outerNamed, variantsOutput, above,
      Option.getD_some, List.replicate_succ, List.foldl_cons, List.foldl_append]
    rfl

def sampleSource (summary : Text) : Entry :=
  .file (.text ("def f():\n '".toList ++ summary ++ "'\n_function_map=\x7b'f':'p.f'\x7d\n".toList))

def namesakes : FileTree where
  current := []
  entries := [
    (["s"], .directory),
    (["s", "p"], .directory),
    (["s", "p", "__init__.py"], sampleSource "Own"),
    (["s", "p", "mutations"], .directory),
    (["s", "p", "mutations", "a"], .directory),
    (["s", "p", "mutations", "a", "__init__.py"], sampleSource "A"),
    (["s", "p", "mutations", "a", "mutations"], .directory),
    (["s", "p", "mutations", "a", "mutations", "x"], .directory),
    (["s", "p", "mutations", "a", "mutations", "x", "__init__.py"], sampleSource "In a"),
    (["s", "p", "mutations", "b"], .directory),
    (["s", "p", "mutations", "b", "__init__.py"], sampleSource "B"),
    (["s", "p", "mutations", "b", "mutations"], .directory),
    (["s", "p", "mutations", "b", "mutations", "x"], .directory),
    (["s", "p", "mutations", "b", "mutations", "x", "__init__.py"], sampleSource "In b"),
    (["s", "p", "mutations", "c"], .directory)]

def compiled : Options := ⟨.rawDocstring, none, none⟩

def namesakesVariantFiles : List Path :=
  [⟨"/MutationSchemas/a/p.json"⟩, ⟨"/MutationSchemas/MutationSchemas/x/p.json"⟩,
    ⟨"/MutationSchemas/b/p.json"⟩, ⟨"/MutationSchemas/MutationSchemas/x/p.json"⟩]

def namesakesMade : FileTree :=
  (makeArtifact compiled.mode ⟨"/s/p"⟩ (sourceRoot ⟨"/s/p"⟩ compiled) "p"
    (Path.join ⟨"/o"⟩ (fileName "p" compiled)) namesakes).2

theorem wellFormed_namesakes : namesakes.WellFormed := by decide +kernel

theorem namesakes_steps :
    (makeArtifact compiled.mode ⟨"/s/p"⟩ (sourceRoot ⟨"/s/p"⟩ compiled) "p"
      (Path.join ⟨"/o"⟩ (fileName "p" compiled)) namesakes).1 =
      .ok [Path.join ⟨"/o"⟩ (fileName "p" compiled)] ∧
    namesakesMade.locate (variantsDirectory ⟨"/s/p"⟩) = .ok ["s", "p", "mutations"] ∧
    namesakesMade.find? ["s", "p", "mutations"] = some .directory ∧
    namesakesMade.namesIn ["s", "p", "mutations"] = (["a", "b", "c"] : List Text) ∧
    (["a", "b", "c"] : List Text).filter (fun name =>
      namesakesMade.isDirectory ((variantsDirectory ⟨"/s/p"⟩).join name) && !isIgnored name) =
      (["a", "b", "c"] : List Text) ∧
    (Action.forEach (fun variant =>
      (generateVariant 10 ⟨"/s/p"⟩ ⟨"/o"⟩ (sourceRoot ⟨"/s/p"⟩ compiled) (fileName "p" compiled)
        variant).orNothing) ["a", "b", "c"] namesakesMade).1 =
      .ok namesakesVariantFiles := by
  decide +kernel

theorem generate_namesakes : ∃ after, generate ⟨"/s/p"⟩ ⟨"/o"⟩ compiled namesakes =
    (.ok (⟨"/o/p.json"⟩ :: namesakesVariantFiles), after) := by
  obtain ⟨made, located, directory, listed, kept, more⟩ := namesakes_steps
  have variants : variants namesakesMade ⟨"/s/p"⟩ = (["a", "b", "c"] : List Text) := by
    rw [variants_of_sorted located directory listed (by decide), kept]
  have named : name namesakes ⟨"/s/p"⟩ = .ok "p" := by decide +kernel
  have start : Path.absolute namesakes.currentPath ⟨"/s/p"⟩ = ⟨"/s/p"⟩ := by decide
  have goal : Path.absolute namesakes.currentPath ⟨"/o"⟩ = ⟨"/o"⟩ := by decide
  have levels : enoughLevels namesakes (Path.join ⟨"/o"⟩ (compiled.fileName.getD [])) = 10 + 1 := by
    decide
  have file : Path.join ⟨"/o"⟩ (fileName "p" compiled) = ⟨"/o/p.json"⟩ := by decide
  rw [generate_eq namesakes compiled (by decide) (by decide), start, goal, levels]
  rw [← variants, namesakesMade] at more
  rw [generateWithin_of_made named (Action.eq_ok made) (Action.eq_ok more), file]
  exact ⟨_, rfl⟩

/-- A run that fails leaves all regular files as they are, and one that does not has touched only
those that it reports. -/
theorem generate_touches_reported (tree : FileTree) (wellFormed : tree.WellFormed)
    (package output parent : Path) (options : Options) (derived : options.fileName = none)
    (above : (Path.absolute tree.currentPath output).parent? = some parent) :
    (∀ failure after, generate package output options tree = (.error failure, after) →
      ∀ location, after.content? location = tree.content? location) ∧
    ∀ written after, generate package output options tree = (.ok written, after) →
      (∀ location, after.content? location ≠ tree.content? location →
        ∃ path ∈ written, after.locate path = .ok location) ∧
      ∀ path ∈ written, after.isFile path = true ∧
        ((Path.absolute tree.currentPath output).LiesIn path ∨
          (parent.join schemasDirectory).LiesBelow path) := by
  have writes := reports_generate package output options tree
  constructor
  · intro failure after run
    rw [run] at writes
    exact writes.content?_eq
  · intro written after run
    rw [run] at writes
    obtain ⟨found, chains, last, covers, -⟩ := exists_covers wellFormed derived run
    have fileNamed := options.mode.isName_artifactName (Path.isName_of_fileName? last)
    refine ⟨writes.changed, fun path mem => ⟨writes.present path mem, ?_⟩⟩
    rw [covers.written] at mem
    obtain ⟨chain, known, rfl⟩ := List.mem_map.mp mem
    by_cases own : chain = []
    · rw [own]
      exact .inl (liesIn_variantFile_nil _ fileNamed)
    · exact .inr (liesBelow_variantFile above fileNamed own (covers.variants chain known).named)

theorem generate_touches_reported_namesakes : ∃ after,
    generate ⟨"/s/p"⟩ ⟨"/o"⟩ compiled namesakes =
      (.ok (⟨"/o/p.json"⟩ :: namesakesVariantFiles), after) ∧
    ∀ location, after.content? location ≠ namesakes.content? location →
      ∃ path ∈ (⟨"/o/p.json"⟩ :: namesakesVariantFiles : List Path),
        after.locate path = .ok location := by
  obtain ⟨after, run⟩ := generate_namesakes
  have touched := (generate_touches_reported namesakes wellFormed_namesakes ⟨"/s/p"⟩ ⟨"/o"⟩ ⟨"/"⟩
    compiled rfl (by decide)).2 _ after run
  exact ⟨after, run, touched.1⟩

/-- The artifacts of a run belong to different chains of variants, and two of them lie in one place
just if their chains are equally deep and end with the same name. -/
theorem generate_nodup_iff (tree : FileTree) (wellFormed : tree.WellFormed)
    (package output : Path) (options : Options) (derived : options.fileName = none)
    {written : List Path} {after : FileTree}
    (h : generate package output options tree = (.ok written, after)) :
    ∃ found chains, (Path.absolute tree.currentPath package).fileName? = some found ∧
      Covers (Path.absolute tree.currentPath package) (Path.absolute tree.currentPath output)
        (options.mode.artifactName found) tree chains written ∧
      (written.Nodup ↔ ∀ chain ∈ chains, ∀ other ∈ chains,
        SamePlace chain other → chain = other) := by
  obtain ⟨found, chains, last, covers, -⟩ := exists_covers wellFormed derived h
  have fileNamed := options.mode.isName_artifactName (Path.isName_of_fileName? last)
  have place {chain other : List Text} (known : chain ∈ chains) (otherKnown : other ∈ chains) :=
    variantFile_eq_iff (Path.absolute tree.currentPath output) fileNamed
      (covers.variants chain known).named (covers.variants other otherKnown).named
  refine ⟨found, chains, last, covers, ?_⟩
  rw [covers.written, List.nodup_map_iff_inj_on covers.nodup]
  constructor
  · intro apart chain known other otherKnown same
    exact apart chain known other otherKnown ((place known otherKnown).mpr same)
  · intro apart chain known other otherKnown same
    exact apart chain known other otherKnown ((place known otherKnown).mp same)

theorem generate_nodup_iff_namesakes :
    ∃ chains : List (List Text), ∃ chain ∈ chains, ∃ other ∈ chains,
      (∀ chain ∈ chains, IsVariant namesakes ⟨"/s/p"⟩ chain) ∧
      SamePlace chain other ∧ chain ≠ other := by
  obtain ⟨after, run⟩ := generate_namesakes
  obtain ⟨found, chains, -, covers, unique⟩ := generate_nodup_iff namesakes wellFormed_namesakes
    ⟨"/s/p"⟩ ⟨"/o"⟩ compiled rfl run
  have start : Path.absolute namesakes.currentPath ⟨"/s/p"⟩ = ⟨"/s/p"⟩ := by decide
  have shared := mt unique.mpr (by decide)
  push Not at shared
  obtain ⟨chain, known, other, otherKnown, same, differ⟩ := shared
  rw [start] at covers
  exact ⟨chains, chain, known, other, otherKnown, covers.variants, same, differ⟩

-- So one artifact may overwrite another one of the same run.
theorem not_nodup_written :
    ¬∀ (tree : FileTree) (package output : Path) (options : Options) (written : List Path)
      (after : FileTree), tree.WellFormed → options.fileName = none →
      generate package output options tree = (.ok written, after) → written.Nodup := by
  intro always
  obtain ⟨after, run⟩ := generate_namesakes
  have nodup := always _ _ _ _ _ _ wellFormed_namesakes rfl run
  exact absurd nodup (by decide)

end Package

end CallSchema
