import CallSchema.Proofs.FileTree.Location
import CallSchema.Proofs.Package.Variants

set_option autoImplicit false

namespace CallSchema.Package

open FileTree (Grows Writes)
open CallSchema.Path (IsName)

theorem of_name {tree : FileTree} {package : Path} {found : Text}
    (h : name tree package = .ok found) :
    package.fileName? = some found ∧ tree.isFile (initFile package) = true := by
  unfold name at h
  split at h
  · cases h
  · next last =>
    split at h
    · next there =>
      cases h
      exact ⟨last, there⟩
    · cases h

theorem exists_located {tree : FileTree} {package : Path} {found : Text}
    (h : name tree package = .ok found) : ∃ location, tree.locate package = .ok location ∧
      (tree.content? (location ++ ["__init__.py".toList])).isSome = true := by
  obtain ⟨last, there⟩ := of_name h
  have init : IsName "__init__.py".toList := by decide
  obtain ⟨inner, reached, file⟩ := FileTree.isFile_iff.mp there
  rw [initFile, FileTree.locate_join (Path.text_ne_nil_of_fileName? last) init] at reached
  cases located : tree.locate package with
  | error cause =>
    rw [located] at reached
    cases reached
  | ok location =>
    rw [located] at reached
    rw [FileTree.eq_concat_of_step init reached] at file
    exact ⟨location, rfl, file⟩

structure IsVariant (tree : FileTree) (package : Path) (chain : List Text) : Prop where
  named : ∀ name ∈ chain, IsName name
  there : tree.isFile (initFile (variantPackage package chain)) = true

theorem IsVariant.grows {first second : FileTree} {package : Path} {chain : List Text}
    (h : IsVariant first package chain) (grows : Grows first second) :
    IsVariant second package chain :=
  ⟨h.named, grows.isFile h.there⟩

-- What was written are the artifacts of the chains.
structure Covers (package output : Path) (fileName : Text) (tree : FileTree)
    (chains : List (List Text)) (written : List Path) : Prop where
  nodup : chains.Nodup
  variants : ∀ chain ∈ chains, IsVariant tree package chain
  written : written = chains.map (variantFile output fileName)

section Run

variable {package output root : Path} {fileName : Text}

theorem exists_name {levels : Nat} {options : Options} {before after : FileTree}
    {written : List Path}
    (h : generateWithin levels package output options before = (.ok written, after)) :
    ∃ found, name before package = .ok found := by
  cases levels with
  | zero => cases h
  | succ levels =>
    have run := generated levels package output options before
    rw [h] at run
    cases run with
    | nothing named _ => exact ⟨_, named⟩
    | written named _ _ => exact ⟨_, named⟩

theorem covers_nil (tree : FileTree) : Covers package output fileName tree [] [] :=
  ⟨List.nodup_nil, by simp, rfl⟩

theorem Covers.nested {tree : FileTree} {variant : Text} {chains : List (List Text)}
    {written : List Path} (named : IsName variant)
    (h : Covers ((variantsDirectory package).join variant) (variantOutput output variant) fileName
      tree chains written) :
    Covers package output fileName tree (chains.map (variant :: ·)) written where
  nodup := h.nodup.map fun _ _ same => (List.cons.inj same).2
  variants chain mem := by
    obtain ⟨inner, known, rfl⟩ := List.mem_map.mp mem
    obtain ⟨innerNamed, there⟩ := h.variants inner known
    refine ⟨?_, there⟩
    intro name inside
    rcases List.mem_cons.mp inside with rfl | later
    · exact named
    · exact innerNamed name later
  written := by
    rw [h.written, List.map_map]
    rfl

theorem Covers.append {first second : FileTree} {chains more : List (List Text)}
    {written added : List Path} (h : Covers package output fileName first chains written)
    (grows : Grows first second) (later : Covers package output fileName second more added)
    (apart : ∀ chain ∈ chains, chain ∉ more) :
    Covers package output fileName second (chains ++ more) (written ++ added) where
  nodup := h.nodup.append later.nodup fun _ mem inMore => apart _ mem inMore
  variants chain mem := by
    rcases List.mem_append.mp mem with old | new
    · exact (h.variants chain old).grows grows
    · exact later.variants chain new
  written := by rw [h.written, later.written, List.map_append]

theorem covers_forEach {levels : Nat}
    (one : ∀ variant, IsName variant → ∀ (before after : FileTree) (written : List Path),
      before.WellFormed →
      generateVariant levels package output root fileName variant before = (.ok written, after) →
      ∃ chains, Covers ((variantsDirectory package).join variant) (variantOutput output variant)
        fileName after chains written)
    {names : List Text} (nodup : names.Nodup) (named : ∀ name ∈ names, IsName name)
    {before after : FileTree} (wellFormed : before.WellFormed) {written : List Path}
    (h : Action.forEach
      (fun variant => (generateVariant levels package output root fileName variant).orNothing)
      names before = (.ok written, after)) :
    ∃ chains, Covers package output fileName after chains written ∧
      ∀ chain ∈ chains, ∃ name ∈ names, chain.head? = some name := by
  induction names generalizing before written with
  | nil =>
    cases h
    exact ⟨[], covers_nil _, by simp⟩
  | cons variant rest ih =>
    obtain ⟨new, restNodup⟩ := List.nodup_cons.mp nodup
    have variantNamed := named variant (by simp)
    let run := generateVariant levels package output root fileName
    have reports (variant : Text) : (run variant).Reports := reports_generateWithin _ _ _ _
    obtain ⟨more, last, later⟩ := Action.exists_forEach run rest (run variant before).2
    rw [Action.forEach_cons (fun variant => (run variant).orNothing)
      (Action.orNothing_eq (run variant) before) later] at h
    cases h
    have own : ∃ chains, Covers ((variantsDirectory package).join variant)
        (variantOutput output variant) fileName (run variant before).2 chains
        ((run variant before).1.toOption.getD []) := by
      cases done : run variant before with
      | mk result middle =>
        cases result with
        | error failure => exact ⟨[], covers_nil middle⟩
        | ok written => exact one variant variantNamed before middle written wellFormed done
    obtain ⟨chains, covers⟩ := own
    obtain ⟨others, restCovers, heads⟩ := ih restNodup
      (fun name mem => named name (by simp [mem]))
      ((reports variant before).wellFormed wellFormed) later
    have grows : Grows (run variant before).2 after := by
      have writes := Action.Reports.forEach reports rest (run variant before).2
      rw [later] at writes
      exact writes.toGrows
    -- Chains that start with different variants are different.
    have apart : ∀ chain ∈ chains.map (variant :: ·), chain ∉ others := by
      intro chain mem inOthers
      obtain ⟨inner, -, rfl⟩ := List.mem_map.mp mem
      obtain ⟨name, known, same⟩ := heads _ inOthers
      rw [List.head?_cons, Option.some.injEq] at same
      exact new (same ▸ known)
    refine ⟨_, (covers.nested variantNamed).append grows restCovers apart, ?_⟩
    intro chain mem
    rcases List.mem_append.mp mem with old | later
    · obtain ⟨inner, -, rfl⟩ := List.mem_map.mp old
      exact ⟨variant, by simp, rfl⟩
    · obtain ⟨name, known, same⟩ := heads chain later
      exact ⟨name, by simp [known], same⟩

theorem covers_generateWithin (levels : Nat) {options : Options} {before after : FileTree}
    (wellFormed : before.WellFormed) {written : List Path}
    (called : ∀ found, name before package = .ok found → Package.fileName found options = fileName)
    (h : generateWithin levels package output options before = (.ok written, after)) :
    ∃ chains, Covers package output fileName after chains written ∧
      (written ≠ [] → [] ∈ chains) := by
  induction levels generalizing package output options before after written with
  | zero => cases h
  | succ levels ih =>
    have run := generated levels package output options before
    rw [h] at run
    cases run with
    | nothing named untouched => exact ⟨[], covers_nil after, fun made => absurd rfl made⟩
    | @written found middle after more named own later =>
      rw [called found named] at own later ⊢
      obtain ⟨last, there⟩ := of_name named
      obtain ⟨nodup, names⟩ := nodup_variants (own.wellFormed wellFormed) package
      have one : ∀ variant, IsName variant → ∀ (first second : FileTree) (written : List Path),
          first.WellFormed →
          generateVariant levels package output (sourceRoot package options) fileName variant
            first = (.ok written, second) →
          ∃ chains, Covers ((variantsDirectory package).join variant)
            (variantOutput output variant) fileName second chains written :=
        fun variant _ first second written firstFormed done =>
          let ⟨chains, covers, _⟩ := ih firstFormed (fun _ _ => rfl) done
          ⟨chains, covers⟩
      obtain ⟨chains, covers, heads⟩ :=
        covers_forEach one nodup names (own.wellFormed wellFormed) later
      have reports (variant : Text) : (generateVariant levels package output
          (sourceRoot package options) fileName variant).Reports := reports_generateWithin _ _ _ _
      have rest := Action.Reports.forEach reports (variants middle package) middle
      rw [later] at rest
      -- The package itself is the empty chain, and those of its variants are not empty.
      have itself : Covers package output fileName middle [[]] [output.join fileName] := by
        refine ⟨List.nodup_singleton _, ?_, rfl⟩
        intro chain mem
        rw [List.mem_singleton.mp mem]
        exact ⟨by simp, own.isFile there⟩
      have apart : ∀ chain ∈ [([] : List Text)], chain ∉ chains := by
        intro chain mem inner
        obtain ⟨name, -, same⟩ := heads chain inner
        rw [List.mem_singleton.mp mem] at same
        cases same
      exact ⟨[[]] ++ chains, itself.append rest.toGrows covers apart, fun _ => by simp⟩

end Run

theorem mapError_absolute {tree : FileTree} {path : Path} (visible : path.text ≠ []) :
    (tree.absolute path).mapError (Failure.io path) =
      .ok (Path.absolute tree.currentPath path) := by
  rw [FileTree.absolute, if_neg visible, Except.mapError]

theorem generate_eq (tree : FileTree) {package output : Path} (options : Options)
    (visible : package.text ≠ []) (outputVisible : output.text ≠ []) :
    generate package output options tree =
      generateWithin
        (enoughLevels tree ((Path.absolute tree.currentPath output).join
          (options.fileName.getD [])))
        (Path.absolute tree.currentPath package) (Path.absolute tree.currentPath output) options
        tree := by
  rw [generate, Action.look_bind_ok (mapError_absolute visible),
    Action.look_bind_ok (mapError_absolute outputVisible)]
  exact Action.look_bind_ok rfl _

theorem generate_error {package output : Path} (options : Options)
    (h : package.text = [] ∨ output.text = []) :
    ∃ failure, ∀ tree, generate package output options tree = (.error failure, tree) := by
  have missing (tree : FileTree) {path : Path} (empty : path.text = []) :
      (tree.absolute path).mapError (Failure.io path) = .error (.io path .emptyPath) := by
    rw [FileTree.absolute, if_pos empty, Except.mapError]
  by_cases empty : package.text = []
  · exact ⟨_, fun tree => Action.look_bind_error (missing tree empty) _⟩
  · refine ⟨.io output .emptyPath, fun tree => ?_⟩
    rw [generate, Action.look_bind_ok (mapError_absolute empty)]
    exact Action.look_bind_error (missing tree (h.resolve_left empty)) _

theorem generate_cases (package output : Path) (options : Options) (tree : FileTree) :
    (∃ failure, generate package output options tree = (.error failure, tree)) ∨
      generate package output options tree =
        generateWithin
          (enoughLevels tree ((Path.absolute tree.currentPath output).join
            (options.fileName.getD [])))
          (Path.absolute tree.currentPath package) (Path.absolute tree.currentPath output) options
          tree := by
  by_cases empty : package.text = [] ∨ output.text = []
  · obtain ⟨failure, failed⟩ := generate_error options empty
    exact .inl ⟨failure, failed tree⟩
  · rw [not_or] at empty
    exact .inr (generate_eq tree options empty.1 empty.2)

theorem reports_generate (package output : Path) (options : Options) :
    (generate package output options).Reports := by
  intro tree
  rcases generate_cases package output options tree with ⟨failure, failed⟩ | run
  · rw [failed]
    exact Writes.refl tree
  · rw [run]
    exact reports_generateWithin _ _ _ _ tree

theorem initFile_variantPackage (package : Path) (chain : List Text) :
    initFile (variantPackage package chain) =
      (variantNames chain ++ ["__init__.py".toList]).foldl Path.join package := by
  rw [initFile, variantPackage_eq, List.foldl_append]
  rfl

theorem IsVariant.before {tree after : FileTree} {package output : Path} {fileName found : Text}
    {chains : List (List Text)} {written : List Path} (wellFormed : tree.WellFormed)
    (named : name tree package = .ok found) (writes : Writes written tree after)
    (covers : Covers package output fileName after chains written) (fileNamed : IsName fileName)
    (other : fileName ≠ "__init__.py".toList) {chain : List Text}
    (h : IsVariant after package chain) : IsVariant tree package chain := by
  obtain ⟨last, -⟩ := of_name named
  have visible := Path.text_ne_nil_of_fileName? last
  have init : IsName "__init__.py".toList := by decide
  obtain ⟨location, located, -⟩ := exists_located named
  have names : ∀ name ∈ variantNames chain ++ ["__init__.py".toList], IsName name := by
    intro name mem
    rcases List.mem_append.mp mem with nested | last
    · exact isName_variantNames h.named name nested
    · rw [List.mem_singleton.mp last]
      exact init
  refine ⟨h.named, ?_⟩
  have there := h.there
  rw [initFile_variantPackage] at there ⊢
  refine wellFormed.isFile_of_grows writes.toGrows located visible names ?_ there
  -- Whatever the run wrote bears another name.
  by_contra differ
  obtain ⟨path, mem, reached⟩ := writes.changed _ differ
  rw [covers.written] at mem
  obtain ⟨chain, -, rfl⟩ := List.mem_map.mp mem
  have ending := FileTree.getLast?_of_locate_join fileNamed reached
  rw [← List.append_assoc, List.getLast?_concat, Option.some.injEq] at ending
  exact other ending.symm

theorem exists_covers {tree after : FileTree} (wellFormed : tree.WellFormed) {package output : Path}
    {options : Options} (derived : options.fileName = none) {written : List Path}
    (h : generate package output options tree = (.ok written, after)) :
    ∃ found chains, (Path.absolute tree.currentPath package).fileName? = some found ∧
      Covers (Path.absolute tree.currentPath package) (Path.absolute tree.currentPath output)
        (options.mode.artifactName found) tree chains written ∧
      (written ≠ [] → [] ∈ chains) := by
  have writes := reports_generate package output options tree
  rw [h] at writes
  rcases generate_cases package output options tree with ⟨failure, failed⟩ | run
  · rw [failed] at h
    cases h
  rw [run] at h
  generalize Path.absolute tree.currentPath package = package at h ⊢
  generalize Path.absolute tree.currentPath output = output at h ⊢
  obtain ⟨found, named⟩ := exists_name h
  have last := (of_name named).1
  have called : ∀ other, name tree package = .ok other →
      fileName other options = options.mode.artifactName found := by
    intro other known
    rw [named] at known
    cases known
    rw [fileName, derived, Option.getD_none]
  obtain ⟨chains, covers, own⟩ := covers_generateWithin _ wellFormed called h
  have artifactNamed := options.mode.isName_artifactName (Path.isName_of_fileName? last)
  refine ⟨found, chains, last, ⟨covers.nodup, fun chain mem => ?_, covers.written⟩, own⟩
  exact IsVariant.before wellFormed named writes covers artifactNamed
    (options.mode.artifactName_ne_init found) (covers.variants chain mem)

end CallSchema.Package
