import CallSchema.Proofs.DocMode
import CallSchema.Proofs.FileTree.Listing
import CallSchema.Proofs.Package.Steps

set_option autoImplicit false

namespace CallSchema

open FileTree (Writes)
open CallSchema.Path (IsName)

namespace Package

theorem directoriesIn_eq {tree : FileTree} {path : Path} {names : List Text}
    (listed : tree.list path = .ok names) : directoriesIn tree path =
      .ok (names.filter fun name => tree.isDirectory (path.join name) && !isIgnored name) := by
  rw [directoriesIn, listed]
  rfl

theorem exists_list_of_directoriesIn {tree : FileTree} {path : Path} {names : List Text}
    (h : directoriesIn tree path = .ok names) : ∃ all, tree.list path = .ok all ∧ names =
      all.filter fun name => tree.isDirectory (path.join name) && !isIgnored name := by
  cases listed : tree.list path with
  | error cause =>
    rw [directoriesIn, listed] at h
    cases h
  | ok all =>
    rw [directoriesIn_eq listed] at h
    cases h
    exact ⟨all, rfl, rfl⟩

theorem nodup_directoriesIn {tree : FileTree} (wellFormed : tree.WellFormed) {path : Path}
    {names : List Text} (h : directoriesIn tree path = .ok names) :
    names.Nodup ∧ ∀ name ∈ names, IsName name := by
  obtain ⟨all, listed, rfl⟩ := exists_list_of_directoriesIn h
  obtain ⟨nodup, named⟩ := wellFormed.nodup_list listed
  exact ⟨nodup.filter _, fun name mem => named name (List.mem_filter.mp mem).1⟩

theorem ascending_directoriesIn {tree : FileTree} (wellFormed : tree.WellFormed) {path : Path}
    {names : List Text} (h : directoriesIn tree path = .ok names) :
    names.Pairwise fun first second => first < second := by
  obtain ⟨all, listed, rfl⟩ := exists_list_of_directoriesIn h
  exact (wellFormed.ascending_list listed).filter _

theorem nodup_variants {tree : FileTree} (wellFormed : tree.WellFormed) (package : Path) :
    (variants tree package).Nodup ∧ ∀ variant ∈ variants tree package, IsName variant := by
  unfold variants
  cases found : directoriesIn tree (variantsDirectory package) with
  | error cause => exact ⟨List.nodup_nil, by simp [Except.toOption]⟩
  | ok names => exact nodup_directoriesIn wellFormed found

theorem isIgnored_of_mem_variants {tree : FileTree} {package : Path} {variant : Text}
    (mem : variant ∈ variants tree package) : isIgnored variant = false := by
  unfold variants at mem
  cases found : directoriesIn tree (variantsDirectory package) with
  | error cause => simp [found, Except.toOption] at mem
  | ok names =>
    obtain ⟨all, -, rfl⟩ := exists_list_of_directoriesIn found
    rw [found] at mem
    have kept := (List.mem_filter.mp mem).2
    simp only [Bool.and_eq_true, Bool.not_eq_true'] at kept
    exact kept.2

theorem variants_of_sorted {tree : FileTree} {package : Path} {location : Location}
    {names : List Text} (located : tree.locate (variantsDirectory package) = .ok location)
    (directory : tree.find? location = some .directory) (found : tree.namesIn location = names)
    (sorted : names.Pairwise fun a b => Text.inOrder a b = true) :
    variants tree package = names.filter fun name =>
      tree.isDirectory ((variantsDirectory package).join name) && !isIgnored name := by
  rw [variants, directoriesIn_eq (FileTree.list_of_sorted located directory found sorted)]
  rfl

def schemasDirectory : Text := "MutationSchemas"

def variantPackage (package : Path) (chain : List Text) : Path :=
  chain.foldl (fun package variant => (variantsDirectory package).join variant) package

def variantNames (chain : List Text) : List Text :=
  chain.flatMap fun variant => ["mutations".toList, variant]

theorem variantPackage_eq (package : Path) (chain : List Text) :
    variantPackage package chain = (variantNames chain).foldl Path.join package := by
  induction chain generalizing package with
  | nil => rfl
  | cons variant rest ih => exact ih ((variantsDirectory package).join variant)

theorem isName_variantNames {chain : List Text} (named : ∀ name ∈ chain, IsName name) :
    ∀ name ∈ variantNames chain, IsName name := by
  intro name mem
  obtain ⟨variant, known, inside⟩ := List.mem_flatMap.mp mem
  rcases List.mem_pair.mp inside with rfl | rfl
  · decide
  · exact named name known

def variantFile (output : Path) (fileName : Text) (chain : List Text) : Path :=
  (chain.foldl variantOutput output).join fileName

def variantsOutput (output : Path) (depth : Nat) : Path :=
  (List.replicate depth schemasDirectory).foldl Path.join (output.parent?.getD output)

theorem isName_schemasDirectory : IsName schemasDirectory := by decide

theorem variantsOutput_succ (output : Path) (depth : Nat) :
    variantsOutput output (depth + 1) = (variantsOutput output depth).join schemasDirectory := by
  rw [variantsOutput, List.replicate_succ', List.foldl_append]
  rfl

theorem foldl_variantOutput (output : Path) {chain : List Text} {variant : Text}
    (named : ∀ name ∈ chain, IsName name) :
    (chain ++ [variant]).foldl variantOutput output =
      (variantsOutput output (chain.length + 1)).join variant := by
  induction chain using List.reverseRecOn generalizing variant with
  | nil => rfl
  | append_singleton chain outer ih =>
    have before : (chain ++ [outer]).foldl variantOutput output =
        (variantsOutput output (chain.length + 1)).join outer :=
      ih fun name mem => named name (by simp [mem])
    have above : ((variantsOutput output (chain.length + 1)).join outer).parent? =
        some (variantsOutput output (chain.length + 1)) := by
      rw [variantsOutput_succ]
      exact Path.parent?_join _ isName_schemasDirectory (named outer (by simp))
    have deeper : (chain ++ [outer]).length + 1 = (chain.length + 1) + 1 := by simp
    rw [List.foldl_append, before, deeper, variantsOutput_succ output (chain.length + 1)]
    simp only [List.foldl_cons, List.foldl_nil, variantOutput, above, Option.getD_some]
    rfl

theorem variantFile_concat (output : Path) {chain : List Text} (fileName variant : Text)
    (named : ∀ name ∈ chain, IsName name) :
    variantFile output fileName (chain ++ [variant]) =
      ((variantsOutput output (chain.length + 1)).join variant).join fileName := by
  rw [variantFile, foldl_variantOutput output named]

theorem names_variantFile_concat (output : Path) {chain : List Text} {fileName variant : Text}
    (named : ∀ name ∈ chain, IsName name) (variantNamed : IsName variant)
    (fileNamed : IsName fileName) :
    (variantFile output fileName (chain ++ [variant])).names =
      (output.parent?.getD output).names ++
        List.replicate (chain.length + 1) schemasDirectory ++ [variant, fileName] := by
  have directories : ∀ name ∈ List.replicate (chain.length + 1) schemasDirectory, IsName name := by
    intro name mem
    rw [(List.mem_replicate.mp mem).2]
    exact isName_schemasDirectory
  rw [variantFile_concat output fileName variant named, Path.names_join _ fileNamed,
    Path.names_join _ variantNamed, variantsOutput, Path.names_foldl_join _ directories]
  simp

def SamePlace (chain other : List Text) : Prop :=
  chain.length = other.length ∧ chain.getLast? = other.getLast?

theorem variantFile_nil_ne (output : Path) {chain : List Text} {fileName variant : Text}
    (named : ∀ name ∈ chain, IsName name) (variantNamed : IsName variant)
    (fileNamed : IsName fileName) :
    variantFile output fileName [] ≠ variantFile output fileName (chain ++ [variant]) := by
  intro same
  have upTo := output.length_names_parent.1
  have own : (variantFile output fileName []).names = output.names ++ [fileName] :=
    Path.names_join _ fileNamed
  have lengths := congrArg (fun path => path.names.length) same
  simp only [own, names_variantFile_concat output named variantNamed fileNamed, List.length_append,
    List.length_replicate, List.length_cons, List.length_nil] at lengths
  omega

theorem variantFile_eq_iff (output : Path) {fileName : Text} (fileNamed : IsName fileName)
    {chain other : List Text} (named : ∀ name ∈ chain, IsName name)
    (otherNamed : ∀ name ∈ other, IsName name) :
    variantFile output fileName chain = variantFile output fileName other ↔
      SamePlace chain other := by
  rcases List.eq_nil_or_concat' chain with rfl | ⟨outer, variant, rfl⟩
  · rcases List.eq_nil_or_concat' other with rfl | ⟨otherOuter, otherVariant, rfl⟩
    · exact iff_of_true rfl ⟨rfl, rfl⟩
    · have otherOuterNamed : ∀ name ∈ otherOuter, IsName name :=
        fun name mem => otherNamed name (by simp [mem])
      have apart := variantFile_nil_ne output otherOuterNamed (otherNamed otherVariant (by simp))
        fileNamed
      exact iff_of_false apart (by simp [SamePlace])
  · have outerNamed : ∀ name ∈ outer, IsName name := fun name mem => named name (by simp [mem])
    have variantNamed := named variant (by simp)
    rcases List.eq_nil_or_concat' other with rfl | ⟨otherOuter, otherVariant, rfl⟩
    · have apart := variantFile_nil_ne output outerNamed variantNamed fileNamed
      exact iff_of_false apart.symm (by simp [SamePlace])
    · have otherOuterNamed : ∀ name ∈ otherOuter, IsName name :=
        fun name mem => otherNamed name (by simp [mem])
      have otherVariantNamed := otherNamed otherVariant (by simp)
      constructor
      · intro same
        have names := congrArg Path.names same
        rw [names_variantFile_concat output outerNamed variantNamed fileNamed,
          names_variantFile_concat output otherOuterNamed otherVariantNamed fileNamed] at names
        obtain ⟨depths, ends⟩ := List.append_inj' names rfl
        have lengths := congrArg List.length depths
        simp only [List.length_append, List.length_replicate] at lengths
        simp only [List.cons.injEq, and_true] at ends
        exact ⟨by simp; omega, by simp [ends]⟩
      · rintro ⟨lengths, ends⟩
        simp only [List.length_append, List.length_cons, List.length_nil] at lengths
        simp only [List.getLast?_concat, Option.some.injEq] at ends
        rw [variantFile_concat output fileName variant outerNamed,
          variantFile_concat output fileName otherVariant otherOuterNamed, lengths, ends]

end Package

end CallSchema
