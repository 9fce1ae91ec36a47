import CallSchema.Proofs.FileTree.Paving
import CallSchema.Proofs.Package.Variants

set_option autoImplicit false

namespace CallSchema.Package

open CallSchema.Path (IsName)

variable {output : Path} {chain : List Text} {fileName variant : Text}

def outputBase (output : Path) : Path := output.parent?.getD output

def artifactNames (depth : Nat) (variant fileName : Text) : List Text :=
  List.replicate (depth + 1) schemasDirectory ++ [variant, fileName]

theorem isName_artifactNames (depth : Nat) (variantNamed : IsName variant)
    (fileNamed : IsName fileName) : ∀ name ∈ artifactNames depth variant fileName, IsName name := by
  intro name mem
  rcases List.mem_append.mp mem with directory | last
  · rw [(List.mem_replicate.mp directory).2]
    exact isName_schemasDirectory
  · rcases List.mem_pair.mp last with rfl | rfl
    · exact variantNamed
    · exact fileNamed

theorem variantFile_concat_eq (output : Path) (fileName variant : Text)
    (named : ∀ name ∈ chain, IsName name) : variantFile output fileName (chain ++ [variant]) =
      (artifactNames chain.length variant fileName).foldl Path.join (outputBase output) := by
  rw [variantFile_concat output fileName variant named, variantsOutput, artifactNames,
    List.foldl_append]
  rfl

theorem place_variantFile_nil (tree : FileTree) (output : Path) (fileNamed : IsName fileName) :
    tree.place (variantFile output fileName []) = tree.place output ++ [fileName] :=
  tree.place_join output fileNamed

theorem place_variantFile_concat (tree : FileTree) (output : Path)
    (named : ∀ name ∈ chain, IsName name) (variantNamed : IsName variant)
    (fileNamed : IsName fileName) :
    tree.place (variantFile output fileName (chain ++ [variant])) =
      tree.place (outputBase output) ++ artifactNames chain.length variant fileName := by
  rw [variantFile_concat_eq output fileName variant named,
    tree.place_foldl_join _ (isName_artifactNames _ variantNamed fileNamed)]

theorem exists_place_output (tree : FileTree) (output : Path) :
    ∃ last : List Text, last.length ≤ 1 ∧ output.names = (outputBase output).names ++ last ∧
      tree.place output = FileTree.walk (tree.place (outputBase output)) last := by
  unfold outputBase
  cases above : output.parent? with
  | none => exact ⟨[], by simp, by simp, rfl⟩
  | some parent =>
    obtain ⟨last, short, whole⟩ := Path.names_of_parent? above
    refine ⟨last, short, whole, ?_⟩
    have start : tree.origin parent = tree.origin output := by
      simp only [FileTree.origin, Path.isAbsolute_of_parent? above]
    simp only [FileTree.place, Option.getD_some, start, whole, FileTree.walk_append]

theorem place_variantFile_ne (tree : FileTree) (output : Path) (inner : chain ≠ [])
    (named : ∀ name ∈ chain, IsName name) (fileNamed : IsName fileName) :
    tree.place (variantFile output fileName chain) ≠
      tree.place (variantFile output fileName []) := by
  obtain ⟨outer, variant, rfl⟩ := (List.eq_nil_or_concat' chain).resolve_left inner
  intro same
  obtain ⟨last, short, -, place⟩ := exists_place_output tree output
  have upTo := FileTree.length_walk_le (tree.place (outputBase output)) last
  rw [place_variantFile_concat tree output (fun name mem => named name (by simp [mem]))
    (named variant (by simp)) fileNamed, place_variantFile_nil tree output fileNamed, place] at same
  have lengths := congrArg List.length same
  simp only [artifactNames, List.length_append, List.length_replicate, List.length_cons,
    List.length_nil] at lengths
  omega

theorem names_variantFile_nil (output : Path) (fileNamed : IsName fileName) :
    (variantFile output fileName []).names = output.names ++ [fileName] :=
  Path.names_join output fileNamed

theorem names_variantFile_concat_eq (output : Path) (named : ∀ name ∈ chain, IsName name)
    (variantNamed : IsName variant) (fileNamed : IsName fileName) :
    (variantFile output fileName (chain ++ [variant])).names =
      (outputBase output).names ++ artifactNames chain.length variant fileName := by
  rw [variantFile_concat_eq output fileName variant named,
    Path.names_foldl_join _ (isName_artifactNames _ variantNamed fileNamed)]

structure Above (tree : FileTree) (file start : Path) (names : List Text) (last : Text) :
    Prop where
  parent : file.parent? = some (names.foldl Path.join start)
  named : ∀ name ∈ names, IsName name
  there : tree.isDirectory start = true
  absolute : file.isAbsolute = start.isAbsolute
  whole : file.names = start.names ++ names ++ [last]

variable {tree : FileTree} {file start : Path} {names : List Text} {last : Text}

theorem Above.place (above : Above tree file start names last) (named : IsName last) :
    tree.place file = tree.place start ++ names ++ [last] := by
  have begin : tree.origin file = tree.origin start := by
    simp only [FileTree.origin, above.absolute]
  have below : ∀ name ∈ names ++ [last], IsName name :=
    List.forall_mem_append.mpr ⟨above.named, by simpa using named⟩
  rw [FileTree.place, begin, above.whole, List.append_assoc, FileTree.walk_append,
    FileTree.walk_of_isName below, ← List.append_assoc]
  rfl

theorem Above.prefix_place (above : Above tree file start names last) (named : IsName last)
    {shorter : List Text} (within : shorter <+: names) :
    tree.place start ++ shorter <+: tree.place file := by
  rw [above.place named, List.append_assoc]
  exact (List.prefix_append_right_inj _).mpr (within.trans (List.prefix_append _ _))

theorem Above.names_parent (above : Above tree file start names last) :
    (names.foldl Path.join start).names = start.names ++ names :=
  Path.names_foldl_join start above.named

-- Making these directories does not take more levels than their path has characters.
theorem Above.length_le (above : Above tree file start names last) :
    names.length ≤ (names.foldl Path.join start).text.length := by
  have whole := congrArg List.length above.names_parent
  rw [List.length_append] at whole
  exact (whole ▸ Nat.le_add_left _ _).trans (Path.length_names_le _)

theorem isAbsolute_outputBase (absolute : output.isAbsolute = true) :
    (outputBase output).isAbsolute = true := by
  unfold outputBase
  cases above : output.parent? with
  | none => exact absolute
  | some parent => exact (Path.isAbsolute_of_parent? above).trans absolute

theorem isDirectory_outputBase (absolute : output.isAbsolute = true)
    (there : tree.isDirectory output = true) : tree.isDirectory (outputBase output) = true := by
  obtain ⟨last, -, whole, -⟩ := exists_place_output tree output
  have base := isAbsolute_outputBase absolute
  exact FileTree.isDirectory_of_prefix there (Path.text_ne_nil_of_isAbsolute base)
    (base.trans absolute.symm) (whole ▸ List.prefix_append _ _)

theorem exists_above (absolute : output.isAbsolute = true)
    (there : tree.isDirectory output = true) (named : ∀ name ∈ chain, IsName name)
    (fileNamed : IsName fileName) :
    ∃ start names, Above tree (variantFile output fileName chain) start names fileName := by
  rcases List.eq_nil_or_concat' chain with rfl | ⟨outer, variant, rfl⟩
  · obtain ⟨parent, above, same, names⟩ :=
      Path.exists_parent?_join (Path.text_ne_nil_of_isAbsolute absolute) fileNamed
    refine ⟨parent, [], above, by simp, ?_, ?_, ?_⟩
    · exact FileTree.isDirectory_of_prefix there
        (Path.text_ne_nil_of_isAbsolute (same.trans absolute)) same (names ▸ List.prefix_refl _)
    · exact (Path.isAbsolute_join_name fileNamed).trans same.symm
    · rw [names, List.append_nil]
      exact Path.names_join output fileNamed
  · have outerNamed : ∀ name ∈ outer, IsName name := fun name mem => named name (by simp [mem])
    have variantNamed := named variant (by simp)
    have below := isName_artifactNames outer.length variantNamed fileNamed
    have split : artifactNames outer.length variant fileName =
        List.replicate (outer.length + 1) schemasDirectory ++ [variant] ++ [fileName] := by
      simp [artifactNames]
    refine ⟨outputBase output, List.replicate (outer.length + 1) schemasDirectory ++ [variant],
      ?_, ?_, isDirectory_outputBase absolute there, ?_, ?_⟩
    · rw [variantFile_concat output fileName variant outerNamed,
        Path.parent?_join _ variantNamed fileNamed, variantsOutput, List.foldl_append]
      rfl
    · exact fun name mem => below name (by rw [split]; exact List.mem_append_left _ mem)
    · rw [variantFile_concat_eq output fileName variant outerNamed, isAbsolute_outputBase absolute]
      exact Path.isAbsolute_foldl_join (isAbsolute_outputBase absolute) _
    · rw [variantFile_concat_eq output fileName variant outerNamed,
        Path.names_foldl_join _ below, split]
      simp only [List.append_assoc]

theorem toOption_read_variantFile (wellFormed : tree.WellFormed)
    (absolute : output.isAbsolute = true) (there : tree.isDirectory output = true)
    (named : ∀ name ∈ chain, IsName name) (fileNamed : IsName fileName) :
    (tree.read (variantFile output fileName chain)).toOption =
      tree.content? (tree.place (variantFile output fileName chain)) := by
  rcases List.eq_nil_or_concat' chain with rfl | ⟨outer, variant, rfl⟩
  · rw [place_variantFile_nil tree output fileNamed]
    have named : ∀ name ∈ [fileName], IsName name := by simpa using fileNamed
    exact (FileTree.Starts.of_isDirectory wellFormed there).toOption_read named
  · have outerNamed : ∀ name ∈ outer, IsName name := fun name mem => named name (by simp [mem])
    have variantNamed := named variant (by simp)
    rw [place_variantFile_concat tree output outerNamed variantNamed fileNamed,
      variantFile_concat_eq output fileName variant outerNamed]
    exact (FileTree.Starts.of_isDirectory wellFormed (isDirectory_outputBase absolute
      there)).toOption_read (isName_artifactNames _ variantNamed fileNamed)

section Prefix

variable {second : Text}

theorem not_prefix_place_concat (absolute : output.isAbsolute = true)
    (there : tree.isDirectory output = true) (named : ∀ name ∈ chain, IsName name)
    (variantNamed : IsName variant) (fileNamed : IsName fileName) (secondNamed : IsName second)
    (differ : fileName ≠ schemasDirectory)
    (free : tree.find? (tree.place (variantFile output fileName [])) ≠ some .directory)
    (apart : ¬(variantFile output fileName []).names <+:
      (variantFile output second (chain ++ [variant])).names) :
    ¬tree.place (variantFile output fileName []) <+:
      tree.place (variantFile output second (chain ++ [variant])) := by
  obtain ⟨last, short, whole, place⟩ := exists_place_output tree output
  have base := FileTree.find?_place_of_isDirectory (isDirectory_outputBase absolute there)
  rw [names_variantFile_nil output fileNamed, whole,
    names_variantFile_concat_eq output named variantNamed secondNamed, List.append_assoc,
    List.prefix_append_right_inj] at apart
  rw [place_variantFile_nil tree output fileNamed, place] at free ⊢
  rw [place_variantFile_concat tree output named variantNamed secondNamed]
  generalize tree.place (outputBase output) = top at base free ⊢
  match last, short with
  | [], _ =>
    intro shorter
    exact apart ((List.prefix_append_right_inj top).mp shorter)
  | [name], _ =>
    have mem : name ∈ output.names := by simp [whole]
    obtain ⟨visible, plain, here⟩ := Path.of_mem_names mem
    by_cases up : name = ['.', '.']
    · have above : FileTree.walk top [name] = top.dropLast := by
        simp [FileTree.walk, FileTree.move, up]
      rw [above] at free ⊢
      intro shorter
      rcases List.eq_nil_or_concat' top with rfl | ⟨outer, inner, rfl⟩
      · rw [artifactNames, List.replicate_succ] at shorter
        exact differ (List.cons_prefix_cons.mp shorter).1
      · rw [List.dropLast_concat, List.append_assoc, List.prefix_append_right_inj] at shorter
        obtain ⟨rfl, -⟩ := List.cons_prefix_cons.mp shorter
        rw [List.dropLast_concat] at free
        exact free base
    · have down : FileTree.walk top [name] = top ++ [name] :=
        FileTree.walk_of_isName (by simpa using ⟨visible, plain, here, up⟩)
      rw [down, List.append_assoc, List.prefix_append_right_inj]
      exact apart

theorem not_prefix_place {others : List Text} (absolute : output.isAbsolute = true)
    (there : tree.isDirectory output = true) (named : ∀ name ∈ chain, IsName name)
    (otherNamed : ∀ name ∈ others, IsName name) (fileNamed : IsName fileName)
    (secondNamed : IsName second) (differ : fileName ≠ schemasDirectory)
    (free : tree.find? (tree.place (variantFile output fileName chain)) ≠ some .directory)
    (apart : ¬(variantFile output fileName chain).names <+:
      (variantFile output second others).names) :
    ¬tree.place (variantFile output fileName chain) <+:
      tree.place (variantFile output second others) := by
  rcases List.eq_nil_or_concat' chain with rfl | ⟨outer, variant, rfl⟩
  · rcases List.eq_nil_or_concat' others with rfl | ⟨otherOuter, otherVariant, rfl⟩
    · rw [names_variantFile_nil output fileNamed, names_variantFile_nil output secondNamed,
        List.prefix_append_right_inj] at apart
      rw [place_variantFile_nil tree output fileNamed,
        place_variantFile_nil tree output secondNamed, List.prefix_append_right_inj]
      exact apart
    · exact not_prefix_place_concat absolute there (fun name mem => otherNamed name (by simp [mem]))
        (otherNamed otherVariant (by simp)) fileNamed secondNamed differ free apart
  · have outerNamed : ∀ name ∈ outer, IsName name := fun name mem => named name (by simp [mem])
    have variantNamed := named variant (by simp)
    rw [place_variantFile_concat tree output outerNamed variantNamed fileNamed]
    rcases List.eq_nil_or_concat' others with rfl | ⟨otherOuter, otherVariant, rfl⟩
    · -- That of a package does not lie deep enough.
      obtain ⟨last, short, -, place⟩ := exists_place_output tree output
      have upTo := FileTree.length_walk_le (tree.place (outputBase output)) last
      rw [place_variantFile_nil tree output secondNamed, place]
      intro shorter
      have lengths := shorter.length_le
      simp only [artifactNames, List.length_append, List.length_replicate, List.length_cons,
        List.length_nil] at lengths
      omega
    · have otherOuterNamed : ∀ name ∈ otherOuter, IsName name :=
        fun name mem => otherNamed name (by simp [mem])
      have otherVariantNamed := otherNamed otherVariant (by simp)
      rw [names_variantFile_concat_eq output outerNamed variantNamed fileNamed,
        names_variantFile_concat_eq output otherOuterNamed otherVariantNamed secondNamed,
        List.prefix_append_right_inj] at apart
      rw [place_variantFile_concat tree output otherOuterNamed otherVariantNamed secondNamed,
        List.prefix_append_right_inj]
      exact apart

end Prefix

end CallSchema.Package
