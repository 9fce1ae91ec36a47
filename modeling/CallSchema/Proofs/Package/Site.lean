import CallSchema.Proofs.Package.Levels
import CallSchema.Proofs.Package.Reading

set_option autoImplicit false

namespace CallSchema

open CallSchema.Path (IsName)

namespace Package

variable {tree : FileTree}

structure IsNested (tree : FileTree) (package : Path) (chain : List Text) : Prop where
  named : ∀ name ∈ chain, IsName name
  shown : ∀ name ∈ chain, isIgnored name = false
  there : ∀ outer, outer <+: chain →
    tree.isFile (initFile (variantPackage package outer)) = true

theorem IsNested.concat {package : Path} {chain : List Text} {variant : Text}
    (nested : IsNested tree package chain) (named : IsName variant)
    (shown : isIgnored variant = false)
    (there : tree.isFile (initFile (variantPackage package (chain ++ [variant]))) = true) :
    IsNested tree package (chain ++ [variant]) := by
  refine ⟨List.forall_mem_append.mpr ⟨nested.named, by simpa using named⟩,
    List.forall_mem_append.mpr ⟨nested.shown, by simpa using shown⟩, fun outer shorter => ?_⟩
  rcases List.prefix_concat_iff.mp shorter with rfl | within
  · exact there
  · exact nested.there outer within

theorem IsNested.eq_nil {package : Path} {chain : List Text} (nested : IsNested tree package chain)
    (wellFormed : tree.WellFormed)
    (missing : tree.find? (tree.place package ++ ["mutations".toList]) = none) : chain = [] := by
  cases chain with
  | nil => rfl
  | cons variant rest =>
    have names := isName_variantNames nested.named
    have there := nested.there _ (List.prefix_refl _)
    rw [initFile_variantPackage] at there
    obtain ⟨-, content, found⟩ := FileTree.exists_content_of_isFile there
    rw [tree.place_foldl_join package (List.forall_mem_append.mpr ⟨names, by decide⟩)] at found
    have split : tree.place package ++ (variantNames (variant :: rest) ++ ["__init__.py".toList]) =
        tree.place package ++ ["mutations".toList] ++
          (variant :: (variantNames rest ++ ["__init__.py".toList])) := by
      simp [variantNames]
    rw [split] at found
    have directory := wellFormed.find?_directory (by simp) found
    rw [missing] at directory
    cases directory

structure Due (tree : FileTree) (sources package : Path) (fileName : Text) (chain : List Text)
    (options : Options) : Prop where
  root : options.sourceRoot = some sources
  called : ∀ found, name tree (variantPackage package chain) = .ok found →
    Package.fileName found options = fileName
  named : ∀ name ∈ chain, IsName name
  reached : tree.isFile (initFile (variantPackage package chain)) = true →
    IsNested tree package chain

theorem Due.sourceRoot_eq {sources package : Path} {fileName : Text} {chain : List Text}
    {options : Options} (due : Due tree sources package fileName chain options) (path : Path) :
    sourceRoot path options = sources := by
  rw [sourceRoot, due.root, Option.getD_some]

theorem IsNested.due {sources package : Path} {fileName variant : Text} {chain : List Text}
    (nested : IsNested tree package chain) (wellFormed : tree.WellFormed)
    (mem : variant ∈ variants tree (variantPackage package chain)) :
    Due tree sources package fileName (chain ++ [variant])
      ⟨.rawDocstring, some sources, some fileName⟩ where
  root := rfl
  called _ _ := rfl
  named := List.forall_mem_append.mpr
    ⟨nested.named, by simpa using (nodup_variants wellFormed _).2 variant mem⟩
  reached := nested.concat ((nodup_variants wellFormed _).2 variant mem)
    (isIgnored_of_mem_variants mem)

def Targets (tree : FileTree) (package goal : Path) (fileName : Text) (place : Location) : Prop :=
  tree.find? place ≠ some .directory ∧
    ∃ chain, IsNested tree package chain ∧ place = tree.place (variantFile goal fileName chain)

theorem IsNested.targets_or_directory {package : Path} {chain : List Text}
    (nested : IsNested tree package chain) (goal : Path) (fileName : Text) :
    Targets tree package goal fileName (tree.place (variantFile goal fileName chain)) ∨
      tree.find? (tree.place (variantFile goal fileName chain)) = some .directory := by
  by_cases taken : tree.find? (tree.place (variantFile goal fileName chain)) = some .directory
  · exact .inr taken
  · exact .inl ⟨taken, chain, nested, rfl⟩

structure Site (tree : FileTree) (sources package goal : Path) (fileName : Text)
    (places : Location → Prop) : Prop extends Elsewhere tree sources places where
  inside : tree.Descends (tree.place sources) package
  directory : tree.isDirectory goal = true
  absolute : goal.isAbsolute = true
  fileNamed : IsName fileName
  covered : ∀ place, Targets tree package goal fileName place → places place

theorem Due.descends {sources package goal : Path} {fileName : Text} {places : Location → Prop}
    {chain : List Text} {options : Options}
    (site : Site tree sources package goal fileName places)
    (due : Due tree sources package fileName chain options) :
    tree.Descends (tree.place sources) (variantPackage package chain) :=
  variantPackage_eq package chain ▸ site.inside.foldl_join (isName_variantNames due.named)

end Package

end CallSchema
