import CallSchema.Proofs.Callable.Session
import CallSchema.Proofs.FileTree.Extension
import CallSchema.Proofs.Package.Alike
import CallSchema.Proofs.Package.Places

set_option autoImplicit false

namespace CallSchema.Package

open DottedLocation (candidates sourceFile?)
open FileTree (AgreeOn Below Descends Extends)
open CallSchema.Path (IsName)

variable {tree other : FileTree} {sources package path : Path} {places : Location → Prop}
  {asked : Text}

def EndsAsArtifact (place : Location) : Prop := ∃ name ∈ place.getLast?, name.getLast? = some 'n'

structure Elsewhere (tree : FileTree) (sources : Path) (places : Location → Prop) : Prop where
  wellFormed : tree.WellFormed
  there : tree.isDirectory sources = true
  outside : ∀ place, places place → ¬Below (tree.place sources) place
  ends : ∀ place, places place → EndsAsArtifact place

section Reading

variable (elsewhere : Elsewhere tree sources places) (grown : Extends places tree other)

include elsewhere grown

theorem agreeOn_of_descends (descends : tree.Descends (tree.place sources) path) :
    AgreeOn tree other path :=
  grown.agreeOn descends elsewhere.outside

theorem agreeOn_of_mem_candidates (mem : path ∈ candidates sources asked)
    (there : tree.isFile path = true ∨ other.isFile path = true) : AgreeOn tree other path := by
  obtain ⟨leads, ends⟩ := DottedLocation.of_mem_candidates mem
  rcases leads with ⟨absolute, rest, -, named, whole⟩ | ⟨⟨absolute, named⟩, -⟩
  · exact agreeOn_of_descends elsewhere grown
      ((Descends.of_isDirectory elsewhere.there).append absolute named whole)
  · have free : ¬places (tree.place path) := by
      intro added
      obtain ⟨last, mem, artifact⟩ := elsewhere.ends _ added
      rw [FileTree.place_eq_names absolute named] at mem
      simp [ends last mem] at artifact
    refine grown.agreeOn_of_file elsewhere.wellFormed absolute named free ?_
    rcases there with here | there
    · obtain ⟨location, located, file⟩ := FileTree.isFile_iff.mp here
      rwa [← FileTree.eq_place_of_locate located]
    · obtain ⟨location, located, file⟩ := FileTree.isFile_iff.mp there
      rwa [FileTree.eq_place_of_locate located, FileTree.place_congr grown.grows.current,
        grown.content _ free] at file

theorem isFile_eq_of_mem_candidates (mem : path ∈ candidates sources asked) :
    other.isFile path = tree.isFile path := by
  cases here : tree.isFile path with
  | true => rw [(agreeOn_of_mem_candidates elsewhere grown mem (.inl here)).isFile, here]
  | false =>
    cases there : other.isFile path with
    | true =>
      rw [← here, ← (agreeOn_of_mem_candidates elsewhere grown mem (.inr there)).isFile, there]
    | false => rfl

variable (descends : tree.Descends (tree.place sources) package)

include descends

theorem agreeOn_initFile : AgreeOn tree other (initFile package) :=
  agreeOn_of_descends elsewhere grown (descends.join (by decide))

theorem agreeOn_variantsDirectory : AgreeOn tree other (variantsDirectory package) :=
  agreeOn_of_descends elsewhere grown (descends.join (by decide))

theorem list_variantsDirectory_eq :
    other.list (variantsDirectory package) = tree.list (variantsDirectory package) := by
  have inside : tree.Descends (tree.place sources) (variantsDirectory package) :=
    descends.join (by decide)
  refine (agreeOn_variantsDirectory elsewhere grown descends).list elsewhere.wellFormed
    (grown.grows.wellFormed elsewhere.wellFormed) fun name => ?_
  refine grown.same _ fun added mem longer => elsewhere.outside added mem ?_
  refine Below.mono ⟨?_, ?_⟩ longer
  · exact inside.prefix_place.trans (List.prefix_append _ _)
  · intro same
    have short := inside.prefix_place.length_le
    have lengths := congrArg List.length same
    simp only [List.length_append, List.length_singleton] at lengths
    omega

theorem isDirectory_variant_eq {name : Text} (named : IsName name) :
    other.isDirectory ((variantsDirectory package).join name) =
      tree.isDirectory ((variantsDirectory package).join name) :=
  (agreeOn_of_descends elsewhere grown ((descends.join (by decide)).join named)).isDirectory

end Reading

end CallSchema.Package
