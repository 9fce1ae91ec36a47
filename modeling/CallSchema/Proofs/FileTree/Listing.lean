import CallSchema.Proofs.FileTree.Growth
import CallSchema.Proofs.Text.Order

set_option autoImplicit false

namespace CallSchema.FileTree

open CallSchema.Path (IsName)

variable {tree : FileTree} {path : Path} {location : Location} {names : List Text}

def namesIn (tree : FileTree) (location : Location) : List Text :=
  tree.entries.filterMap fun entry =>
    if entry.1.dropLast = location then entry.1.getLast? else none

theorem of_list (listed : tree.list path = .ok names) :
    ∃ location, tree.locate path = .ok location ∧
      names = (tree.namesIn location).mergeSort Text.inOrder := by
  cases located : tree.locate path with
  | error cause =>
    simp only [list, located, bind, Except.bind] at listed
    cases listed
  | ok location =>
    simp only [list, located, bind, Except.bind] at listed
    split at listed
    · cases listed
      exact ⟨location, rfl, rfl⟩
    · cases listed
    · cases listed

theorem list_of_sorted (located : tree.locate path = .ok location)
    (directory : tree.find? location = some .directory) (found : tree.namesIn location = names)
    (sorted : names.Pairwise fun a b => Text.inOrder a b = true) : tree.list path = .ok names := by
  have listed : tree.list path = .ok ((tree.namesIn location).mergeSort Text.inOrder) := by
    simp only [list, located, directory, bind, Except.bind]
    rfl
  rw [listed, found, List.mergeSort_of_pairwise sorted]

theorem mem_namesIn {name : Text} :
    name ∈ tree.namesIn location ↔ ∃ entry ∈ tree.entries, entry.1 = location ++ [name] := by
  unfold namesIn
  rw [List.mem_filterMap]
  refine exists_congr fun entry => and_congr_right fun _ => ?_
  constructor
  · intro found
    split at found
    · next inside =>
      obtain ⟨above, whole⟩ := List.getLast?_eq_some_iff.mp found
      rw [whole, List.dropLast_concat] at inside
      rw [whole, inside]
    · cases found
  · intro whole
    simp [whole]

theorem mem_namesIn_iff_isSome {name : Text} :
    name ∈ tree.namesIn location ↔ (tree.find? (location ++ [name])).isSome = true := by
  rw [mem_namesIn, find?, if_neg (by simp), Table.get?, Option.isSome_map, List.find?_isSome]
  simp

theorem WellFormed.nodup_namesIn (wellFormed : tree.WellFormed) (location : Location) :
    (tree.namesIn location).Nodup := by
  refine List.pairwise_filterMap.mpr ((List.pairwise_map.mp wellFormed.distinct).imp ?_)
  intro first second differ name found other otherFound same
  split at found
  · next inside =>
    split at otherFound
    · next otherInside =>
      obtain ⟨above, whole⟩ := List.getLast?_eq_some_iff.mp found
      obtain ⟨otherAbove, otherWhole⟩ := List.getLast?_eq_some_iff.mp otherFound
      rw [whole, List.dropLast_concat] at inside
      rw [otherWhole, List.dropLast_concat] at otherInside
      exact differ (by rw [whole, otherWhole, inside, otherInside, same])
    · cases otherFound
  · cases found

theorem WellFormed.ascending_list (wellFormed : tree.WellFormed)
    (listed : tree.list path = .ok names) : names.Pairwise fun first second => first < second := by
  obtain ⟨location, -, rfl⟩ := of_list listed
  exact Text.pairwise_mergeSort (wellFormed.nodup_namesIn location)

theorem WellFormed.nodup_list (wellFormed : tree.WellFormed)
    (listed : tree.list path = .ok names) : names.Nodup ∧ ∀ name ∈ names, IsName name := by
  obtain ⟨location, -, rfl⟩ := of_list listed
  constructor
  · exact (List.mergeSort_perm _ _).nodup_iff.mpr (wellFormed.nodup_namesIn location)
  · intro name mem
    obtain ⟨entry, known, whole⟩ := mem_namesIn.mp (List.mem_mergeSort.mp mem)
    exact wellFormed.names entry known name (by simp [whole])

end CallSchema.FileTree
