import CallSchema.Proofs.FileTree.Paving

set_option autoImplicit false

namespace CallSchema.FileTree

open CallSchema.Path (IsName)

variable {tree other third : FileTree} {path base : Path} {location place : Location} {name : Text}
  {names : List Text} {places more : Location → Prop}

structure Extends (places : Location → Prop) (tree other : FileTree) : Prop where
  grows : Grows tree other
  same : ∀ location, (∀ place, places place → ¬location <+: place) →
    other.find? location = tree.find? location
  content : ∀ location, ¬places location → other.content? location = tree.content? location

namespace Extends

theorem refl (places : Location → Prop) (tree : FileTree) : Extends places tree tree :=
  ⟨Grows.refl tree, fun _ _ => rfl, fun _ _ => rfl⟩

theorem trans (early : Extends places tree other) (late : Extends places other third) :
    Extends places tree third where
  grows := early.grows.trans late.grows
  same location free := (late.same location free).trans (early.same location free)
  content location free := (late.content location free).trans (early.content location free)

theorem mono (grown : Extends places tree other)
    (subset : ∀ place, places place → more place) : Extends more tree other where
  grows := grown.grows
  same location free := grown.same location fun place mem => free place (subset place mem)
  content location free := grown.content location fun mem => free (subset location mem)

theorem put_file {directory : Location} (above : tree.find? directory = some .directory)
    (named : IsName name) (free : tree.find? (directory ++ [name]) ≠ some .directory)
    (mem : places (directory ++ [name])) (content : Content) :
    Extends places tree (tree.put (directory ++ [name]) (.file content)) where
  grows := grows_put above named ⟨free, fun _ => ⟨content, rfl⟩⟩
  same location outside := by
    have apart : location ≠ directory ++ [name] := fun same =>
      outside _ mem (same ▸ List.prefix_refl _)
    rw [find?_put _ (by simp), if_neg apart]
  content location outside := by
    have apart : location ≠ directory ++ [name] := fun same => outside (same ▸ mem)
    rw [content?_put, if_neg apart]

theorem put (target : tree.target path = .ok place) (mem : places place) (content : Content) :
    Extends places tree (tree.put place (.file content)) := by
  obtain ⟨directory, name, rfl, known⟩ := of_target target
  exact put_file known.above known.named known.free mem content

-- A file that is there may be written to.
theorem refill (wellFormed : tree.WellFormed) (file : (tree.content? place).isSome = true)
    (mem : places place) (content : Content) :
    Extends places tree (tree.put place (.file content)) := by
  obtain ⟨old, found⟩ := isSome_content?_iff.mp file
  rcases List.eq_nil_or_concat' place with rfl | ⟨directory, name, rfl⟩
  · cases found
  · refine put_file ?_ (wellFormed.names_of_find? found name (by simp)) (by simp [found]) mem content
    have above := wellFormed.parent_of_find? found
    rwa [List.dropLast_concat] at above

theorem put_directory {directory : Location} (above : tree.find? directory = some .directory)
    (named : IsName name) (new : tree.find? (directory ++ [name]) = none)
    (covered : ∃ place, places place ∧ directory ++ [name] <+: place) :
    Extends places tree (tree.put (directory ++ [name]) .directory) where
  grows := (writes_put_directory above named new).toGrows
  same location outside := by
    obtain ⟨place, mem, onWay⟩ := covered
    have apart : location ≠ directory ++ [name] := fun same => outside place mem (same ▸ onWay)
    rw [find?_put _ (by simp), if_neg apart]
  content location _ := (writes_put_directory above named new).content?_eq location

end Extends

def Descends (tree : FileTree) (place : Location) (path : Path) : Prop :=
  ∃ lead rest, path.names = lead ++ rest ∧ walk (tree.origin path) lead = place ∧
    (∀ before, before <+: lead → tree.find? (walk (tree.origin path) before) = some .directory) ∧
    ∀ name ∈ rest, IsName name

namespace Descends

theorem of_isDirectory (there : tree.isDirectory path = true) :
    tree.Descends (tree.place path) path :=
  ⟨path.names, [], by simp, rfl, fun _ shorter => directories_of_isDirectory there shorter, by simp⟩

theorem absolute (descends : tree.Descends place path) (wellFormed : tree.WellFormed) :
    tree.Descends place (Path.absolute tree.currentPath path) := by
  obtain ⟨lead, rest, whole, ends, directories, named⟩ := descends
  have start := find?_origin wellFormed path
  refine ⟨tree.origin path ++ lead, rest, ?_, ?_, ?_, named⟩
  · rw [names_absolute wellFormed, whole, List.append_assoc]
  · rw [origin_absolute, walk_append, walk_origin wellFormed, ends]
  · intro before shorter
    rw [origin_absolute]
    rcases prefix_append_cases shorter with within | ⟨further, inner, rfl⟩
    · rw [walk_of_isName fun name mem => wellFormed.names_of_find? start name (within.subset mem)]
      exact wellFormed.find?_of_prefix start within
    · rw [walk_append, walk_origin wellFormed]
      exact directories further inner

variable (descends : tree.Descends place path)

include descends

theorem append {second : Path} (absolute : second.isAbsolute = path.isAbsolute)
    (named : ∀ name ∈ names, IsName name) (whole : second.names = path.names ++ names) :
    tree.Descends place second := by
  obtain ⟨lead, rest, split, ends, directories, restNamed⟩ := descends
  have start : tree.origin second = tree.origin path := by simp only [origin, absolute]
  refine ⟨lead, rest ++ names, by rw [whole, split, List.append_assoc], start ▸ ends,
    start ▸ directories, ?_⟩
  exact List.forall_mem_append.mpr ⟨restNamed, named⟩

theorem join (named : IsName name) : tree.Descends place (path.join name) :=
  descends.append (Path.isAbsolute_join_name named) (by simpa using named)
    (Path.names_join path named)

theorem foldl_join (named : ∀ name ∈ names, IsName name) :
    tree.Descends place (names.foldl Path.join path) := by
  induction names generalizing path with
  | nil => exact descends
  | cons name rest ih =>
    exact ih (descends.join (named name (by simp))) fun other mem => named other (by simp [mem])

theorem prefix_place : place <+: tree.place path := by
  obtain ⟨lead, rest, whole, rfl, -, named⟩ := descends
  rw [FileTree.place, whole, walk_append, walk_of_isName named]
  exact List.prefix_append _ _

end Descends

section Extends

variable (grown : Extends places tree other)

include grown

theorem Extends.agreeOn (descends : tree.Descends place path)
    (outside : ∀ added, places added → ¬Below place added) : AgreeOn tree other path where
  current := grown.grows.current
  same before shorter := by
    obtain ⟨lead, rest, whole, rfl, directories, named⟩ := descends
    rw [whole] at shorter
    have within {before : List Text} (shorter : before <+: lead) :
        other.find? (walk (tree.origin path) before) =
          tree.find? (walk (tree.origin path) before) := by
      have directory := directories before shorter
      rw [directory, grown.grows.directories _ directory]
    rcases prefix_append_cases shorter with short | ⟨further, inner, rfl⟩
    · exact within short
    · by_cases last : further = []
      · rw [last, List.append_nil]
        exact within (List.prefix_refl _)
      · rw [walk_append, walk_of_isName fun name mem => named name (inner.subset mem)]
        exact grown.same _ fun added mem longer =>
          outside added mem ((below_append _ last).mono longer)

theorem Extends.agreeOn_of_file (wellFormed : tree.WellFormed) (absolute : path.isAbsolute = true)
    (named : ∀ name ∈ path.names, IsName name) (free : ¬places (tree.place path))
    (file : (tree.content? (tree.place path)).isSome = true) : AgreeOn tree other path where
  current := grown.grows.current
  same before shorter := by
    have start : tree.origin path = [] := if_pos absolute
    rw [place_eq_names absolute named] at free file
    rw [start, walk_of_isName fun name mem => named name (shorter.subset mem), List.nil_append]
    obtain ⟨content, found⟩ := isSome_content?_iff.mp file
    obtain ⟨rest, split⟩ := shorter
    by_cases last : rest = []
    · rw [last, List.append_nil] at split
      have kept := grown.content _ free
      rw [content?_eq_some_iff.mpr found] at kept
      rw [split, found, content?_eq_some_iff.mp kept]
    · have directory : tree.find? before = some .directory :=
        wellFormed.find?_directory last (split ▸ found)
      rw [directory, grown.grows.directories _ directory]

end Extends

end CallSchema.FileTree
