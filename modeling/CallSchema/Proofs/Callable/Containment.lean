import CallSchema.Proofs.Callable.Location
import CallSchema.Proofs.FileTree.Change
import CallSchema.Proofs.FileTree.Directories

set_option autoImplicit false

namespace CallSchema

open CallSchema.Path (IsName)

namespace FileTree

variable {tree : FileTree} {names : List Text} {name : Text} {base : Path}

def LeadsOnly (tree : FileTree) (names : List Text) : Prop :=
  ∀ location, tree.find? location = if location <+: names then some .directory else none

theorem LeadsOnly.above (only : tree.LeadsOnly names) : tree.find? names = some .directory := by
  rw [only, if_pos (List.prefix_refl names)]

theorem LeadsOnly.wellFormed_put (only : tree.LeadsOnly names) (wellFormed : tree.WellFormed)
    (named : IsName name) (entry : Entry) : (tree.put (names ++ [name]) entry).WellFormed := by
  have free : tree.find? (names ++ [name]) = none := by
    rw [only, if_neg]
    intro shorter
    have longer := shorter.length_le
    rw [List.length_append, List.length_singleton] at longer
    omega
  exact FileTree.wellFormed_put wellFormed only.above named ⟨by simp [free], by simp [content?, free]⟩

theorem exists_leadsOnly (named : ∀ name ∈ names, IsName name) :
    ∃ tree : FileTree, tree.WellFormed ∧ tree.LeadsOnly names := by
  induction names using List.reverseRecOn with
  | nil =>
    refine ⟨⟨[], []⟩, by decide, fun location => ?_⟩
    simp [find?, Table.get?]
  | append_singleton names name ih =>
    obtain ⟨tree, wellFormed, only⟩ := ih fun other mem => named other (by simp [mem])
    refine ⟨_, only.wellFormed_put wellFormed (named name (by simp)) .directory, fun location => ?_⟩
    rw [find?_put tree (by simp), only]
    by_cases last : location = names ++ [name]
    · simp [last]
    · simp [last, List.prefix_concat_iff]

theorem exists_file (named : ∀ name ∈ names, IsName name) (last : IsName name) :
    ∃ tree : FileTree, tree.WellFormed ∧ (tree.content? (names ++ [name])).isSome = true := by
  obtain ⟨tree, wellFormed, only⟩ := exists_leadsOnly named
  refine ⟨_, only.wellFormed_put wellFormed last (.file (.text [])), ?_⟩
  rw [isSome_content?_iff, find?_put tree (by simp), if_pos rfl]
  exact ⟨_, rfl⟩

theorem isFile_join_of_content? (wellFormed : tree.WellFormed) (absolute : base.isAbsolute = true)
    (named : ∀ name ∈ base.names, IsName name) (last : IsName name)
    (file : (tree.content? (base.names ++ [name])).isSome = true) :
    tree.isFile (base.join name) = true := by
  obtain ⟨content, found⟩ := isSome_content?_iff.mp file
  have visible := Path.text_ne_nil_of_isAbsolute absolute
  have directory := wellFormed.find?_directory (List.cons_ne_nil name []) found
  have origin : tree.origin base = [] := if_pos absolute
  have located : tree.locate base = .ok base.names := by
    rw [locate_directory_iff visible directory, origin]
    exact wellFormed.foldlM_step named (List.nil_append base.names ▸ directory)
  have moved : tree.step base.names name = .ok (base.names ++ [name]) := by
    simpa using wellFormed.foldlM_step (List.forall_mem_singleton.mpr last) found
  refine isFile_iff.mpr ⟨base.names ++ [name], ?_, file⟩
  rw [locate_join visible last, located]
  exact moved

end FileTree

namespace DottedLocation

variable {root file : Path} {location : Text} {parts : List Text}

theorem isAbsolute_modulePath {part : Text} (mem : part ∈ parts) (slash : part.head? = some '/') :
    (modulePath root parts).isAbsolute = true := by
  obtain ⟨before, after, rfl⟩ := List.append_of_mem mem
  have anew (base : Path) : (base.join part).isAbsolute = true := by
    rw [Path.join, if_pos slash]
    simp [Path.isAbsolute, slash]
  rw [modulePath, List.foldl_append, List.foldl_cons]
  exact Path.isAbsolute_foldl_join (anew _) after

theorem isAbsolute_of_mem_moduleFiles (mem : file ∈ moduleFiles root parts) :
    file.isAbsolute = (modulePath root parts).isAbsolute := by
  have plain : '/' ∉ "py".toList := by decide
  have visible : "py".toList ≠ [] := by decide
  rcases List.mem_pair.mp mem with rfl | rfl
  · cases found : (modulePath root parts).fileName? with
    | some name =>
      obtain ⟨absolute, -⟩ := Path.withExtension_of_fileName? plain visible found
      exact absolute
    | none => rw [Path.withExtension_of_fileName?_none found]
  · exact Path.isAbsolute_join_name (by decide)

theorem candidates_eq (root : Path) (visible : names location ≠ []) :
    ∃ rest, candidates root location = moduleFiles root (names location) ++ rest := by
  obtain ⟨last, size⟩ := Nat.exists_eq_succ_of_ne_zero (mt List.length_eq_zero_iff.mp visible)
  have first : beginnings (names location) =
      names location :: (List.range last).reverse.map fun n => (names location).take (n + 1) := by
    rw [beginnings, size, List.range_succ, List.reverse_concat, List.map_cons,
      List.take_of_length_le (Nat.le_of_eq size)]
  exact ⟨_, by rw [candidates, first, List.flatMap_cons]⟩

theorem exists_outside (relative : root.isAbsolute = false) {part : Text}
    (mem : part ∈ names location) (slash : part.head? = some '/') :
    ∃ (tree : FileTree) (file : Path), tree.WellFormed ∧
      sourceFile? tree.isFile root location = some file ∧ file.isAbsolute = true := by
  have visible := List.ne_nil_of_mem mem
  have absolute : (modulePath root (names location)).isAbsolute = true :=
    isAbsolute_modulePath mem slash
  have straight : Straight (modulePath root (names location)) := by
    have leads : Leads root (names location) (modulePath root (names location)) :=
      leads_modulePath visible (dotless_names location)
    rcases leads with ⟨start, -⟩ | ⟨straight, -⟩
    · rw [absolute, relative] at start
      cases start
    · exact straight
  have init : IsName "__init__.py".toList := by decide
  obtain ⟨tree, wellFormed, content⟩ := FileTree.exists_file straight.2 init
  have there := FileTree.isFile_join_of_content? wellFormed absolute straight.2 init content
  have own : (modulePath root (names location)).join "__init__.py" ∈
      moduleFiles root (names location) := by simp [moduleFiles]
  obtain ⟨file, known⟩ := Option.isSome_iff_exists.mp (List.find?_isSome.mpr ⟨_, own, there⟩)
  obtain ⟨rest, first⟩ := candidates_eq root visible
  refine ⟨tree, file, wellFormed, ?_, ?_⟩
  · rw [sourceFile?, first, List.find?_append, known, Option.some_or]
  · rw [isAbsolute_of_mem_moduleFiles (List.mem_of_find?_eq_some known), absolute]

theorem stays_inside_iff (location : Text) :
    (∀ (tree : FileTree) (root file : Path), tree.WellFormed →
      sourceFile? tree.isFile root location = some file → Inside root file) ↔
      Relative location := by
  constructor
  · intro inside part mem slash
    have relative : (⟨"root"⟩ : Path).isAbsolute = false := rfl
    obtain ⟨tree, file, wellFormed, found, absolute⟩ := exists_outside relative mem slash
    have start := (inside tree ⟨"root"⟩ file wellFormed found).1
    rw [absolute, relative] at start
    cases start
  · intro relative tree root file _ found
    exact inside_of_relative relative (List.mem_of_find?_eq_some found)

def twoRoots : FileTree where
  entries := [(["srv".toList], .directory), (["tmp".toList], .directory),
    (["tmp".toList, "m.py".toList], .file (.text []))]
  current := []

-- A location leads to the file of another directory.
theorem not_stays_inside : ¬∀ (tree : FileTree) (root file : Path) (location : Text),
    tree.WellFormed → sourceFile? tree.isFile root location = some file → Inside root file := by
  intro inside
  obtain ⟨-, rest, -, -, whole⟩ := inside twoRoots ⟨"/srv"⟩ ⟨"/tmp/m.py"⟩ "/tmp/m.f" (by decide)
    (by decide)
  exact absurd (List.cons.inj whole).1 (by decide)

end DottedLocation

end CallSchema
