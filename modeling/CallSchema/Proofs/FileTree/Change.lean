import CallSchema.Proofs.FileTree.Growth

set_option autoImplicit false

namespace CallSchema.FileTree

open CallSchema.Path (IsName)

section Put

variable {tree : FileTree} {directory : Location} {name : Text} {entry : Entry}

def Replaceable (tree : FileTree) (location : Location) (entry : Entry) : Prop :=
  tree.find? location ≠ some .directory ∧
    ((tree.content? location).isSome = true → ∃ content, entry = .file content)

theorem find?_put_directory {location : Location} (inner : location ≠ [])
    (free : tree.Replaceable location entry) {other : Location}
    (found : tree.find? other = some .directory) :
    (tree.put location entry).find? other = some .directory := by
  have apart : other ≠ location := fun same => free.1 (same ▸ found)
  rw [find?_put tree inner, if_neg apart, found]

theorem wellFormed_put (wellFormed : tree.WellFormed)
    (above : tree.find? directory = some .directory) (named : IsName name)
    (free : tree.Replaceable (directory ++ [name]) entry) :
    (tree.put (directory ++ [name]) entry).WellFormed where
  distinct := wellFormed.distinct.put _ _
  names := by
    intro added mem
    rcases Table.mem_put mem with rfl | old
    · intro other inside
      rcases List.mem_append.mp inside with outer | last
      · exact wellFormed.names_of_find? above other outer
      · rw [List.mem_singleton.mp last]
        exact named
    · exact wellFormed.names added old
  parents := by
    intro added mem
    refine find?_put_directory (by simp) free ?_
    rcases Table.mem_put mem with rfl | old
    · rwa [List.dropLast_concat]
    · exact wellFormed.parents added old
  current := find?_put_directory (by simp) free wellFormed.current

theorem grows_put (above : tree.find? directory = some .directory) (named : IsName name)
    (free : tree.Replaceable (directory ++ [name]) entry) :
    Grows tree (tree.put (directory ++ [name]) entry) where
  wellFormed h := wellFormed_put h above named free
  current := rfl
  directories _ found := find?_put_directory (by simp) free found
  files location file := by
    obtain ⟨content, found⟩ := isSome_content?_iff.mp file
    rw [isSome_content?_iff, find?_put tree (by simp)]
    by_cases same : location = directory ++ [name]
    · obtain ⟨new, rfl⟩ := free.2 (same ▸ file)
      exact ⟨new, if_pos same⟩
    · exact ⟨content, by rw [if_neg same, found]⟩

theorem content?_put (other : Location) :
    (tree.put (directory ++ [name]) entry).content? other =
      if other = directory ++ [name] then entry.content? else tree.content? other := by
  rw [content?, find?_put tree (by simp)]
  split
  · rfl
  · rfl

end Put

section Target

variable {tree : FileTree} {path : Path}

theorem segments_eq (path : Path) :
    path.segments = path.segments.dropLast ++ [path.segments.getLastD []] := by
  have visible : path.segments ≠ [] := Text.pieces_ne_nil '/' path.text
  rw [List.getLastD_eq_getLast?, List.getLast?_eq_some_getLast visible, Option.getD_some,
    List.dropLast_append_getLast]

theorem of_locateParent {directory : Location} {name : Text}
    (h : tree.locateParent path = .ok (directory, name)) :
    path.segments.dropLast.foldlM tree.step (tree.origin path) = .ok directory ∧
      tree.find? directory = some .directory ∧
      path.segments = path.segments.dropLast ++ [name] := by
  cases reached : path.segments.dropLast.foldlM tree.step (tree.origin path) with
  | error cause =>
    simp only [locateParent, reached, bind, Except.bind] at h
    cases h
  | ok location =>
    cases found : tree.find? location with
    | none =>
      simp only [locateParent, reached, found, bind, Except.bind] at h
      cases h
    | some entry =>
      simp only [locateParent, reached, found, bind, Except.bind] at h
      cases entry with
      | file content => cases h
      | directory =>
        cases h
        exact ⟨rfl, found, segments_eq path⟩

theorem isName_of_segment {name : Text} (mem : name ∈ path.segments)
    (proper : ¬(name = [] ∨ name = ['.'] ∨ name = ['.', '.'])) : IsName name := by
  simp only [not_or] at proper
  exact ⟨proper.1, Text.not_mem_of_mem_pieces mem, proper.2.1, proper.2.2⟩

structure IsTarget (tree : FileTree) (path : Path) (directory : Location) (name : Text) :
    Prop where
  visible : path.text ≠ []
  named : IsName name
  reached : path.segments.dropLast.foldlM tree.step (tree.origin path) = .ok directory
  above : tree.find? directory = some .directory
  segments : path.segments = path.segments.dropLast ++ [name]
  free : tree.find? (directory ++ [name]) ≠ some .directory

theorem of_target {location : Location} (h : tree.target path = .ok location) :
    ∃ directory name, location = directory ++ [name] ∧ tree.IsTarget path directory name := by
  by_cases visible : path.text = []
  · simp only [target, visible, if_true, bind, Except.bind] at h
    cases h
  cases parent : tree.locateParent (withoutClosingSlashes path) with
  | error cause =>
    simp only [target, visible, if_false, parent, bind, Except.bind] at h
    cases h
  | ok found =>
    obtain ⟨directory, name⟩ := found
    simp only [target, visible, if_false, parent, bind, Except.bind] at h
    split at h
    · cases h
    split at h
    · cases h
    · next proper free =>
      cases h
      obtain ⟨spelled, proper⟩ := not_or.mp proper
      rw [not_ne_iff.mp spelled] at parent
      obtain ⟨reached, above, segments⟩ := of_locateParent parent
      have mem : name ∈ path.segments := by
        rw [segments]
        simp
      exact ⟨directory, name, rfl, visible, isName_of_segment mem proper, reached, above, segments,
        free⟩

theorem IsTarget.locate_put {directory : Location} {name : Text}
    (target : tree.IsTarget path directory name) (content : Content) :
    (tree.put (directory ++ [name]) (.file content)).locate path = .ok (directory ++ [name]) := by
  have free : tree.Replaceable (directory ++ [name]) (.file content) :=
    ⟨target.free, fun _ => ⟨content, rfl⟩⟩
  have grows := grows_put target.above target.named free
  have there : (tree.put (directory ++ [name]) (.file content)).find? (directory ++ [name]) =
      some (.file content) := by
    rw [find?_put tree (by simp), if_pos rfl]
  have last : (tree.put (directory ++ [name]) (.file content)).step directory name =
      .ok (directory ++ [name]) := by
    rw [step_eq target.named (grows.directories _ target.above), there]
    rfl
  rw [locate, if_neg target.visible, target.segments, List.foldlM_append, grows.origin,
    grows.foldlM_step target.reached]
  have first : (Except.ok directory >>= fun location =>
      [name].foldlM (tree.put (directory ++ [name]) (.file content)).step location) =
      .ok (directory ++ [name]) := by
    simp only [bind, Except.bind, List.foldlM_cons, List.foldlM_nil, last]
    rfl
  exact first

end Target

theorem writes_put {tree : FileTree} {path : Path} {location : Location}
    (h : tree.target path = .ok location) (content : Content) :
    Writes [path] tree (tree.put location (.file content)) := by
  obtain ⟨directory, name, rfl, target⟩ := of_target h
  have free : tree.Replaceable (directory ++ [name]) (.file content) :=
    ⟨target.free, fun _ => ⟨content, rfl⟩⟩
  have reached := target.locate_put content
  refine ⟨grows_put target.above target.named free, ?_, ?_⟩
  · intro location differ
    rw [content?_put] at differ
    by_cases same : location = directory ++ [name]
    · exact ⟨path, by simp, by rw [same, reached]⟩
    · exact absurd (if_neg same) differ
  · intro other mem
    rw [List.mem_singleton.mp mem, isFile_iff]
    exact ⟨directory ++ [name], reached, by rw [content?_put, if_pos rfl]; rfl⟩

theorem writes_write {path : Path} {content : Content} {before after : FileTree}
    (h : write path content before = (.ok (), after)) : Writes [path] before after := by
  unfold write at h
  split at h
  · next location found =>
    cases h
    exact writes_put found content
  · cases h

theorem eq_of_write_error {path : Path} {content : Content} {before after : FileTree}
    {cause : Cause} (h : write path content before = (.error cause, after)) : after = before := by
  unfold write at h
  split at h
  · cases h
  · cases h
    rfl

section Copy

variable {source path : Path} {before after : FileTree}

theorem read_of_isFile {tree : FileTree} (h : tree.isFile source = true) :
    ∃ content, tree.read source = .ok content := by
  obtain ⟨location, found, file⟩ := isFile_iff.mp h
  obtain ⟨content, known⟩ := isSome_content?_iff.mp file
  exact ⟨content, by simp only [read, found, known, bind, Except.bind]⟩

theorem writes_copy (h : copy source path before = (.ok (), after)) :
    Writes [path] before after := by
  unfold copy at h
  split at h
  · cases h
  · next location found =>
    dsimp only at h
    split at h
    · next content known =>
      cases h
      have emptied : (before.put location (.file (.text []))).put location (.file content) =
          before.put location (.file content) := by
        simp only [put, Table.put_put]
      rw [emptied]
      exact writes_put found content
    · cases h

theorem eq_of_copy_error (there : before.isFile source = true) {cause : Cause}
    (h : copy source path before = (.error cause, after)) : after = before := by
  unfold copy at h
  split at h
  · cases h
    rfl
  · next location found =>
    obtain ⟨content, known⟩ := read_of_isFile ((writes_put found (.text [])).isFile there)
    simp only [known] at h
    cases h

end Copy

section Directories

theorem writes_put_directory {tree : FileTree} {directory : Location} {name : Text}
    (above : tree.find? directory = some .directory) (named : IsName name)
    (new : tree.find? (directory ++ [name]) = none) :
    Writes [] tree (tree.put (directory ++ [name]) .directory) := by
  have empty : tree.content? (directory ++ [name]) = none := by simp [content?, new]
  have free : tree.Replaceable (directory ++ [name]) .directory := by
    simp [Replaceable, new, empty]
  refine ⟨grows_put above named free, ?_, by simp⟩
  intro location differ
  rw [content?_put] at differ
  by_cases same : location = directory ++ [name]
  · rw [if_pos same, same, empty] at differ
    exact absurd rfl differ
  · exact absurd (if_neg same) differ

theorem writes_makeDirectory (path : Path) (tree : FileTree) :
    Writes [] tree (makeDirectory path tree).2 := by
  unfold makeDirectory
  dsimp only
  split
  · exact Writes.refl tree
  split
  · exact Writes.refl tree
  · next directory name parent =>
    split
    · exact Writes.refl tree
    split
    · exact Writes.refl tree
    · next proper new =>
      obtain ⟨-, above, segments⟩ := of_locateParent parent
      have named : IsName name := isName_of_segment (by rw [segments]; simp) proper
      exact writes_put_directory above named (by simpa using new)

theorem writes_unlessDirectory (path : Path) (cause : Cause) (tree : FileTree) :
    Writes [] tree (unlessDirectory path cause tree).2 := by
  unfold unlessDirectory
  split
  · exact Writes.refl tree
  · exact Writes.refl tree

theorem writes_makeDirectoriesWithin (levels : Nat) (path : Path) (tree : FileTree) :
    Writes [] tree (makeDirectoriesWithin levels path tree).2 := by
  induction levels generalizing path tree with
  | zero => exact Writes.refl tree
  | succ levels ih =>
    unfold makeDirectoriesWithin
    split
    · exact Writes.refl tree
    have first := writes_makeDirectory path tree
    split
    · next after made =>
      rwa [made] at first
    · next after made =>
      rw [made] at first
      split
      · exact first
      · next parent above =>
        have second := ih parent after
        split
        · next cause later outer =>
          rw [outer] at second
          exact first.trans second
        · next later outer =>
          rw [outer] at second
          have third := writes_makeDirectory path later
          split
          · next last again =>
            rw [again] at third
            exact (first.trans second).trans third
          · next cause last again =>
            rw [again] at third
            exact ((first.trans second).trans third).trans (writes_unlessDirectory path cause last)
    · next cause after _ made =>
      rw [made] at first
      exact first.trans (writes_unlessDirectory path cause after)

theorem writes_makeDirectories (path : Path) (tree : FileTree) :
    Writes [] tree (makeDirectories path tree).2 :=
  writes_makeDirectoriesWithin _ path tree

end Directories

end CallSchema.FileTree
