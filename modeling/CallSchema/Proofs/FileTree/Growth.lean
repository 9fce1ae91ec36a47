import CallSchema.FileTree.Change
import CallSchema.Proofs.FileTree.Path
import CallSchema.Proofs.Table

set_option autoImplicit false

namespace CallSchema

open CallSchema.Path (IsName)

namespace FileTree

-- What a file system can hold: every entry lies in a directory, under a name of its own.
structure WellFormed (tree : FileTree) : Prop where
  distinct : Table.Distinct tree.entries
  names : ∀ entry ∈ tree.entries, ∀ name ∈ entry.1, IsName name
  parents : ∀ entry ∈ tree.entries, tree.find? entry.1.dropLast = some .directory
  current : tree.find? tree.current = some .directory

instance (tree : FileTree) : Decidable tree.WellFormed :=
  decidable_of_iff (Table.Distinct tree.entries ∧
      (∀ entry ∈ tree.entries, ∀ name ∈ entry.1, IsName name) ∧
      (∀ entry ∈ tree.entries, tree.find? entry.1.dropLast = some .directory) ∧
      tree.find? tree.current = some .directory)
    ⟨fun h => ⟨h.1, h.2.1, h.2.2.1, h.2.2.2⟩, fun h => ⟨h.distinct, h.names, h.parents, h.current⟩⟩

end FileTree

def Entry.content? : Entry → Option Content
  | .directory => none
  | .file content => some content

namespace FileTree

def content? (tree : FileTree) (location : Location) : Option Content :=
  (tree.find? location).bind Entry.content?

theorem isSome_content?_iff {tree : FileTree} {location : Location} :
    (tree.content? location).isSome = true ↔
      ∃ content, tree.find? location = some (.file content) := by
  cases found : tree.find? location with
  | none => simp [content?, found]
  | some entry => cases entry <;> simp [content?, found, Entry.content?]

theorem content?_eq_some_iff {tree : FileTree} {location : Location} {content : Content} :
    tree.content? location = some content ↔ tree.find? location = some (.file content) := by
  cases found : tree.find? location with
  | none => simp [content?, found]
  | some entry => cases entry <;> simp [content?, found, Entry.content?]

theorem content?_eq_none_iff {tree : FileTree} {location : Location} :
    tree.content? location = none ↔
      tree.find? location = none ∨ tree.find? location = some .directory := by
  cases found : tree.find? location with
  | none => simp [content?, found]
  | some entry => cases entry <;> simp [content?, found, Entry.content?]

theorem WellFormed.names_of_find? {tree : FileTree} (wellFormed : tree.WellFormed)
    {location : Location} {entry : Entry} (found : tree.find? location = some entry) :
    ∀ name ∈ location, IsName name := by
  unfold find? at found
  split at found
  · next top =>
    subst top
    simp
  · exact wellFormed.names _ (Table.mem_of_get? found)

theorem WellFormed.parent_of_find? {tree : FileTree} (wellFormed : tree.WellFormed)
    {location : Location} {entry : Entry} (found : tree.find? location = some entry) :
    tree.find? location.dropLast = some .directory := by
  unfold find? at found
  split at found
  · next top =>
    subst top
    rfl
  · exact wellFormed.parents _ (Table.mem_of_get? found)

theorem find?_put (tree : FileTree) {location : Location} (inner : location ≠ []) (entry : Entry)
    (other : Location) : (tree.put location entry).find? other =
      if other = location then some entry else tree.find? other := by
  by_cases top : other = []
  · have apart : other ≠ location := by
      rw [top]
      exact inner.symm
    rw [find?, if_pos top, if_neg apart, find?, if_pos top]
  · rw [find?, if_neg top, put, Table.get?_put, find?, if_neg top]

theorem step_eq {tree : FileTree} {location : Location} {name : Text} (named : IsName name)
    (above : tree.find? location = some .directory) :
    tree.step location name =
      if (tree.find? (location ++ [name])).isSome then .ok (location ++ [name])
      else .error .notFound := by
  have moves : ¬(name = [] ∨ name = ['.']) := by simp [named.visible, named.here]
  simp only [step, above, if_neg moves, if_neg named.above]

structure Grows (before after : FileTree) : Prop where
  wellFormed : before.WellFormed → after.WellFormed
  current : after.current = before.current
  directories : ∀ location, before.find? location = some .directory →
    after.find? location = some .directory
  files : ∀ location, (before.content? location).isSome = true →
    (after.content? location).isSome = true

namespace Grows

variable {first second third : FileTree}

theorem refl (tree : FileTree) : Grows tree tree :=
  ⟨id, rfl, fun _ => id, fun _ => id⟩

theorem trans (early : Grows first second) (late : Grows second third) : Grows first third where
  wellFormed h := late.wellFormed (early.wellFormed h)
  current := late.current.trans early.current
  directories location h := late.directories location (early.directories location h)
  files location h := late.files location (early.files location h)

theorem isSome_find? (grows : Grows first second) {location : Location}
    (found : (first.find? location).isSome = true) :
    (second.find? location).isSome = true := by
  obtain ⟨entry, known⟩ := Option.isSome_iff_exists.mp found
  cases entry with
  | directory => simp [grows.directories location known]
  | file content =>
    have file : (first.content? location).isSome = true := isSome_content?_iff.mpr ⟨content, known⟩
    obtain ⟨later, known⟩ := isSome_content?_iff.mp (grows.files location file)
    simp [known]

theorem step (grows : Grows first second) {location next : Location} {name : Text}
    (h : first.step location name = .ok next) : second.step location name = .ok next := by
  unfold FileTree.step at h ⊢
  cases found : first.find? location with
  | none =>
    rw [found] at h
    cases h
  | some entry =>
    rw [found] at h
    cases entry with
    | file content => cases h
    | directory =>
      rw [grows.directories location found]
      dsimp only at h ⊢
      split at h
      · next idle => rwa [if_pos idle]
      split at h
      · next idle up => rwa [if_neg idle, if_pos up]
      split at h
      · next idle up there =>
        rwa [if_neg idle, if_neg up, if_pos (grows.isSome_find? there)]
      · cases h

theorem foldlM_step (grows : Grows first second) {names : List Text} {location next : Location}
    (h : names.foldlM first.step location = .ok next) :
    names.foldlM second.step location = .ok next := by
  induction names generalizing location with
  | nil => exact h
  | cons name rest ih =>
    rw [List.foldlM_cons] at h ⊢
    cases moved : first.step location name with
    | error cause =>
      rw [moved] at h
      cases h
    | ok inner =>
      rw [moved] at h
      rw [grows.step moved]
      exact ih h

theorem origin (grows : Grows first second) (path : Path) :
    second.origin path = first.origin path := by
  simp only [FileTree.origin, grows.current]

theorem locate (grows : Grows first second) {path : Path} {location : Location}
    (h : first.locate path = .ok location) : second.locate path = .ok location := by
  unfold FileTree.locate at h ⊢
  split at h
  · cases h
  · next visible =>
    rw [if_neg visible, grows.origin]
    exact grows.foldlM_step h

end Grows

theorem isFile_iff {tree : FileTree} {path : Path} : tree.isFile path = true ↔
    ∃ location, tree.locate path = .ok location ∧ (tree.content? location).isSome = true := by
  unfold isFile entry?
  cases tree.locate path with
  | error cause => simp
  | ok location =>
    simp only [Except.ok.injEq, exists_eq_left', isSome_content?_iff]
    split
    · next content found => simp [found]
    · next other => simpa using other

theorem Grows.isFile {first second : FileTree} (grows : Grows first second) {path : Path}
    (h : first.isFile path = true) : second.isFile path = true := by
  obtain ⟨location, found, file⟩ := isFile_iff.mp h
  exact isFile_iff.mpr ⟨location, grows.locate found, grows.files location file⟩

structure Writes (written : List Path) (before after : FileTree) : Prop
    extends Grows before after where
  changed : ∀ location, after.content? location ≠ before.content? location →
    ∃ path ∈ written, after.locate path = .ok location
  present : ∀ path ∈ written, after.isFile path = true

namespace Writes

variable {first second third : FileTree} {written more : List Path}

theorem refl (tree : FileTree) : Writes [] tree tree where
  toGrows := Grows.refl tree
  changed _ differ := absurd rfl differ
  present _ mem := absurd mem List.not_mem_nil

theorem trans (early : Writes written first second) (late : Writes more second third) :
    Writes (written ++ more) first third where
  toGrows := early.toGrows.trans late.toGrows
  changed location differ := by
    by_cases same : second.content? location = first.content? location
    · obtain ⟨path, mem, found⟩ := late.changed location (by rwa [same])
      exact ⟨path, List.mem_append_right _ mem, found⟩
    · obtain ⟨path, mem, found⟩ := early.changed location same
      exact ⟨path, List.mem_append_left _ mem, late.locate found⟩
  present path mem := by
    rcases List.mem_append.mp mem with old | new
    · exact late.isFile (early.present path old)
    · exact late.present path new

theorem content?_eq (writes : Writes [] first second) (location : Location) :
    second.content? location = first.content? location := by
  by_contra differ
  obtain ⟨path, mem, -⟩ := writes.changed location differ
  exact List.not_mem_nil mem

end Writes

end FileTree

end CallSchema
