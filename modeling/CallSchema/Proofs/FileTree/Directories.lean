import CallSchema.Proofs.FileTree.Alike

set_option autoImplicit false

namespace CallSchema.FileTree

open CallSchema.Path (IsName)

variable {tree : FileTree} {path base : Path} {levels : Nat} {location next : Location}
  {name : Text} {names : List Text}

def settle (path : Path) : Except Cause Unit × FileTree → Except Cause Unit × FileTree
  | (.ok (), tree) => (.ok (), tree)
  | (.error cause, tree) => unlessDirectory path cause tree

def settleBelow (path : Path) : Except Cause Unit × FileTree → Except Cause Unit × FileTree
  | (.ok (), tree) => settle path (makeDirectory path tree)
  | (.error cause, tree) => (.error cause, tree)

theorem tree_of_makeDirectory_error {cause : Cause}
    (h : (makeDirectory path tree).1 = .error cause) :
    makeDirectory path tree = (.error cause, tree) := by
  refine Prod.ext h ?_
  revert h
  unfold makeDirectory
  dsimp only
  split
  · exact fun _ => rfl
  split
  · exact fun _ => rfl
  split
  · exact fun _ => rfl
  split
  · exact fun _ => rfl
  · exact fun made => nomatch made

theorem makeDirectoriesWithin_of_settled (visible : path.text ≠ [])
    (found : (makeDirectory path tree).1 ≠ .error .notFound) :
    makeDirectoriesWithin (levels + 1) path tree = settle path (makeDirectory path tree) := by
  unfold makeDirectoriesWithin
  rw [if_neg visible]
  generalize makeDirectory path tree = made at found
  obtain ⟨result, middle⟩ := made
  cases result with
  | ok => rfl
  | error cause =>
    cases cause with
    | notFound => exact absurd rfl found
    | _ => rfl

theorem makeDirectoriesWithin_of_missing {parent : Path} (visible : path.text ≠ [])
    (missing : (makeDirectory path tree).1 = .error .notFound)
    (above : path.parent? = some parent) :
    makeDirectoriesWithin (levels + 1) path tree =
      settleBelow path (makeDirectoriesWithin levels parent tree) := by
  simp only [makeDirectoriesWithin, if_neg visible, tree_of_makeDirectory_error missing, above]
  generalize makeDirectoriesWithin levels parent tree = made
  obtain ⟨result, middle⟩ := made
  cases result with
  | error cause => rfl
  | ok =>
    simp only [settleBelow]
    generalize makeDirectory path middle = made
    obtain ⟨result, last⟩ := made
    cases result <;> rfl

theorem makeDirectoriesWithin_of_topmost (visible : path.text ≠ [])
    (missing : (makeDirectory path tree).1 = .error .notFound) (above : path.parent? = none) :
    makeDirectoriesWithin (levels + 1) path tree = (.error .notFound, tree) := by
  simp only [makeDirectoriesWithin, if_neg visible, tree_of_makeDirectory_error missing, above]

/-! ### Paths of directories -/

section Walk

theorem directory_of_step (h : tree.step location name = .ok next) :
    tree.find? location = some .directory := by
  unfold step at h
  split at h
  · cases h
  · cases h
  · next found => exact found

theorem step_of_idle (idle : name = [] ∨ name = ['.'])
    (directory : tree.find? location = some .directory) :
    tree.step location name = .ok location := by
  simp only [step, directory, if_pos idle]

theorem foldlM_step_cons (h : (name :: names).foldlM tree.step location = .ok next) :
    ∃ inner, tree.step location name = .ok inner ∧ names.foldlM tree.step inner = .ok next := by
  cases moved : tree.step location name with
  | error cause => simp [moved, bind, Except.bind] at h
  | ok inner => exact ⟨inner, rfl, by simpa [moved, bind, Except.bind] using h⟩

theorem directories_of_foldlM (h : names.foldlM tree.step location = .ok next)
    (last : tree.find? next = some .directory) {before : List Text} (shorter : before <+: names) :
    tree.find? (walk location before) = some .directory := by
  induction names generalizing location before with
  | nil =>
    obtain rfl := List.prefix_nil.mp shorter
    cases h
    exact last
  | cons name rest ih =>
    obtain ⟨inner, moved, later⟩ := foldlM_step_cons h
    cases before with
    | nil => exact directory_of_step moved
    | cons first before =>
      obtain ⟨rfl, within⟩ := List.cons_prefix_cons.mp shorter
      rw [eq_move_of_step moved] at later
      exact ih later within

theorem foldlM_filter_iff {segments : List Text} (last : tree.find? next = some .directory) :
    segments.foldlM tree.step location = .ok next ↔
      (segments.filter fun name => name ≠ [] ∧ name ≠ ['.']).foldlM tree.step location =
        .ok next := by
  induction segments generalizing location with
  | nil => rfl
  | cons name rest ih =>
    by_cases idle : name = [] ∨ name = ['.']
    · have dropped : ¬(name ≠ [] ∧ name ≠ ['.']) := by tauto
      rw [List.filter_cons_of_neg (by simpa using dropped), ← ih]
      constructor
      · intro h
        obtain ⟨inner, moved, later⟩ := foldlM_step_cons h
        rw [step_of_idle idle (directory_of_step moved)] at moved
        cases moved
        exact later
      · intro h
        have here : tree.find? location = some .directory :=
          directories_of_foldlM h last List.nil_prefix
        rw [List.foldlM_cons, step_of_idle idle here]
        exact h
    · have kept : name ≠ [] ∧ name ≠ ['.'] := by tauto
      rw [List.filter_cons_of_pos (by simpa using kept), List.foldlM_cons, List.foldlM_cons]
      cases tree.step location name with
      | error cause => rfl
      | ok inner => exact ih

theorem locate_directory_iff (visible : path.text ≠ [])
    (directory : tree.find? location = some .directory) : tree.locate path = .ok location ↔
      path.names.foldlM tree.step (tree.origin path) = .ok location := by
  rw [locate, if_neg visible]
  exact foldlM_filter_iff directory

theorem isDirectory_iff : tree.isDirectory path = true ↔
    ∃ location, tree.locate path = .ok location ∧ tree.find? location = some .directory := by
  unfold isDirectory entry?
  cases tree.locate path <;> simp

theorem Grows.isDirectory {after : FileTree} (grows : Grows tree after)
    (there : tree.isDirectory path = true) : after.isDirectory path = true := by
  obtain ⟨location, located, directory⟩ := isDirectory_iff.mp there
  exact isDirectory_iff.mpr ⟨location, grows.locate located, grows.directories _ directory⟩

theorem isDirectory_of_list (listed : tree.list path = .ok names) :
    tree.isDirectory path = true := by
  unfold list at listed
  cases located : tree.locate path with
  | error cause =>
    rw [located] at listed
    cases listed
  | ok location =>
    simp only [located, bind, Except.bind] at listed
    split at listed
    · next directory => exact isDirectory_iff.mpr ⟨location, located, directory⟩
    · cases listed
    · cases listed

theorem text_ne_nil_of_isDirectory (there : tree.isDirectory path = true) : path.text ≠ [] := by
  intro empty
  simp [isDirectory, entry?, locate, empty] at there

theorem find?_place_of_isDirectory (there : tree.isDirectory path = true) :
    tree.find? (tree.place path) = some .directory := by
  obtain ⟨location, located, directory⟩ := isDirectory_iff.mp there
  rwa [eq_place_of_locate located] at directory

theorem directories_of_isDirectory (there : tree.isDirectory path = true) {before : List Text}
    (shorter : before <+: path.names) :
    tree.find? (walk (tree.origin path) before) = some .directory := by
  have visible := text_ne_nil_of_isDirectory there
  obtain ⟨location, located, directory⟩ := isDirectory_iff.mp there
  have walked := (locate_directory_iff visible directory).mp located
  exact directories_of_foldlM walked directory shorter

theorem isDirectory_of_prefix {second : Path} (there : tree.isDirectory path = true)
    (visible : second.text ≠ []) (absolute : second.isAbsolute = path.isAbsolute)
    (shorter : second.names <+: path.names) : tree.isDirectory second = true := by
  have shown := text_ne_nil_of_isDirectory there
  obtain ⟨location, located, directory⟩ := isDirectory_iff.mp there
  have walked := (locate_directory_iff shown directory).mp located
  have start : tree.origin second = tree.origin path := by simp only [origin, absolute]
  obtain ⟨rest, whole⟩ := shorter
  rw [← whole, List.foldlM_append] at walked
  cases reached : second.names.foldlM tree.step (tree.origin path) with
  | error cause => simp [reached, bind, Except.bind] at walked
  | ok inner =>
    have later : rest.foldlM tree.step inner = .ok location := by
      simpa [reached, bind, Except.bind] using walked
    have above : tree.find? inner = some .directory :=
      directories_of_foldlM later directory List.nil_prefix
    refine isDirectory_iff.mpr ⟨inner, ?_, above⟩
    rw [locate_directory_iff visible above, start]
    exact reached

theorem AgreeOn.of_parent {other : FileTree} {parent : Path}
    (current : other.current = tree.current) (above : path.parent? = some parent)
    (there : tree.isDirectory parent = true) (otherThere : other.isDirectory parent = true)
    (last : other.find? (tree.place path) = tree.find? (tree.place path)) :
    AgreeOn tree other path where
  current := current
  same before shorter := by
    obtain ⟨ends, short, whole⟩ := Path.names_of_parent? above
    have start : tree.origin path = tree.origin parent := by
      simp only [FileTree.origin, Path.isAbsolute_of_parent? above]
    have otherStart : other.origin parent = tree.origin parent := by
      simp only [FileTree.origin, current]
    by_cases all : before = path.names
    · rw [all]
      exact last
    · have within : before <+: parent.names := by
        rcases prefix_append_cases (whole ▸ shorter) with within | ⟨more, inner, rfl⟩
        · exact within
        · have none : more = [] := by
            by_contra filled
            have length := List.length_pos_iff.mpr filled
            exact all (whole ▸ inner.eq_of_length_le (short.trans length) ▸ rfl)
          simp [none]
      have directory := directories_of_isDirectory there within
      have otherDirectory := directories_of_isDirectory otherThere within
      rw [start, directory, ← otherStart, otherDirectory]

theorem isDirectory_absolute (wellFormed : tree.WellFormed) (there : tree.isDirectory path = true) :
    tree.isDirectory (Path.absolute tree.currentPath path) = true := by
  have absolute := Path.isAbsolute_absolute tree.isAbsolute_currentPath path
  have visible := Path.text_ne_nil_of_isAbsolute absolute
  have start := find?_origin wellFormed path
  have lead : (tree.origin path).foldlM tree.step [] = .ok (tree.origin path) :=
    wellFormed.foldlM_step (wellFormed.names_of_find? start) start
  obtain ⟨location, located, directory⟩ := isDirectory_iff.mp there
  have walked := (locate_directory_iff (text_ne_nil_of_isDirectory there) directory).mp located
  refine isDirectory_iff.mpr ⟨location, (locate_directory_iff visible directory).mpr ?_, directory⟩
  rw [origin_absolute, names_absolute wellFormed, List.foldlM_append, lead]
  exact walked

end Walk

theorem eq_place_of_target (target : tree.target path = .ok location) :
    location = tree.place path := by
  obtain ⟨directory, name, rfl, known⟩ := of_target target
  have located := known.locate_put (.text [])
  exact (eq_place_of_locate located).trans (place_congr rfl path)

/-! ### A directory that is there already -/

theorem withoutClosingSlashes_ne_nil (visible : path.text ≠ []) :
    (withoutClosingSlashes path).text ≠ [] := by
  unfold withoutClosingSlashes
  split
  · exact visible
  · next other => simpa using other

theorem makeDirectory_of_isDirectory (there : tree.isDirectory path = true) :
    makeDirectory path tree = (.error .exists, tree) := by
  have visible := text_ne_nil_of_isDirectory there
  have shown := withoutClosingSlashes_ne_nil visible
  have spelling := withoutClosingSlashes_spelling path
  have stripped := isDirectory_of_prefix there shown spelling.1 (spelling.2 ▸ List.prefix_refl _)
  unfold makeDirectory
  dsimp only
  generalize withoutClosingSlashes path = path at shown stripped
  obtain ⟨location, located, directory⟩ := isDirectory_iff.mp stripped
  rw [locate, if_neg shown, segments_eq path, List.foldlM_append] at located
  cases reached : path.segments.dropLast.foldlM tree.step (tree.origin path) with
  | error cause => simp [reached, bind, Except.bind] at located
  | ok above =>
    obtain ⟨next, last, done⟩ : ∃ next, tree.step above (path.segments.getLastD []) = .ok next ∧
        [].foldlM tree.step next = .ok location := by
      rw [reached] at located
      exact foldlM_step_cons located
    cases done
    have parent : tree.locateParent path = .ok (above, path.segments.getLastD []) := by
      simp only [locateParent, reached, directory_of_step last, bind, Except.bind]
    simp only [if_neg shown, parent]
    split
    · rfl
    · next proper =>
      have named := isName_of_segment (by rw [segments_eq path]; simp) proper
      rw [eq_concat_of_step named last] at directory
      simp only [directory, Option.isSome_some, if_true]

/-! ### A directory that has been made -/

theorem isDirectory_of_makeDirectory {after : FileTree} (visible : path.text ≠ [])
    (h : makeDirectory path tree = (.ok (), after)) : after.isDirectory path = true := by
  have grows := (writes_makeDirectory path tree).toGrows
  rw [h] at grows
  have shown := withoutClosingSlashes_ne_nil visible
  have spelling := withoutClosingSlashes_spelling path
  suffices there : after.isDirectory (withoutClosingSlashes path) = true from
    isDirectory_of_prefix there visible spelling.1.symm (spelling.2 ▸ List.prefix_refl _)
  unfold makeDirectory at h
  dsimp only at h
  generalize withoutClosingSlashes path = path at h shown
  rw [if_neg shown] at h
  cases parent : tree.locateParent path with
  | error cause => simp [parent] at h
  | ok found =>
    obtain ⟨directory, name⟩ := found
    obtain ⟨reached, above, segments⟩ := of_locateParent parent
    simp only [parent] at h
    split at h
    · cases h
    split at h
    · cases h
    · next proper new =>
      have named := isName_of_segment (by rw [segments]; simp) proper
      obtain rfl : tree.put (directory ++ [name]) .directory = after := congrArg Prod.snd h
      have there : (tree.put (directory ++ [name]) .directory).find? (directory ++ [name]) =
          some .directory := by rw [find?_put _ (by simp), if_pos rfl]
      refine isDirectory_iff.mpr ⟨directory ++ [name], ?_, there⟩
      rw [locate, if_neg shown, segments, List.foldlM_append, grows.origin,
        grows.foldlM_step reached]
      simp only [bind, Except.bind, List.foldlM_cons, List.foldlM_nil,
        step_eq named (grows.directories _ above), there]
      rfl

theorem isDirectory_of_settle {after : FileTree} (visible : path.text ≠ [])
    (h : settle path (makeDirectory path tree) = (.ok (), after)) :
    after.isDirectory path = true := by
  cases made : makeDirectory path tree with
  | mk result middle =>
    rw [made] at h
    cases result with
    | ok =>
      cases h
      exact isDirectory_of_makeDirectory visible made
    | error cause =>
      simp only [settle, unlessDirectory] at h
      split at h
      · next there =>
        cases h
        exact there
      · cases h

theorem isDirectory_of_makeDirectories {after : FileTree} (visible : path.text ≠ [])
    (h : makeDirectories path tree = (.ok (), after)) : after.isDirectory path = true := by
  by_cases missing : (makeDirectory path tree).1 = .error .notFound
  · cases above : path.parent? with
    | none =>
      rw [makeDirectories, makeDirectoriesWithin_of_topmost visible missing above] at h
      cases h
    | some parent =>
      rw [makeDirectories, makeDirectoriesWithin_of_missing visible missing above] at h
      generalize makeDirectoriesWithin path.text.length parent tree = made at h
      obtain ⟨result, middle⟩ := made
      cases result with
      | error cause => cases h
      | ok => exact isDirectory_of_settle visible h
  · rw [makeDirectories, makeDirectoriesWithin_of_settled visible missing] at h
    exact isDirectory_of_settle visible h

end CallSchema.FileTree
