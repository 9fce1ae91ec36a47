import CallSchema.Proofs.FileTree.Listing
import CallSchema.Proofs.FileTree.Location
import CallSchema.Proofs.FileTree.Spelling

set_option autoImplicit false

namespace CallSchema.FileTree

open CallSchema.Path (IsName)

def move (location : Location) (name : Text) : Location :=
  if name = [] ∨ name = ['.'] then location
  else if name = ['.', '.'] then location.dropLast
  else location ++ [name]

def walk (location : Location) (names : List Text) : Location := names.foldl move location

def place (tree : FileTree) (path : Path) : Location := walk (tree.origin path) path.names

variable {tree other : FileTree} {path : Path} {location next : Location} {name : Text}
  {names : List Text}

section Walk

theorem move_of_isName (named : IsName name) : move location name = location ++ [name] := by
  simp [move, named.visible, named.here, named.above]

theorem walk_append (location : Location) (first second : List Text) :
    walk location (first ++ second) = walk (walk location first) second :=
  List.foldl_append

theorem walk_of_isName (named : ∀ name ∈ names, IsName name) :
    walk location names = location ++ names := by
  induction names generalizing location with
  | nil => simp [walk]
  | cons name rest ih =>
    rw [walk, List.foldl_cons, move_of_isName (named name (by simp))]
    exact (ih fun other mem => named other (by simp [mem])).trans (by simp)

theorem place_eq_names (absolute : path.isAbsolute = true)
    (named : ∀ name ∈ path.names, IsName name) : tree.place path = path.names := by
  rw [place, origin, if_pos absolute, walk_of_isName named, List.nil_append]

theorem walk_filter (location : Location) (segments : List Text) :
    walk location (segments.filter fun name => name ≠ [] ∧ name ≠ ['.']) =
      walk location segments := by
  induction segments generalizing location with
  | nil => rfl
  | cons name rest ih =>
    by_cases idle : name = [] ∨ name = ['.']
    · have stays : move location name = location := if_pos idle
      have dropped : ¬(name ≠ [] ∧ name ≠ ['.']) := by tauto
      simpa [dropped, walk, stays] using ih location
    · have kept : name ≠ [] ∧ name ≠ ['.'] := by tauto
      simpa [kept, walk] using ih (move location name)

theorem prefix_append_cases {first rest before : List Text} (shorter : before <+: first ++ rest) :
    before <+: first ∨ ∃ more, more <+: rest ∧ before = first ++ more := by
  rcases List.prefix_or_prefix_of_prefix shorter (List.prefix_append first rest) with
    within | ⟨more, rfl⟩
  · exact .inl within
  · exact .inr ⟨more, (List.prefix_append_right_inj first).mp shorter, rfl⟩

theorem length_walk_le (location : Location) (names : List Text) :
    (walk location names).length ≤ location.length + names.length := by
  induction names generalizing location with
  | nil => simp [walk]
  | cons name rest ih =>
    have first : (move location name).length ≤ location.length + 1 := by
      unfold move
      split
      · omega
      split
      · simp
        omega
      · simp
    have later := ih (move location name)
    simp only [walk, List.foldl_cons, List.length_cons] at later ⊢
    omega

theorem eq_move_of_step (h : tree.step location name = .ok next) : next = move location name := by
  unfold step at h
  split at h
  · cases h
  · cases h
  · unfold move
    split at h
    · next idle => simpa [idle] using h.symm
    split at h
    · next idle up => simpa [idle, up] using h.symm
    split at h
    · next idle up there => simpa [idle, up] using h.symm
    · cases h

theorem eq_walk_of_foldlM_step (h : names.foldlM tree.step location = .ok next) :
    next = walk location names := by
  induction names generalizing location with
  | nil => simpa [walk, pure, Except.pure] using h.symm
  | cons name rest ih =>
    cases moved : tree.step location name with
    | error cause => simp [moved, bind, Except.bind] at h
    | ok inner =>
      simp only [List.foldlM_cons, moved, bind, Except.bind] at h
      simpa [walk, eq_move_of_step moved] using ih h

theorem eq_place_of_locate (h : tree.locate path = .ok location) : location = tree.place path := by
  unfold locate at h
  split at h
  · cases h
  · rw [place, Path.names, walk_filter]
    exact eq_walk_of_foldlM_step h

theorem place_congr (current : other.current = tree.current) (path : Path) :
    other.place path = tree.place path := by
  simp only [place, origin, current]

theorem origin_foldl_join (tree : FileTree) (base : Path) (named : ∀ name ∈ names, IsName name) :
    tree.origin (names.foldl Path.join base) = tree.origin base := by
  induction names generalizing base with
  | nil => rfl
  | cons name rest ih =>
    have first : tree.origin (base.join name) = tree.origin base := by
      simp only [origin, Path.isAbsolute_join_name (named name (by simp))]
    exact (ih _ fun other mem => named other (by simp [mem])).trans first

theorem place_foldl_join (tree : FileTree) (base : Path) (named : ∀ name ∈ names, IsName name) :
    tree.place (names.foldl Path.join base) = tree.place base ++ names := by
  rw [place, origin_foldl_join tree base named, Path.names_foldl_join base named, walk_append,
    walk_of_isName named]
  rfl

theorem place_join (tree : FileTree) (base : Path) (named : IsName name) :
    tree.place (base.join name) = tree.place base ++ [name] := by
  have named : ∀ other ∈ [name], IsName other := by simpa using named
  exact tree.place_foldl_join base named

/-! ### Paths that start from the root -/

theorem isAbsolute_currentPath (tree : FileTree) : tree.currentPath.isAbsolute = true :=
  Path.isAbsolute_foldl_join rfl tree.current

theorem names_currentPath (wellFormed : tree.WellFormed) :
    tree.currentPath.names = tree.current := by
  have root : Path.names ⟨['/']⟩ = [] := by decide
  rw [currentPath, pathOf, Path.names_foldl_join _ (wellFormed.names_of_find? wellFormed.current),
    root, List.nil_append]

theorem origin_absolute (tree : FileTree) (path : Path) :
    tree.origin (Path.absolute tree.currentPath path) = [] :=
  if_pos (Path.isAbsolute_absolute tree.isAbsolute_currentPath path)

theorem names_absolute (wellFormed : tree.WellFormed) (path : Path) :
    (Path.absolute tree.currentPath path).names = tree.origin path ++ path.names := by
  rw [Path.names_absolute, names_currentPath wellFormed, origin]

theorem find?_origin (wellFormed : tree.WellFormed) (path : Path) :
    tree.find? (tree.origin path) = some .directory := by
  unfold origin
  split
  · rfl
  · exact wellFormed.current

theorem walk_origin (wellFormed : tree.WellFormed) (path : Path) :
    walk [] (tree.origin path) = tree.origin path := by
  rw [walk_of_isName (wellFormed.names_of_find? (find?_origin wellFormed path)), List.nil_append]

end Walk

/-! ### Places below others -/

def Below (place location : Location) : Prop := place <+: location ∧ location ≠ place

instance (place location : Location) : Decidable (Below place location) :=
  inferInstanceAs (Decidable (place <+: location ∧ location ≠ place))

theorem Below.mono {above further : Location} (below : Below above location)
    (longer : location <+: further) : Below above further := by
  refine ⟨below.1.trans longer, ?_⟩
  rintro rfl
  exact below.2 (longer.eq_of_length_le below.1.length_le)

theorem below_append (location : Location) (filled : names ≠ []) :
    Below location (location ++ names) :=
  ⟨List.prefix_append _ _, by simpa using filled⟩

theorem not_below_of_ne {inner : Text} {rest : List Text} (differ : name ≠ inner) :
    ¬Below (location ++ [name]) (location ++ inner :: rest) := by
  rintro ⟨shorter, -⟩
  rw [List.prefix_append_right_inj, List.cons_prefix_cons] at shorter
  exact differ shorter.1

/-! ### Trees that agree on a path -/

structure AgreeOn (tree other : FileTree) (path : Path) : Prop where
  current : other.current = tree.current
  same : ∀ before, before <+: path.names →
    other.find? (walk (tree.origin path) before) = tree.find? (walk (tree.origin path) before)

theorem step_congr (here : other.find? location = tree.find? location)
    (there : other.find? (move location name) = tree.find? (move location name)) :
    other.step location name = tree.step location name := by
  unfold step move at *
  split at there
  · next idle => simp only [here, if_pos idle]
  · next visible =>
    split at there
    · next up => simp only [here, if_neg visible, if_pos up]
    · next inner => simp only [here, there, if_neg visible, if_neg inner]

theorem foldlM_step_congr (same : ∀ before, before <+: names →
      other.find? (walk location before) = tree.find? (walk location before)) :
    names.foldlM other.step location = names.foldlM tree.step location := by
  induction names generalizing location with
  | nil => rfl
  | cons name rest ih =>
    have first : other.step location name = tree.step location name :=
      step_congr (same [] (by simp)) (same [name] (by simp))
    simp only [List.foldlM_cons, first]
    cases moved : tree.step location name with
    | error cause => rfl
    | ok inner =>
      refine ih fun before shorter => ?_
      rw [eq_move_of_step moved]
      exact same (name :: before) (by simpa using shorter)

namespace AgreeOn

variable (agree : AgreeOn tree other path)

include agree

theorem origin : other.origin path = tree.origin path := by
  simp only [FileTree.origin, agree.current]

theorem beside {third : FileTree} (also : AgreeOn tree third path) : AgreeOn other third path where
  current := also.current.trans agree.current.symm
  same before shorter := by
    rw [agree.origin, agree.same before shorter, also.same before shorter]

theorem find?_place : other.find? (tree.place path) = tree.find? (tree.place path) :=
  agree.same _ (List.prefix_refl _)

theorem locate : other.locate path = tree.locate path := by
  unfold FileTree.locate
  rw [agree.origin]
  split
  · rfl
  · refine foldlM_step_congr fun before shorter => ?_
    have kept := agree.same _ (shorter.filter fun name => name ≠ [] ∧ name ≠ ['.'])
    rwa [walk_filter] at kept

theorem find?_of_locate (located : tree.locate path = .ok location) :
    other.find? location = tree.find? location := by
  rw [eq_place_of_locate located]
  exact agree.find?_place

theorem entry? : other.entry? path = tree.entry? path := by
  unfold FileTree.entry?
  rw [agree.locate]
  cases located : tree.locate path with
  | error cause => rfl
  | ok location => exact agree.find?_of_locate located

theorem isFile : other.isFile path = tree.isFile path := by
  simp only [FileTree.isFile, agree.entry?]

theorem isDirectory : other.isDirectory path = tree.isDirectory path := by
  simp only [FileTree.isDirectory, agree.entry?]

theorem read : other.read path = tree.read path := by
  unfold FileTree.read
  rw [agree.locate]
  cases located : tree.locate path with
  | error cause => rfl
  | ok location => simp only [bind, Except.bind, agree.find?_of_locate located]

theorem readText : other.readText path = tree.readText path := by
  simp only [FileTree.readText, agree.read]

theorem list (wellFormed : tree.WellFormed) (otherWellFormed : other.WellFormed)
    (below : ∀ name, other.find? (tree.place path ++ [name]) =
      tree.find? (tree.place path ++ [name])) : other.list path = tree.list path := by
  unfold FileTree.list
  rw [agree.locate]
  cases located : tree.locate path with
  | error cause => rfl
  | ok location =>
    simp only [bind, Except.bind, agree.find?_of_locate located]
    obtain rfl := eq_place_of_locate located
    have sorted := Text.mergeSort_eq (otherWellFormed.nodup_namesIn _)
      (wellFormed.nodup_namesIn (tree.place path))
      fun name => by rw [mem_namesIn_iff_isSome, mem_namesIn_iff_isSome, below]
    unfold namesIn at sorted
    rw [sorted]

end AgreeOn

end CallSchema.FileTree
