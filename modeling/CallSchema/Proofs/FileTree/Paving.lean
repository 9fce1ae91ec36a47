import CallSchema.Proofs.FileTree.Directories

set_option autoImplicit false

namespace CallSchema.FileTree

open CallSchema.Path (IsName)

variable {tree : FileTree} {path base : Path} {levels : Nat} {location : Location} {name : Text}
  {names : List Text}

theorem withoutClosingSlashes_of_getLast? (opened : path.text.getLast? ≠ some '/') :
    withoutClosingSlashes path = path := by
  have first : path.text.reverse.dropWhile (· = '/') = path.text.reverse := by
    rw [← List.head?_reverse] at opened
    cases backwards : path.text.reverse with
    | nil => rfl
    | cons c rest =>
      have other : c ≠ '/' := by simpa [backwards] using opened
      simp [other]
  unfold withoutClosingSlashes
  rw [first]
  split
  · rfl
  · next other => simp

theorem locateParent_join (visible : base.text ≠ []) (named : IsName name) :
    tree.locateParent (base.join name) = tree.locate base >>= fun location =>
      match tree.find? location with
      | some .directory => .ok (location, name)
      | some (.file _) => .error .notDirectory
      | none => .error .notFound := by
  simp only [locateParent, locate, if_neg visible, origin_join visible named.plain]
  rcases base.segments_join named.plain with ⟨empty, -⟩ | ⟨before, found, joined⟩
  · exact absurd empty visible
  · have last : (before ++ [name]).getLastD [] = name := by simp [List.getLastD_eq_getLast?]
    rw [joined, List.dropLast_concat, last]
    rcases found with closed | whole
    · -- A closing slash asks for a directory as well.
      rw [closed, List.foldlM_append]
      cases before.foldlM tree.step (tree.origin base) with
      | error cause => rfl
      | ok location =>
        simp only [bind, Except.bind, List.foldlM_cons, List.foldlM_nil, step]
        cases found : tree.find? location with
        | none => rfl
        | some entry => cases entry <;> simp [found, pure, Except.pure]
    · subst whole
      rfl

theorem makeDirectory_join (visible : base.text ≠ []) (named : IsName name) :
    makeDirectory (base.join name) tree =
      match tree.locate base with
      | .error cause => (.error cause, tree)
      | .ok location =>
        match tree.find? location with
        | some .directory =>
          if (tree.find? (location ++ [name])).isSome then (.error .exists, tree)
          else (.ok (), tree.put (location ++ [name]) .directory)
        | some (.file _) => (.error .notDirectory, tree)
        | none => (.error .notFound, tree) := by
  have proper : ¬(name = [] ∨ name = ['.'] ∨ name = ['.', '.']) := by
    simp [named.visible, named.here, named.above]
  simp only [makeDirectory, withoutClosingSlashes_of_getLast? (base.getLast?_join named),
    if_neg (base.join_text_ne_nil named), locateParent_join visible named]
  cases tree.locate base with
  | error cause => rfl
  | ok location =>
    simp only [bind, Except.bind]
    cases tree.find? location with
    | none => rfl
    | some entry =>
      cases entry with
      | file content => rfl
      | directory => simp only [if_neg proper]

theorem foldlM_step_of_missing (directory : tree.find? location = some .directory)
    (named : ∀ name ∈ names, IsName name)
    (free : ∀ before, before <+: names → tree.content? (location ++ before) = none)
    (missing : tree.find? (location ++ names) = none) :
    names.foldlM tree.step location = .error .notFound := by
  induction names generalizing location with
  | nil => simp [directory] at missing
  | cons name rest ih =>
    rw [List.foldlM_cons, step_eq (named name (by simp)) directory]
    have first := free [name] (by simp)
    cases found : tree.find? (location ++ [name]) with
    | none => rfl
    | some entry =>
      cases entry with
      | file content => simp [content?, found, Entry.content?] at first
      | directory =>
        refine ih found (fun other mem => named other (by simp [mem])) (fun before shorter => ?_)
          (by simpa using missing)
        simpa using free (name :: before) (by simpa using shorter)

theorem foldlM_step_of_blocked (wellFormed : tree.WellFormed) {before rest : List Text}
    (named : ∀ name ∈ before, IsName name) (filled : rest ≠ [])
    (file : (tree.content? (location ++ before)).isSome = true) :
    (before ++ rest).foldlM tree.step location = .error .notDirectory := by
  obtain ⟨content, found⟩ := isSome_content?_iff.mp file
  obtain ⟨name, more, rfl⟩ := List.exists_cons_of_ne_nil filled
  rw [List.foldlM_append, wellFormed.foldlM_step named found]
  simp [bind, Except.bind, step, found]

def OnWay (location : Location) (names : List Text) (place : Location) : Prop :=
  location <+: place ∧ place <+: location ++ names

instance (location : Location) (names : List Text) (place : Location) :
    Decidable (OnWay location names place) :=
  inferInstanceAs (Decidable (location <+: place ∧ place <+: location ++ names))

structure Starts (tree : FileTree) (base : Path) (location : Location) : Prop where
  wellFormed : tree.WellFormed
  visible : base.text ≠ []
  located : tree.locate base = .ok location
  directory : tree.find? location = some .directory

namespace Starts

theorem of_isDirectory (wellFormed : tree.WellFormed) (there : tree.isDirectory path = true) :
    tree.Starts path (tree.place path) := by
  obtain ⟨location, located, directory⟩ := FileTree.isDirectory_iff.mp there
  obtain rfl := eq_place_of_locate located
  exact ⟨wellFormed, text_ne_nil_of_isDirectory there, located, directory⟩

theorem root (wellFormed : tree.WellFormed) : tree.Starts ⟨['/']⟩ [] :=
  ⟨wellFormed, by simp, rfl, rfl⟩

variable (starts : tree.Starts base location)

include starts

theorem grows {after : FileTree} (grows : Grows tree after) : after.Starts base location :=
  ⟨grows.wellFormed starts.wellFormed, starts.visible, grows.locate starts.located,
    grows.directories _ starts.directory⟩

variable (named : ∀ name ∈ names, IsName name)

include named

theorem text_ne_nil : (names.foldl Path.join base).text ≠ [] := by
  rcases List.eq_nil_or_concat' names with rfl | ⟨init, name, rfl⟩
  · exact starts.visible
  · rw [List.foldl_append]
    exact Path.join_text_ne_nil _ (named name (by simp))

theorem locate : tree.locate (names.foldl Path.join base) = names.foldlM tree.step location := by
  rw [locate_foldl_join starts.visible named, starts.located]
  rfl

theorem isDirectory_iff : tree.isDirectory (names.foldl Path.join base) = true ↔
    tree.find? (location ++ names) = some .directory := by
  rw [FileTree.isDirectory_iff, starts.locate named]
  constructor
  · rintro ⟨place, reached, directory⟩
    rwa [eq_append_of_foldlM_step named reached] at directory
  · intro directory
    exact ⟨_, starts.wellFormed.foldlM_step named directory, directory⟩

theorem toOption_read : (tree.read (names.foldl Path.join base)).toOption =
    tree.content? (location ++ names) := by
  rw [read, starts.locate named]
  cases reached : names.foldlM tree.step location with
  | ok next =>
    obtain rfl := eq_append_of_foldlM_step named reached
    simp only [bind, Except.bind, content?]
    cases tree.find? (location ++ names) with
    | none => rfl
    | some entry => cases entry <;> rfl
  | error cause =>
    cases found : tree.find? (location ++ names) with
    | none => simp [content?, found, bind, Except.bind, Except.toOption]
    | some entry => simp [starts.wellFormed.foldlM_step named found] at reached

end Starts

theorem isDirectory_currentPath (wellFormed : tree.WellFormed) :
    tree.isDirectory tree.currentPath = true := by
  have named := wellFormed.names_of_find? wellFormed.current
  exact ((Starts.root wellFormed).isDirectory_iff named).mpr wellFormed.current

section Blocked

variable (starts : tree.Starts base location) (named : ∀ name ∈ names, IsName name)
  {before : List Text} (shorter : before <+: names)
  (file : (tree.content? (location ++ before)).isSome = true)

include starts named shorter file

theorem Starts.isDirectory_of_blocked : tree.isDirectory (names.foldl Path.join base) = false := by
  rw [Bool.eq_false_iff, Ne, starts.isDirectory_iff named]
  intro directory
  have above := starts.wellFormed.find?_of_prefix directory
    ((List.prefix_append_right_inj _).mpr shorter)
  simp [content?_eq_none_iff.mpr (.inr above)] at file

theorem Starts.makeDirectory_of_blocked : makeDirectory (names.foldl Path.join base) tree =
    (.error (if before = names then .exists else .notDirectory), tree) := by
  obtain ⟨content, found⟩ := isSome_content?_iff.mp file
  rcases List.eq_nil_or_concat' names with rfl | ⟨init, name, rfl⟩
  · obtain rfl := List.prefix_nil.mp shorter
    simp [starts.directory] at found
  have initNamed : ∀ name ∈ init, IsName name := fun name mem => named name (by simp [mem])
  rw [List.foldl_append, List.foldl_cons, List.foldl_nil,
    makeDirectory_join (starts.text_ne_nil initNamed) (named name (by simp)),
    starts.locate initNamed]
  rcases List.prefix_concat_iff.mp shorter with rfl | ⟨rest, rfl⟩
  · have above : tree.find? (location ++ init) = some .directory :=
      starts.wellFormed.find?_directory (List.cons_ne_nil name []) (by simpa using found)
    simp [starts.wellFormed.foldlM_step initNamed above, above, found]
  · by_cases last : rest = []
    · subst last
      rw [List.append_nil] at initNamed ⊢
      simp [starts.wellFormed.foldlM_step initNamed found, found]
    · rw [foldlM_step_of_blocked starts.wellFormed
        (fun name mem => initNamed name (by simp [mem])) last file]
      simp

end Blocked

section Missing

variable (starts : tree.Starts base location)
  (named : ∀ inner ∈ names ++ [name], IsName inner)

include starts named

theorem Starts.makeDirectory_of_missing (above : tree.find? (location ++ names) = some .directory)
    (missing : tree.find? (location ++ names ++ [name]) = none) :
    makeDirectory ((names ++ [name]).foldl Path.join base) tree =
      (.ok (), tree.put (location ++ names ++ [name]) .directory) := by
  have aboveNamed : ∀ inner ∈ names, IsName inner := fun inner mem => named inner (by simp [mem])
  rw [List.foldl_append, List.foldl_cons, List.foldl_nil,
    makeDirectory_join (starts.text_ne_nil aboveNamed) (named name (by simp)),
    starts.locate aboveNamed, starts.wellFormed.foldlM_step aboveNamed above]
  simp only [above, missing, Option.isSome_none, Bool.false_eq_true, if_false]

theorem Starts.makeDirectory_of_missing_above
    (free : ∀ before, before <+: names → tree.content? (location ++ before) = none)
    (missing : tree.find? (location ++ names) = none) :
    (makeDirectory ((names ++ [name]).foldl Path.join base) tree).1 = .error .notFound ∧
      ((names ++ [name]).foldl Path.join base).parent? = some (names.foldl Path.join base) := by
  have aboveNamed : ∀ inner ∈ names, IsName inner := fun inner mem => named inner (by simp [mem])
  have nameNamed := named name (by simp)
  constructor
  · rw [List.foldl_append, List.foldl_cons, List.foldl_nil,
      makeDirectory_join (starts.text_ne_nil aboveNamed) nameNamed, starts.locate aboveNamed,
      foldlM_step_of_missing starts.directory aboveNamed free missing]
  · have filled : names ≠ [] := by
      rintro rfl
      simp [starts.directory] at missing
    obtain ⟨outer, inner, rfl⟩ := (List.eq_nil_or_concat' names).resolve_left filled
    simp only [List.foldl_append, List.foldl_cons, List.foldl_nil]
    exact Path.parent?_join _ (aboveNamed inner (by simp)) nameNamed

end Missing

-- The three ways in which an attempt may end if no file is in the way.
theorem Starts.makeDirectory_cases (starts : tree.Starts base location)
    (named : ∀ inner ∈ names ++ [name], IsName inner)
    (free : ∀ before, before <+: names ++ [name] → tree.content? (location ++ before) = none) :
    (tree.find? (location ++ names) = none ∧
      makeDirectory ((names ++ [name]).foldl Path.join base) tree = (.error .notFound, tree) ∧
      ((names ++ [name]).foldl Path.join base).parent? = some (names.foldl Path.join base)) ∨
    (tree.find? (location ++ names) = some .directory ∧
      tree.find? (location ++ names ++ [name]) = none ∧
      makeDirectory ((names ++ [name]).foldl Path.join base) tree =
        (.ok (), tree.put (location ++ names ++ [name]) .directory)) ∨
    (tree.find? (location ++ (names ++ [name])) = some .directory ∧
      makeDirectory ((names ++ [name]).foldl Path.join base) tree = (.error .exists, tree)) := by
  have aboveFree : ∀ before, before <+: names → tree.content? (location ++ before) = none :=
    fun before shorter => free before (shorter.trans (List.prefix_append _ _))
  rcases content?_eq_none_iff.mp (aboveFree names (List.prefix_refl _)) with gone | above
  · obtain ⟨missing, parent⟩ := starts.makeDirectory_of_missing_above named aboveFree gone
    exact .inl ⟨gone, tree_of_makeDirectory_error missing, parent⟩
  · rcases content?_eq_none_iff.mp (free _ (List.prefix_refl _)) with missing | there
    · rw [← List.append_assoc] at missing
      exact .inr (.inl ⟨above, missing, starts.makeDirectory_of_missing named above missing⟩)
    · exact .inr (.inr ⟨there, makeDirectory_of_isDirectory ((starts.isDirectory_iff named).mpr there)⟩)

end CallSchema.FileTree
