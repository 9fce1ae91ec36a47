import CallSchema.Proofs.FileTree.Growth

set_option autoImplicit false

namespace CallSchema.FileTree

open CallSchema.Path (IsName)

variable {tree after : FileTree} {base : Path} {name : Text} {names : List Text}
  {location next : Location}

theorem eq_concat_of_step (named : IsName name) (h : tree.step location name = .ok next) :
    next = location ++ [name] := by
  cases found : tree.find? location with
  | none =>
    simp only [step, found] at h
    cases h
  | some entry =>
    cases entry with
    | file content =>
      simp only [step, found] at h
      cases h
    | directory =>
      rw [step_eq named found] at h
      split at h
      · cases h
        rfl
      · cases h

theorem eq_append_of_foldlM_step (named : ∀ name ∈ names, IsName name)
    (h : names.foldlM tree.step location = .ok next) : next = location ++ names := by
  induction names generalizing location with
  | nil =>
    cases h
    simp
  | cons name rest ih =>
    rw [List.foldlM_cons] at h
    cases moved : tree.step location name with
    | error cause =>
      rw [moved] at h
      cases h
    | ok inner =>
      rw [moved] at h
      have below := ih (fun other mem => named other (by simp [mem])) h
      rw [below, eq_concat_of_step (named name (by simp)) moved, List.append_assoc]
      rfl

theorem getLast?_of_locate_join (named : IsName name)
    (h : tree.locate (base.join name) = .ok location) : location.getLast? = some name := by
  have split : ∃ before, (base.join name).segments = before ++ [name] := by
    rcases base.segments_join named.plain with ⟨-, joined⟩ | ⟨before, -, joined⟩
    · exact ⟨[], joined⟩
    · exact ⟨before, joined⟩
  obtain ⟨before, segments⟩ := split
  rw [locate, if_neg (base.join_text_ne_nil named), segments, List.foldlM_append] at h
  cases reached : before.foldlM tree.step (tree.origin (base.join name)) with
  | error cause =>
    rw [reached] at h
    cases h
  | ok inner =>
    rw [reached] at h
    have below : location = inner ++ [name] :=
      eq_append_of_foldlM_step (by simpa using named) h
    rw [below, List.getLast?_concat]

theorem origin_join (visible : base.text ≠ []) (plain : '/' ∉ name) :
    tree.origin (base.join name) = tree.origin base := by
  have first : (base.join name).isAbsolute = base.isAbsolute := by
    rcases base.join_cases plain with ⟨empty, -⟩ | ⟨stem, found, joined⟩
    · exact absurd empty visible
    · rw [Path.isAbsolute, Path.isAbsolute, joined]
      rcases found with closed | ⟨whole, filled⟩
      · rw [closed]
        cases stem <;> rfl
      · rw [whole]
        cases stem with
        | nil => exact absurd rfl filled
        | cons c rest => rfl
  simp only [origin, first]

theorem length_of_step (h : tree.step location name = .ok next) :
    next.length ≤ location.length + ([name].filter fun name => name ≠ [] ∧ name ≠ ['.']).length := by
  unfold step at h
  split at h
  · cases h
  · cases h
  · split at h
    · cases h
      exact Nat.le_add_right _ _
    · next moves =>
      have kept : ([name].filter fun name => name ≠ [] ∧ name ≠ ['.']) = [name] := by
        simpa [not_or] using moves
      rw [kept]
      split at h
      · cases h
        simp
        omega
      split at h
      · cases h
        simp
      · cases h

theorem length_of_foldlM_step (h : names.foldlM tree.step location = .ok next) :
    next.length ≤
      location.length + (names.filter fun name => name ≠ [] ∧ name ≠ ['.']).length := by
  induction names generalizing location with
  | nil =>
    cases h
    exact Nat.le_add_right _ _
  | cons name rest ih =>
    rw [List.foldlM_cons] at h
    cases moved : tree.step location name with
    | error cause =>
      rw [moved] at h
      cases h
    | ok inner =>
      rw [moved] at h
      have first := length_of_step moved
      have later := ih h
      have split : name :: rest = [name] ++ rest := rfl
      rw [split, List.filter_append, List.length_append]
      omega

theorem length_of_locate {path : Path} (h : tree.locate path = .ok location) :
    location.length ≤ tree.current.length + path.names.length := by
  unfold locate at h
  split at h
  · cases h
  · have reached := length_of_foldlM_step h
    have started : (tree.origin path).length ≤ tree.current.length := by
      unfold origin
      split
      · exact Nat.zero_le _
      · exact Nat.le_refl _
    exact reached.trans (Nat.add_le_add_right started _)

theorem step_nil_bind (location : Location) (name : Text) :
    (tree.step location [] >>= fun inner => tree.step inner name) = tree.step location name := by
  cases found : tree.find? location with
  | none => simp only [step, found, bind, Except.bind]
  | some entry =>
    cases entry with
    | directory =>
      have still : tree.step location [] = .ok location := by simp [step, found]
      rw [still]
      rfl
    | file content => simp only [step, found, bind, Except.bind]

theorem locate_join (visible : base.text ≠ []) (named : IsName name) :
    tree.locate (base.join name) =
      tree.locate base >>= fun location => tree.step location name := by
  rw [locate, if_neg (base.join_text_ne_nil named), locate, if_neg visible,
    origin_join visible named.plain]
  rcases base.segments_join named.plain with ⟨empty, -⟩ | ⟨before, found, joined⟩
  · exact absurd empty visible
  · rw [joined]
    rcases found with closed | whole
    · rw [closed]
      simp only [List.foldlM_append, List.foldlM_cons, List.foldlM_nil, bind_pure, bind_assoc,
        step_nil_bind]
    · rw [whole]
      simp only [List.foldlM_append, List.foldlM_cons, List.foldlM_nil, bind_pure]

theorem locate_foldl_join (visible : base.text ≠ []) (named : ∀ name ∈ names, IsName name) :
    tree.locate (names.foldl Path.join base) =
      tree.locate base >>= fun location => names.foldlM tree.step location := by
  induction names generalizing base with
  | nil => simp
  | cons name rest ih =>
    have nameNamed := named name (by simp)
    rw [List.foldl_cons, ih (base.join_text_ne_nil nameNamed) fun other mem =>
      named other (by simp [mem]), locate_join visible nameNamed, bind_assoc]
    rfl

theorem WellFormed.find?_directory (wellFormed : tree.WellFormed) {entry : Entry}
    (inner : names ≠ []) (found : tree.find? (location ++ names) = some entry) :
    tree.find? location = some .directory := by
  induction names using List.reverseRecOn generalizing entry with
  | nil => exact absurd rfl inner
  | append_singleton names name ih =>
    have above := wellFormed.parent_of_find? found
    rw [← List.append_assoc, List.dropLast_concat] at above
    by_cases last : names = []
    · rwa [last, List.append_nil] at above
    · exact ih last above

theorem WellFormed.find?_of_prefix (wellFormed : tree.WellFormed) {above : Location}
    (last : tree.find? location = some .directory) (shorter : above <+: location) :
    tree.find? above = some .directory := by
  obtain ⟨rest, rfl⟩ := shorter
  by_cases same : rest = []
  · rwa [same, List.append_nil] at last
  · exact wellFormed.find?_directory same last

theorem WellFormed.foldlM_step (wellFormed : tree.WellFormed)
    (named : ∀ name ∈ names, IsName name) {entry : Entry}
    (found : tree.find? (location ++ names) = some entry) :
    names.foldlM tree.step location = .ok (location ++ names) := by
  induction names generalizing location with
  | nil => simp [pure, Except.pure]
  | cons name rest ih =>
    have inside : tree.find? ((location ++ [name]) ++ rest) = some entry := by
      rwa [List.append_assoc]
    have there : (tree.find? (location ++ [name])).isSome = true := by
      by_cases last : rest = []
      · rw [last, List.append_nil] at inside
        simp [inside]
      · simp [wellFormed.find?_directory last inside]
    have moved : tree.step location name = .ok (location ++ [name]) := by
      rw [step_eq (named name (by simp)) (wellFormed.find?_directory (by simp) found), if_pos there]
    rw [List.foldlM_cons, moved]
    have rested := ih (fun other mem => named other (by simp [mem])) inside
    rw [List.append_assoc] at rested
    exact rested

theorem WellFormed.isFile_of_grows (wellFormed : tree.WellFormed) (grows : Grows tree after)
    (located : tree.locate base = .ok location) (visible : base.text ≠ [])
    (named : ∀ name ∈ names, IsName name)
    (same : after.content? (location ++ names) = tree.content? (location ++ names))
    (there : after.isFile (names.foldl Path.join base) = true) :
    tree.isFile (names.foldl Path.join base) = true := by
  obtain ⟨last, reached, file⟩ := isFile_iff.mp there
  rw [locate_foldl_join visible named, grows.locate located] at reached
  obtain rfl : last = location ++ names := eq_append_of_foldlM_step named reached
  rw [same] at file
  obtain ⟨content, found⟩ := isSome_content?_iff.mp file
  refine isFile_iff.mpr ⟨location ++ names, ?_, file⟩
  rw [locate_foldl_join visible named, located]
  exact wellFormed.foldlM_step named found

end CallSchema.FileTree
