import CallSchema.Proofs.FileTree.Path

set_option autoImplicit false

namespace CallSchema

namespace Text

theorem mem_of_mem_pieces {mark c : Char} {t piece : Text} (h : piece ∈ pieces mark t)
    (inside : c ∈ piece) : c ∈ t := by
  induction t generalizing piece with
  | nil => simp_all [pieces]
  | cons d t ih =>
    by_cases same : d = mark
    · rw [pieces, if_pos same] at h
      rcases List.mem_cons.mp h with rfl | later
      · cases inside
      · exact .tail _ (ih later inside)
    · rw [pieces, if_neg same] at h
      cases known : pieces mark t with
      | nil => exact absurd known (pieces_ne_nil mark t)
      | cons first rest =>
        rw [known] at h ih
        rcases List.mem_cons.mp h with rfl | later
        · rcases List.mem_cons.mp inside with rfl | inner
          · exact .head _
          · exact .tail _ (ih (.head _) inner)
        · exact .tail _ (ih (.tail _ later) inside)

end Text

namespace Path

variable {path base parent : Path} {name rest before : Text} {init : List Text}

/-! ### Names at the end of a path -/

theorem head?_dropIdle (t : Text) : (dropIdle t).head? ≠ some '/' := by
  fun_induction dropIdle t with
  | case1 t ih => exact ih
  | case2 t ih => exact ih
  | case3 t slash dots => cases t <;> simp_all

theorem dropIdle_ne_dot (t rest : Text) : dropIdle t ≠ '.' :: '/' :: rest := by
  fun_induction dropIdle t with
  | case1 t ih => exact ih
  | case2 t ih => exact ih
  | case3 t slash dots => simp_all

theorem dropIdle_suffix (t : Text) : dropIdle t <:+ t := by
  fun_induction dropIdle t with
  | case1 t ih => exact ih.trans (List.suffix_cons _ _)
  | case2 t ih => exact (ih.trans (List.suffix_cons _ _)).trans (List.suffix_cons _ _)
  | case3 t slash dots => exact List.suffix_refl _

theorem names_of_text (plain : '/' ∉ name) (visible : name ≠ []) (here : name ≠ ['.']) :
    names ⟨name⟩ = [name] := by
  simp [names, segments, Text.pieces_of_not_mem plain, visible, here]

theorem names_of_isName (named : IsName name) : names ⟨name⟩ = [name] :=
  names_of_text named.plain named.visible named.here

theorem names_of_splitLast?_none (h : path.splitLast? = none) : path.names = [] := by
  have kept : path.names = names ⟨(dropIdle path.text.reverse).reverse⟩ := by
    rw [names_dropIdle, List.reverse_reverse]
  have first := head?_dropIdle path.text.reverse
  simp only [splitLast?] at h
  cases idle : dropIdle path.text.reverse with
  | nil =>
    rw [kept, idle]
    rfl
  | cons c rest =>
    have slash : c ≠ '/' := by simpa [idle] using first
    simp [idle, slash] at h

theorem names_of_splitLast?_dot (h : path.splitLast? = some (before, ['.'])) : path.names = [] := by
  obtain ⟨-, -, whole, closed⟩ := of_splitLast? h
  rcases closed with rfl | ⟨rest, rfl⟩
  · rw [names_of_splitLast? h]
    decide
  · have backwards : dropIdle path.text.reverse = '.' :: '/' :: rest.reverse := by
      rw [← List.reverse_reverse (dropIdle path.text.reverse), ← whole]
      simp
    exact absurd backwards (dropIdle_ne_dot _ _)

theorem exists_splitLast? (h : path.fileName? = some name) :
    ∃ before, path.splitLast? = some (before, name) := by
  obtain ⟨found, -⟩ := Option.filter_eq_some_iff.mp h
  obtain ⟨⟨before, last⟩, split, rfl⟩ := Option.map_eq_some_iff.mp found
  exact ⟨before, split⟩

theorem fileName?_eq_some_iff :
    path.fileName? = some name ↔ IsName name ∧ ∃ init, path.names = init ++ [name] := by
  constructor
  · intro found
    have named := isName_of_fileName? found
    obtain ⟨before, split⟩ := exists_splitLast? found
    exact ⟨named, _, by rw [names_of_splitLast? split, names_of_isName named]⟩
  · rintro ⟨named, init, whole⟩
    cases split : path.splitLast? with
    | none => simp [names_of_splitLast?_none split] at whole
    | some parts =>
      obtain ⟨before, last⟩ := parts
      obtain ⟨visible, plain, -, -⟩ := of_splitLast? split
      have here : last ≠ ['.'] := by
        rintro rfl
        simp [names_of_splitLast?_dot split] at whole
      have ends := names_of_splitLast? split
      rw [names_of_text plain visible here, whole] at ends
      obtain ⟨-, same⟩ := List.append_inj' ends rfl
      obtain rfl : name = last := by simpa using same
      simp [fileName?, split, Option.filter, named.here, named.above]

/-! ### The path above, and joined ones -/

theorem isAbsolute_of_prefix_text (shorter : rest <+: path.text) (visible : rest ≠ []) :
    isAbsolute ⟨rest⟩ = path.isAbsolute := by
  obtain ⟨more, whole⟩ := shorter
  cases rest with
  | nil => exact absurd rfl visible
  | cons c rest => simp [isAbsolute, ← whole]

theorem text_ne_nil_of_isAbsolute (absolute : path.isAbsolute = true) : path.text ≠ [] := by
  intro empty
  simp [isAbsolute, empty] at absolute

theorem isAbsolute_of_parent? (h : path.parent? = some parent) :
    parent.isAbsolute = path.isAbsolute := by
  obtain ⟨⟨before, last⟩, split, found⟩ := Option.map_eq_some_iff.mp h
  obtain ⟨-, -, whole, -⟩ := of_splitLast? split
  have shorter : (dropIdle before.reverse).reverse <+: path.text := by
    have inner : (dropIdle before.reverse).reverse <+: before := by
      simpa using List.reverse_prefix.mpr (dropIdle_suffix before.reverse)
    have outer : (dropIdle path.text.reverse).reverse <+: path.text := by
      simpa using List.reverse_prefix.mpr (dropIdle_suffix path.text.reverse)
    exact (inner.trans ⟨last, whole⟩).trans outer
  dsimp only at found
  generalize (dropIdle before.reverse).reverse = rest at found shorter
  subst found
  cases rest with
  | nil => cases path.isAbsolute <;> rfl
  | cons c rest => exact isAbsolute_of_prefix_text shorter (by simp)

theorem isAbsolute_join_relative (relative : rest.head? ≠ some '/') :
    (base.join rest).isAbsolute = base.isAbsolute := by
  obtain ⟨text⟩ := base
  cases text with
  | nil => simp [join, relative, isAbsolute]
  | cons c text =>
    unfold join
    rw [if_neg relative]
    split <;> simp [isAbsolute]

theorem head?_of_isName (named : IsName name) : name.head? ≠ some '/' :=
  fun first => named.plain (List.mem_of_mem_head? first)

theorem isAbsolute_join_name (named : IsName name) :
    (base.join name).isAbsolute = base.isAbsolute :=
  isAbsolute_join_relative (head?_of_isName named)

theorem exists_parent?_join (visible : base.text ≠ []) (named : IsName name) :
    ∃ parent, (base.join name).parent? = some parent ∧
      parent.isAbsolute = base.isAbsolute ∧ parent.names = base.names := by
  rcases base.splitLast?_join named with ⟨empty, -⟩ | ⟨stem, found, split⟩
  · exact absurd empty visible
  have above : ∃ parent, (base.join name).parent? = some parent := by simp [parent?, split]
  obtain ⟨parent, above⟩ := above
  refine ⟨parent, above, (isAbsolute_of_parent? above).trans (isAbsolute_join_name named), ?_⟩
  rw [names_of_parent?_of_splitLast? split above, names_closed]
  rcases found with closed | ⟨whole, -⟩
  · rw [← names_closed, ← closed]
  · rw [← whole]

/-! ### Paths that start from the root -/

theorem of_mem_names (mem : name ∈ path.names) : name ≠ [] ∧ '/' ∉ name ∧ name ≠ ['.'] := by
  obtain ⟨piece, proper⟩ := List.mem_filter.mp mem
  simp only [ne_eq, decide_eq_true_eq] at proper
  exact ⟨proper.1, Text.not_mem_of_mem_pieces piece, proper.2⟩

theorem names_foldl_join_names (base path : Path) :
    (path.names.foldl join base).names = base.names ++ path.names := by
  have plain : ∀ name ∈ path.names, name ≠ [] ∧ '/' ∉ name ∧ name ≠ ['.'] :=
    fun name => of_mem_names
  generalize path.names = names at plain
  induction names generalizing base with
  | nil => simp
  | cons name rest ih =>
    obtain ⟨visible, free, here⟩ := plain name (by simp)
    have relative : name.head? ≠ some '/' := fun first => free (List.mem_of_mem_head? first)
    rw [List.foldl_cons, ih _ fun other mem => plain other (by simp [mem]),
      names_join_relative base relative, names_of_text free visible here, List.append_assoc]
    rfl

theorem names_start (current path : Path) :
    (start current path).names = if path.isAbsolute then [] else current.names := by
  obtain ⟨text⟩ := path
  unfold start isAbsolute
  split
  · next rest whole => simp_all [names, segments, Text.pieces]
  · next rest _ whole => simp_all [names, segments, Text.pieces]
  · next rest _ _ whole => simp_all [names, segments, Text.pieces]
  · next relative =>
    have other : text.head? ≠ some '/' := by
      cases text with
      | nil => simp
      | cons c rest => exact fun first => relative rest (by simpa using first)
    simp [other]

theorem absolute_of_empty (empty : path.text = []) (current : Path) :
    absolute current path = current := by
  simp [absolute, names, segments, start, empty, Text.pieces]

theorem names_absolute (current path : Path) : (absolute current path).names =
    (if path.isAbsolute then [] else current.names) ++ path.names := by
  unfold absolute
  split
  · rw [names_join_nil, names_foldl_join_names, names_start]
  · rw [names_foldl_join_names, names_start]

/-! ### Extensions -/

theorem stemOf_prefix_name (name : Text) : stemOf name <+: name := by
  unfold stemOf
  split
  · next c before after found =>
    obtain ⟨⟨first, second⟩, split, same⟩ := Option.map_eq_some_iff.mp found
    have whole := congrArg List.reverse (Text.append_of_splitFirst? split)
    simp only [Prod.mk.injEq] at same
    refine ⟨'.' :: after, ?_⟩
    simpa [← same.1, ← same.2] using whole.symm
  · exact List.prefix_refl _

theorem stemOf_ne_nil (visible : name ≠ []) : stemOf name ≠ [] := by
  unfold stemOf
  split
  · simp
  · exact visible

theorem isName_extended (named : IsName name) {extension : Text} (plain : '/' ∉ extension)
    (visible : extension ≠ []) : IsName (stemOf name ++ '.' :: extension) := by
  have filled := List.length_pos_iff.mpr (stemOf_ne_nil named.visible)
  have more := List.length_pos_iff.mpr visible
  have long : 3 ≤ (stemOf name ++ '.' :: extension).length := by
    simp only [List.length_append, List.length_cons]
    omega
  refine ⟨?_, ?_, ?_, ?_⟩
  · intro same
    simp [same] at long
  · have free : '/' ∉ stemOf name := fun mem => named.plain ((stemOf_prefix_name name).subset mem)
    simp [free, plain]
  · intro same
    simp [same] at long
  · intro same
    simp [same] at long

theorem withExtension_of_fileName? {extension : Text} (plain : '/' ∉ extension)
    (visible : extension ≠ []) (found : path.fileName? = some name) :
    (path.withExtension extension).isAbsolute = path.isAbsolute ∧
      ∃ init, path.names = init ++ [name] ∧
        (path.withExtension extension).names = init ++ [stemOf name ++ '.' :: extension] := by
  have named := isName_of_fileName? found
  have extended := isName_extended named plain visible
  obtain ⟨before, split⟩ := exists_splitLast? found
  obtain ⟨-, -, whole, closed⟩ := of_splitLast? split
  have text : path.withExtension extension = ⟨before ++ (stemOf name ++ '.' :: extension)⟩ := by
    simp only [withExtension, split, found, Option.isSome_some, if_true, List.append_assoc]
  refine ⟨?_, names ⟨before⟩, ?_, ?_⟩
  · have outer : before ++ name <+: path.text := by
      rw [whole]
      simpa using List.reverse_prefix.mpr (dropIdle_suffix path.text.reverse)
    rw [text]
    by_cases first : before = []
    · -- Neither the last name nor the one with the extension begins with a slash.
      have relative : path.isAbsolute = false := by
        rw [first] at outer
        rw [← isAbsolute_of_prefix_text outer named.visible]
        simpa [isAbsolute] using head?_of_isName named
      rw [first, relative]
      simpa [isAbsolute] using head?_of_isName extended
    · have own : isAbsolute ⟨before⟩ = path.isAbsolute :=
        isAbsolute_of_prefix_text ((List.prefix_append _ _).trans outer) first
      have other : isAbsolute ⟨before⟩ = isAbsolute ⟨before ++ (stemOf name ++ '.' :: extension)⟩ :=
        isAbsolute_of_prefix_text (List.prefix_append _ _) first
      exact other.symm.trans own
  · rw [names_of_splitLast? split, names_of_isName named]
  · rw [text, names_append_of_closed closed, names_of_isName extended]

theorem withExtension_of_fileName?_none (found : path.fileName? = none) (extension : Text) :
    path.withExtension extension = path := by
  unfold withExtension
  cases path.splitLast? <;> simp [found]

end Path

end CallSchema
