import CallSchema.FileTree.Path
import CallSchema.Proofs.Text.Strip
import Mathlib.Data.List.TakeWhile
import Mathlib.Tactic.Common

set_option autoImplicit false

namespace CallSchema.Path

structure IsName (name : Text) : Prop where
  visible : name ≠ []
  plain : '/' ∉ name
  here : name ≠ ['.']
  above : name ≠ ['.', '.']

instance (name : Text) : Decidable (IsName name) :=
  decidable_of_iff (name ≠ [] ∧ '/' ∉ name ∧ name ≠ ['.'] ∧ name ≠ ['.', '.'])
    ⟨fun h => ⟨h.1, h.2.1, h.2.2.1, h.2.2.2⟩, fun h => ⟨h.visible, h.plain, h.here, h.above⟩⟩

theorem join_cases (base : Path) {name : Text} (plain : '/' ∉ name) :
    (base.text = [] ∧ base.join name = ⟨name⟩) ∨
      ∃ stem, (base.text = stem ++ ['/'] ∨ base.text = stem ∧ stem ≠ []) ∧
        base.join name = ⟨stem ++ '/' :: name⟩ := by
  have relative : name.head? ≠ some '/' := fun first => plain (List.mem_of_head? first)
  by_cases empty : base.text = []
  · refine .inl ⟨empty, ?_⟩
    simp [join, relative, empty]
  · by_cases closed : base.text.getLast? = some '/'
    · obtain ⟨stem, whole⟩ := List.getLast?_eq_some_iff.mp closed
      refine .inr ⟨stem, .inl whole, ?_⟩
      rw [join, if_neg relative, if_pos (.inr closed), whole, List.append_assoc]
      rfl
    · refine .inr ⟨base.text, .inr ⟨rfl, empty⟩, ?_⟩
      rw [join, if_neg relative, if_neg (by simp [empty, closed])]

theorem join_text_ne_nil (base : Path) {name : Text} (named : IsName name) :
    (base.join name).text ≠ [] := by
  rcases base.join_cases named.plain with ⟨-, joined⟩ | ⟨stem, -, joined⟩
  · rw [joined]
    exact named.visible
  · rw [joined]
    simp

theorem segments_join (base : Path) {name : Text} (plain : '/' ∉ name) :
    (base.text = [] ∧ (base.join name).segments = [name]) ∨
      ∃ before, (base.segments = before ++ [[]] ∨ base.segments = before) ∧
        (base.join name).segments = before ++ [name] := by
  rcases base.join_cases plain with ⟨empty, joined⟩ | ⟨stem, found, joined⟩
  · exact .inl ⟨empty, by rw [joined, segments, Text.pieces_of_not_mem plain]⟩
  · refine .inr ⟨Text.pieces '/' stem, ?_, ?_⟩
    · rcases found with closed | ⟨open_, -⟩
      · left
        rw [segments, closed, Text.pieces_append_mark]
        rfl
      · right
        rw [segments, open_]
    · rw [joined, segments, Text.pieces_append_mark, Text.pieces_of_not_mem plain]

theorem names_join (base : Path) {name : Text} (named : IsName name) :
    (base.join name).names = base.names ++ [name] := by
  have kept : [name].filter (fun name => name ≠ [] ∧ name ≠ ['.']) = [name] := by
    simp [named.visible, named.here]
  rcases base.segments_join named.plain with ⟨empty, joined⟩ | ⟨before, found, joined⟩
  · rw [names, joined, kept, names, segments, empty]
    rfl
  · rw [names, joined, List.filter_append, kept, names]
    rcases found with closed | whole
    · rw [closed, List.filter_append]
      simp
    · rw [whole]

theorem names_foldl_join (base : Path) {names : List Text} (named : ∀ name ∈ names, IsName name) :
    (names.foldl join base).names = base.names ++ names := by
  induction names generalizing base with
  | nil => simp
  | cons name rest ih =>
    rw [List.foldl_cons, ih _ fun other mem => named other (by simp [mem]),
      names_join _ (named name (by simp)), List.append_assoc]
    rfl

theorem dropIdle_name {name : Text} (named : IsName name) (rest : Text) :
    dropIdle (name.reverse ++ rest) = name.reverse ++ rest := by
  obtain ⟨visible, plain, here, -⟩ := named
  rcases List.eq_nil_or_concat name with rfl | ⟨before, c, rfl⟩
  · exact absurd rfl visible
  · have last : c ≠ '/' := fun same => plain (by simp [same])
    rw [List.concat_eq_append, List.reverse_concat, List.cons_append]
    -- Only a dot could be passed over, and it would have to be the whole name.
    rcases List.eq_nil_or_concat before with rfl | ⟨earlier, d, rfl⟩
    · have other : c ≠ '.' := fun same => here (by simp [same])
      simp [dropIdle, last, other]
    · have next : d ≠ '/' := fun same => plain (by simp [same])
      rw [List.concat_eq_append, List.reverse_concat, List.cons_append]
      simp [dropIdle, last, next]

theorem dropIdle_join (base : Path) {name : Text} (named : IsName name) :
    dropIdle (base.join name).text.reverse = (base.join name).text.reverse := by
  rcases base.join_cases named.plain with ⟨-, joined⟩ | ⟨stem, -, joined⟩
  · simpa [joined] using dropIdle_name named []
  · rw [joined, List.reverse_append, List.reverse_cons, List.append_assoc]
    exact dropIdle_name named _

theorem getLast?_join (base : Path) {name : Text} (named : IsName name) :
    (base.join name).text.getLast? ≠ some '/' := by
  obtain ⟨rest, c, rfl⟩ := List.eq_nil_or_concat name |>.resolve_left named.visible
  have other : c ≠ '/' := fun same => named.plain (by simp [same])
  rcases base.join_cases named.plain with ⟨-, joined⟩ | ⟨stem, -, joined⟩
  · rw [joined]
    simpa using other
  · have last : stem ++ '/' :: rest.concat c = (stem ++ '/' :: rest) ++ [c] := by simp
    rw [joined, last, List.getLast?_concat]
    simpa using other

theorem splitLast?_join (base : Path) {name : Text} (named : IsName name) :
    (base.text = [] ∧ (base.join name).splitLast? = some ([], name)) ∨
      ∃ stem, (base.text = stem ++ ['/'] ∨ base.text = stem ∧ stem ≠ []) ∧
        (base.join name).splitLast? = some (stem ++ ['/'], name) := by
  have plain : ∀ c ∈ name.reverse, (decide (c ≠ '/')) = true := by
    intro c mem
    have inside : c ∈ name := List.mem_reverse.mp mem
    simpa using fun same : c = '/' => named.plain (same ▸ inside)
  have visible : name.isEmpty = false := by simpa using named.visible
  rcases base.join_cases named.plain with ⟨empty, joined⟩ | ⟨stem, found, joined⟩
  · refine .inl ⟨empty, ?_⟩
    have settled := dropIdle_name named []
    rw [List.append_nil] at settled
    rw [joined, splitLast?, settled, List.takeWhile_eq_self_iff.mpr plain,
      List.dropWhile_eq_nil_iff.mpr plain]
    simp [visible]
  · refine .inr ⟨stem, found, ?_⟩
    have backwards : (stem ++ '/' :: name).reverse = name.reverse ++ '/' :: stem.reverse := by simp
    rw [joined, splitLast?, backwards, dropIdle_name named,
      List.takeWhile_append_of_pos plain, List.dropWhile_append_of_pos plain]
    simp [visible]

theorem fileName?_join (base : Path) {name : Text} (named : IsName name) :
    (base.join name).fileName? = some name := by
  have kept : (some name).filter (fun name => name ≠ ['.'] ∧ name ≠ ['.', '.']) = some name := by
    simp [Option.filter, named.here, named.above]
  rcases base.splitLast?_join named with ⟨-, split⟩ | ⟨stem, -, split⟩
  · rw [fileName?, split, Option.map_some, kept]
  · rw [fileName?, split, Option.map_some, kept]

theorem of_splitLast? {path : Path} {before name : Text}
    (h : path.splitLast? = some (before, name)) : name ≠ [] ∧ '/' ∉ name ∧
      before ++ name = (dropIdle path.text.reverse).reverse ∧
      (before = [] ∨ ∃ rest, before = rest ++ ['/']) := by
  simp only [splitLast?] at h
  generalize dropIdle path.text.reverse = backwards at h
  split at h
  · cases h
  · next visible =>
    cases h
    refine ⟨by simpa using visible, ?_, ?_, ?_⟩
    · intro mem
      simpa using List.mem_takeWhile_imp (List.mem_reverse.mp mem)
    · rw [← List.reverse_append, List.takeWhile_append_dropWhile]
    · cases cut : backwards.dropWhile fun c => decide (c ≠ '/') with
      | nil => exact .inl rfl
      | cons c rest =>
        have slash := List.head?_dropWhile_not (fun c => decide (c ≠ '/')) backwards
        rw [cut] at slash
        obtain rfl : c = '/' := by simpa using slash
        exact .inr ⟨rest.reverse, by simp⟩

theorem isName_of_fileName? {path : Path} {name : Text} (h : path.fileName? = some name) :
    IsName name := by
  obtain ⟨found, other⟩ := Option.filter_eq_some_iff.mp h
  obtain ⟨parts, split, rfl⟩ := Option.map_eq_some_iff.mp found
  obtain ⟨visible, plain, -⟩ := of_splitLast? split
  simp only [ne_eq, decide_eq_true_eq] at other
  exact ⟨visible, plain, other.1, other.2⟩

theorem text_ne_nil_of_fileName? {path : Path} {name : Text} (h : path.fileName? = some name) :
    path.text ≠ [] := by
  intro empty
  simp [fileName?, splitLast?, empty, dropIdle] at h

theorem parent?_join (base : Path) {name inner : Text} (named : IsName name)
    (innerNamed : IsName inner) :
    ((base.join name).join inner).parent? = some (base.join name) := by
  have idle := base.dropIdle_join named
  rcases (base.join name).splitLast?_join innerNamed with ⟨empty, -⟩ | ⟨stem, found, split⟩
  · exact absurd empty (base.join_text_ne_nil named)
  · have whole : (base.join name).text = stem := by
      rcases found with closed | ⟨whole, -⟩
      · exact absurd (by rw [closed, List.getLast?_concat]) (base.getLast?_join named)
      · exact whole
    have rest : (dropIdle (stem ++ ['/']).reverse).reverse = (base.join name).text := by
      rw [List.reverse_concat, dropIdle, ← whole, idle, List.reverse_reverse]
    have filled : (base.join name).text.isEmpty = false := by
      simpa using base.join_text_ne_nil named
    rw [parent?, split, Option.map_some]
    simp only [rest, filled, Bool.false_and, Bool.false_eq_true, if_false]

theorem fileName?_absolute_join (current base : Path) {name : Text} (named : IsName name) :
    (absolute current (base.join name)).fileName? = some name := by
  rw [absolute, if_neg (base.getLast?_join named), base.names_join named, List.foldl_append,
    List.foldl_cons, List.foldl_nil]
  exact fileName?_join _ named

theorem names_append (before after : Text) :
    names ⟨before ++ '/' :: after⟩ = names ⟨before⟩ ++ names ⟨after⟩ := by
  simp only [names, segments, Text.pieces_append_mark, List.filter_append]

theorem names_closed (before : Text) : names ⟨before ++ ['/']⟩ = names ⟨before⟩ := by
  rw [names_append]
  simp [names, segments, Text.pieces]

theorem names_dropIdle (backwards : Text) :
    names ⟨(dropIdle backwards).reverse⟩ = names ⟨backwards.reverse⟩ := by
  fun_induction dropIdle backwards with
  | case1 t ih =>
    rw [ih, List.reverse_cons, names_closed]
  | case2 t ih =>
    have dots : ('.' :: '/' :: t).reverse = t.reverse ++ ['/', '.'] := by simp
    rw [ih, dots, names_append]
    simp [names, segments, Text.pieces, Text.addToFirst]
  | case3 t => rfl

theorem names_append_of_closed {before : Text} (closed : before = [] ∨ ∃ rest, before = rest ++ ['/'])
    (last : Text) : names ⟨before ++ last⟩ = names ⟨before⟩ ++ names ⟨last⟩ := by
  rcases closed with rfl | ⟨rest, rfl⟩
  · simp [names, segments, Text.pieces]
  · rw [names_closed, ← names_append, List.append_assoc]
    rfl

theorem names_of_splitLast? {path : Path} {before name : Text}
    (h : path.splitLast? = some (before, name)) : path.names = names ⟨before⟩ ++ names ⟨name⟩ := by
  obtain ⟨-, -, whole, closed⟩ := of_splitLast? h
  rw [← names_append_of_closed closed, whole, names_dropIdle, List.reverse_reverse]

theorem names_of_parent?_of_splitLast? {path parent : Path} {before name : Text}
    (split : path.splitLast? = some (before, name)) (above : path.parent? = some parent) :
    parent.names = names ⟨before⟩ := by
  have kept : names ⟨(dropIdle before.reverse).reverse⟩ = names ⟨before⟩ := by
    rw [names_dropIdle, List.reverse_reverse]
  rw [parent?, split, Option.map_some, Option.some.injEq] at above
  rw [← kept, ← above]
  cases empty : (dropIdle before.reverse).reverse with
  | nil => cases path.isAbsolute <;> simp [names, segments, Text.pieces]
  | cons c rest => simp

theorem names_of_parent? {path parent : Path} (h : path.parent? = some parent) :
    ∃ last : List Text, last.length ≤ 1 ∧ path.names = parent.names ++ last := by
  obtain ⟨⟨before, name⟩, split, -⟩ := Option.map_eq_some_iff.mp h
  obtain ⟨-, plain, -, -⟩ := of_splitLast? split
  have last : (names ⟨name⟩).length ≤ 1 := by
    rw [names, segments, Text.pieces_of_not_mem plain]
    exact List.length_filter_le _ _
  refine ⟨names ⟨name⟩, last, ?_⟩
  rw [names_of_parent?_of_splitLast? split h, names_of_splitLast? split]

theorem length_names_parent (path : Path) :
    path.names.length ≤ (path.parent?.getD path).names.length + 1 ∧
      (path.parent?.getD path).names.length ≤ path.names.length := by
  cases above : path.parent? with
  | none => exact ⟨Nat.le_succ _, Nat.le_refl _⟩
  | some parent =>
    obtain ⟨last, short, whole⟩ := names_of_parent? above
    rw [whole, List.length_append, Option.getD_some]
    omega

theorem names_join_relative (base : Path) {rest : Text} (relative : rest.head? ≠ some '/') :
    (base.join rest).names = base.names ++ names ⟨rest⟩ := by
  by_cases empty : base.text = []
  · rw [join, if_neg relative, if_pos (.inl empty), names, names, segments, segments, empty]
    rfl
  · by_cases closed : base.text.getLast? = some '/'
    · obtain ⟨stem, whole⟩ := List.getLast?_eq_some_iff.mp closed
      have own : base.names = names ⟨stem⟩ := by
        rw [← names_closed stem, ← whole]
      rw [join, if_neg relative, if_pos (.inr closed), own, ← names_append, whole,
        List.append_assoc]
      rfl
    · rw [join, if_neg relative, if_neg (by simp [empty, closed]), names_append]

theorem names_join_nil (base : Path) : (base.join []).names = base.names := by
  rw [names_join_relative base (by simp)]
  exact List.append_nil _

theorem length_names_join_le {first second : Path} (extra : Nat)
    (h : first.names.length ≤ second.names.length + extra) (rest : Text) :
    (first.join rest).names.length ≤ (second.join rest).names.length + extra := by
  by_cases relative : rest.head? = some '/'
  · rw [join, if_pos relative, join, if_pos relative]
    exact Nat.le_add_right _ _
  · rw [names_join_relative _ relative, names_join_relative _ relative, List.length_append,
      List.length_append]
    omega

theorem names_cons_le (c : Char) (t : Text) :
    (names ⟨c :: t⟩).length ≤ (names ⟨t⟩).length + 1 := by
  by_cases slash : c = '/'
  · simp [names, segments, Text.pieces, slash]
  · rw [names, names, segments, segments, Text.pieces, if_neg slash]
    cases found : Text.pieces '/' t with
    | nil => exact absurd found (Text.pieces_ne_nil '/' t)
    | cons first rest =>
      -- The first piece may become a name, and the others stay as they are.
      rw [Text.addToFirst, List.filter_cons, List.filter_cons]
      split <;> split <;> grind

theorem length_names_le (path : Path) : path.names.length ≤ path.text.length := by
  obtain ⟨t⟩ := path
  induction t with
  | nil => simp [names, segments, Text.pieces]
  | cons c t ih => exact (names_cons_le c t).trans (Nat.succ_le_succ ih)

theorem length_names_lt {path : Path} (absolute : path.isAbsolute = true) :
    path.names.length < path.text.length := by
  obtain ⟨t⟩ := path
  cases t with
  | nil => cases absolute
  | cons c t =>
    obtain rfl : c = '/' := by simpa [isAbsolute] using absolute
    have same : names ⟨'/' :: t⟩ = names ⟨t⟩ := by simp [names, segments, Text.pieces]
    rw [same]
    exact Nat.lt_succ_of_le (length_names_le ⟨t⟩)

theorem isAbsolute_join {base : Path} (absolute : base.isAbsolute = true) (rest : Text) :
    (base.join rest).isAbsolute = true := by
  obtain ⟨t⟩ := base
  cases t with
  | nil => cases absolute
  | cons c t =>
    unfold join
    split
    · next first => simp [isAbsolute, first]
    · split
      · exact absolute
      · exact absolute

theorem isAbsolute_foldl_join {base : Path} (absolute : base.isAbsolute = true)
    (names : List Text) : (names.foldl join base).isAbsolute = true := by
  induction names generalizing base with
  | nil => exact absolute
  | cons name rest ih => exact ih (isAbsolute_join absolute name)

theorem isAbsolute_absolute {current : Path} (rooted : current.isAbsolute = true) (path : Path) :
    (absolute current path).isAbsolute = true := by
  have started : (start current path).isAbsolute = true := by
    unfold start
    split
    · rfl
    · rfl
    · rfl
    · exact rooted
  have whole := isAbsolute_foldl_join started path.names
  unfold absolute
  dsimp only
  split
  · exact isAbsolute_join whole []
  · exact whole

end CallSchema.Path
