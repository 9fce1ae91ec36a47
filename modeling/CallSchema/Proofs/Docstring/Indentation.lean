import CallSchema.Docstring.Layout
import CallSchema.Proofs.Text.Lines

set_option autoImplicit false

namespace CallSchema.Docstring

structure Plain (line : Text) : Prop where
  newline : '\n' ∉ line
  tab : '\t' ∉ line
  trimEnd : Text.trimEnd line = line

def indentBy (width : Nat) (line : Text) : Text :=
  if line = [] then [] else List.replicate width ' ' ++ line

def emptyLines (count : Nat) : List Text := List.replicate count []

theorem plain_nil : Plain [] := ⟨by simp, by simp, rfl⟩

theorem mem_emptyLines {count : Nat} {line : Text} (h : line ∈ emptyLines count) : line = [] :=
  List.eq_of_mem_replicate h

namespace Plain

variable {line : Text}

theorem isLine (h : Plain line) : Text.IsLine line := by
  have visible := Text.getLast?_of_trimEnd_eq_self h.trimEnd
  refine ⟨h.newline, ?_⟩
  intro last
  exact absurd (visible '\r' last) (by decide)

theorem eq_nil_of_blank (h : Plain line) (blank : Text.blank line = true) : line = [] := by
  rw [← h.trimEnd]
  exact Text.trimEnd_eq_nil_iff.mpr blank

theorem blank_eq_false (h : Plain line) (visible : line ≠ []) : Text.blank line = false := by
  rw [← Bool.not_eq_true]
  exact fun blank => visible (h.eq_nil_of_blank blank)

theorem indentBy (h : Plain line) (width : Nat) : Plain (indentBy width line) := by
  by_cases empty : line = []
  · rw [Docstring.indentBy, if_pos empty]
    exact plain_nil
  · rw [Docstring.indentBy, if_neg empty]
    refine ⟨?_, ?_, Text.trimEnd_append_eq_self empty h.trimEnd _⟩
    · simp [h.newline]
    · simp [h.tab]

end Plain

theorem expandTabsFrom_of_not_mem {line : Text} (h : '\t' ∉ line) (column : Nat) :
    expandTabsFrom column line = line := by
  induction line generalizing column with
  | nil => rfl
  | cons c line ih =>
    have other : c ≠ '\t' := by
      rintro rfl
      exact h (by simp)
    rw [expandTabsFrom, if_neg other, ih fun mem => h (by simp [mem])]

theorem utf8Length_replicate_append (width : Nat) (t : Text) :
    Text.utf8Length (List.replicate width ' ' ++ t) = width + Text.utf8Length t := by
  induction width with
  | zero => rw [List.replicate_zero, List.nil_append, Nat.zero_add]
  | succ width ih =>
    have : Char.utf8Size ' ' = 1 := rfl
    rw [List.replicate_succ, List.cons_append, Text.utf8Length, ih]
    omega

theorem indentOf_replicate_append (width : Nat) (line : Text) :
    indentOf (List.replicate width ' ' ++ line) = width + indentOf line := by
  have spaces : ∀ c ∈ List.replicate width ' ', Text.isBlank c = true := by
    intro c mem
    rw [List.eq_of_mem_replicate mem]
    rfl
  rw [indentOf, List.takeWhile_append_of_pos spaces, utf8Length_replicate_append, indentOf]

theorem indentOf_of_visible {c : Char} (h : Text.isBlank c = false) (line : Text) :
    indentOf (c :: line) = 0 := by
  simp [indentOf, h, Text.utf8Length]

theorem exists_cons_of_indentOf {line : Text} (visible : line ≠ []) (flush : indentOf line = 0) :
    ∃ c rest, line = c :: rest ∧ Text.isBlank c = false := by
  obtain ⟨c, rest, rfl⟩ := List.exists_cons_of_ne_nil visible
  refine ⟨c, rest, rfl, ?_⟩
  by_contra blank
  rw [Bool.not_eq_false] at blank
  have := Char.utf8Size_pos c
  simp only [indentOf, List.takeWhile_cons_of_pos blank, Text.utf8Length] at flush
  omega

theorem dropBytes?_add_replicate_append (width more : Nat) (line : Text) :
    dropBytes? (width + more) (List.replicate width ' ' ++ line) = dropBytes? more line := by
  induction width with
  | zero => rw [List.replicate_zero, List.nil_append, Nat.zero_add]
  | succ width ih =>
    have one : Char.utf8Size ' ' = 1 := rfl
    rw [List.replicate_succ, List.cons_append, Nat.add_right_comm, dropBytes?, one,
      if_pos (Nat.le_add_left 1 _), Nat.add_sub_cancel, ih]

theorem margin_eq {ls : List Text} {width : Nat}
    (least : ∀ line ∈ ls, Text.blank line = false → width ≤ indentOf line)
    (found : ∃ line ∈ ls, Text.blank line = false ∧ indentOf line = width) : margin ls = width := by
  have smallest : ((ls.filter (!Text.blank ·)).map indentOf).min? = some width := by
    rw [List.min?_eq_some_iff]
    constructor
    · obtain ⟨line, mem, visible, rfl⟩ := found
      exact List.mem_map_of_mem (List.mem_filter.mpr ⟨mem, by simp [visible]⟩)
    · intro indent mem
      obtain ⟨line, kept, rfl⟩ := List.mem_map.mp mem
      obtain ⟨known, visible⟩ := List.mem_filter.mp kept
      exact least line known (by simpa using visible)
  rw [margin, smallest, Option.getD_some]

theorem margin_le {ls : List Text} {line : Text} (mem : line ∈ ls) (visible : Text.blank line = false) :
    margin ls ≤ indentOf line := by
  have known : indentOf line ∈ (ls.filter (!Text.blank ·)).map indentOf :=
    List.mem_map_of_mem (List.mem_filter.mpr ⟨mem, by simp [visible]⟩)
  cases smallest : ((ls.filter (!Text.blank ·)).map indentOf).min? with
  | none => simp [List.min?_eq_none_iff.mp smallest] at known
  | some least =>
    rw [margin, smallest, Option.getD_some]
    exact (List.min?_eq_some_iff.mp smallest).2 _ known

theorem exists_indentOf_eq_margin {ls : List Text} (h : ∃ line ∈ ls, Text.blank line = false) :
    ∃ line ∈ ls, Text.blank line = false ∧ indentOf line = margin ls := by
  obtain ⟨line, mem, visible⟩ := h
  cases smallest : ((ls.filter (!Text.blank ·)).map indentOf).min? with
  | none =>
    have none := List.map_eq_nil_iff.mp (List.min?_eq_none_iff.mp smallest)
    exact absurd (List.filter_eq_nil_iff.mp none line mem) (by simp [visible])
  | some least =>
    obtain ⟨first, kept, rfl⟩ := List.mem_map.mp (List.min?_eq_some_iff.mp smallest).1
    obtain ⟨known, shown⟩ := List.mem_filter.mp kept
    exact ⟨first, known, by simpa using shown, by rw [margin, smallest, Option.getD_some]⟩

def shiftLine (width : Nat) (line : Text) : Text :=
  if Text.blank line then line else List.replicate width ' ' ++ line

theorem shiftLine_of_blank (width : Nat) {line : Text} (h : Text.blank line = true) :
    shiftLine width line = line := if_pos h

theorem shiftLine_of_visible (width : Nat) {line : Text} (h : Text.blank line = false) :
    shiftLine width line = List.replicate width ' ' ++ line := if_neg (by simp [h])

@[simp] theorem blank_shiftLine (width : Nat) (line : Text) :
    Text.blank (shiftLine width line) = Text.blank line := by
  cases blank : Text.blank line with
  | true => rw [shiftLine_of_blank width blank, blank]
  | false => rw [shiftLine_of_visible width blank, Text.blank_append, Text.blank_replicate_space, blank,
      Bool.true_and]

theorem indentOf_shiftLine (width : Nat) {line : Text} (h : Text.blank line = false) :
    indentOf (shiftLine width line) = width + indentOf line := by
  rw [shiftLine_of_visible width h, indentOf_replicate_append]

theorem margin_shiftLine (width : Nat) {ls : List Text} (h : ∃ line ∈ ls, Text.blank line = false) :
    margin (ls.map (shiftLine width)) = width + margin ls := by
  obtain ⟨first, known, visible, least⟩ := exists_indentOf_eq_margin h
  apply margin_eq
  · intro moved mem shown
    obtain ⟨line, inside, rfl⟩ := List.mem_map.mp mem
    rw [blank_shiftLine] at shown
    rw [indentOf_shiftLine width shown]
    exact Nat.add_le_add_left (margin_le inside shown) width
  · refine ⟨shiftLine width first, List.mem_map_of_mem known, ?_, ?_⟩
    · rw [blank_shiftLine, visible]
    · rw [indentOf_shiftLine width visible, least]

theorem dropMargin_shiftLine (width margin : Nat) (line : Text) :
    dropMargin (width + margin) (shiftLine width line) = dropMargin margin line := by
  unfold dropMargin
  rw [blank_shiftLine]
  cases blank : Text.blank line with
  | true => rfl
  | false => rw [shiftLine_of_visible width blank, dropBytes?_add_replicate_append,
      Text.trimStart_append_of_blank (Text.blank_replicate_space width)]

theorem dedent_shiftLine (width : Nat) (ls : List Text) :
    dedent (ls.map (shiftLine width)) = dedent ls := by
  by_cases some : ∃ line ∈ ls, Text.blank line = false
  · rw [dedent, margin_shiftLine width some, List.map_map, dedent]
    exact List.map_congr_left fun line _ => dropMargin_shiftLine width _ line
  · have same : ls.map (shiftLine width) = ls := by
      refine (List.map_congr_left fun line mem => ?_).trans (List.map_id ls)
      refine shiftLine_of_blank width ?_
      by_contra visible
      exact some ⟨line, mem, by simpa using visible⟩
    rw [same]

def Level (ls : List Text) : Prop :=
  (∃ line ∈ ls, line ≠ []) → ∃ line ∈ ls, line ≠ [] ∧ indentOf line = 0

theorem margin_of_level {ls : List Text} (plain : ∀ line ∈ ls, Plain line) (level : Level ls) :
    margin ls = 0 := by
  by_cases visible : ∃ line ∈ ls, line ≠ []
  · obtain ⟨line, mem, some, flush⟩ := level visible
    exact margin_eq (fun _ _ _ => Nat.zero_le _) ⟨line, mem, (plain line mem).blank_eq_false some, flush⟩
  · have none : ls.filter (!Text.blank ·) = [] := by
      rw [List.filter_eq_nil_iff]
      intro line mem
      have empty : line = [] := by
        by_contra some
        exact visible ⟨line, mem, some⟩
      simp [empty]
    rw [margin, none]
    rfl

theorem dedent_eq_self {ls : List Text} (plain : ∀ line ∈ ls, Plain line) (level : Level ls) :
    dedent ls = ls := by
  rw [dedent, margin_of_level plain level]
  refine (List.map_congr_left fun line mem => ?_).trans (List.map_id ls)
  cases blank : Text.blank line with
  | true =>
    rw [(plain line mem).eq_nil_of_blank blank]
    rfl
  | false => rw [dropMargin, if_neg (by simp [blank]), dropBytes?, Option.getD_some,
      (plain line mem).trimEnd, id]

theorem Plain.shiftLine_eq {line : Text} (h : Plain line) (width : Nat) :
    shiftLine width line = Docstring.indentBy width line := by
  by_cases empty : line = []
  · subst empty
    rfl
  · rw [shiftLine_of_visible width (h.blank_eq_false empty), Docstring.indentBy, if_neg empty]

theorem dedent_indentBy {ls : List Text} (plain : ∀ line ∈ ls, Plain line) (level : Level ls)
    (width : Nat) : dedent (ls.map (indentBy width)) = ls := by
  have moved : ls.map (indentBy width) = ls.map (shiftLine width) :=
    List.map_congr_left fun line mem => ((plain line mem).shiftLine_eq width).symm
  rw [moved, dedent_shiftLine, dedent_eq_self plain level]

theorem dropWhile_emptyLines_append (count : Nat) (ls : List Text) :
    (emptyLines count ++ ls).dropWhile List.isEmpty = ls.dropWhile List.isEmpty := by
  induction count with
  | zero => rfl
  | succ count ih =>
    rw [emptyLines, List.replicate_succ, List.cons_append, List.dropWhile_cons_of_pos rfl]
    exact ih

theorem dropWhile_eq_self {ls : List Text} (first : ls.head? ≠ some []) :
    ls.dropWhile List.isEmpty = ls := by
  cases ls with
  | nil => rfl
  | cons line rest =>
    have visible : ¬ List.isEmpty line = true := by simpa using first
    exact List.dropWhile_cons_of_neg visible

theorem trimEmpty_emptyLines_append {ls : List Text} (first : ls.head? ≠ some [])
    (last : ls.getLast? ≠ some []) (before after : Nat) :
    trimEmpty (emptyLines before ++ (ls ++ emptyLines after)) = ls := by
  have reversed : (emptyLines after).reverse = emptyLines after := List.reverse_replicate
  by_cases none : ls = []
  · subst none
    rw [trimEmpty, dropWhile_emptyLines_append, List.nil_append, ← List.append_nil (emptyLines after),
      dropWhile_emptyLines_append]
    rfl
  · have start : (ls ++ emptyLines after).head? ≠ some [] := by
      obtain ⟨line, rest, rfl⟩ := List.exists_cons_of_ne_nil none
      exact first
    have stop : ls.reverse.head? ≠ some [] := by rwa [List.head?_reverse]
    rw [trimEmpty, dropWhile_emptyLines_append, dropWhile_eq_self start, List.reverse_append, reversed,
      dropWhile_emptyLines_append, dropWhile_eq_self stop, List.reverse_reverse]

end CallSchema.Docstring
