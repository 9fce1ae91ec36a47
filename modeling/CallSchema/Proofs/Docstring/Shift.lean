import CallSchema.Docstring.Reading
import CallSchema.Proofs.Docstring.Indentation
import CallSchema.Proofs.Text.Strip

set_option autoImplicit false

namespace CallSchema.Docstring

def shiftRest (width : Nat) : List Text → List Text
  | [] => []
  | first :: rest => first :: rest.map (shiftLine width)

def shifted (width : Nat) (t : Text) : Text :=
  Text.joinLines (shiftRest width (Text.pieces '\n' t))

section Lines

theorem newline_not_mem_shiftLine {line : Text} (h : '\n' ∉ line) (width : Nat) :
    '\n' ∉ shiftLine width line := by
  unfold shiftLine
  split
  · exact h
  · simp [h]

theorem withoutReturn_shiftLine (width : Nat) (line : Text) :
    Text.withoutReturn (shiftLine width line) = shiftLine width (Text.withoutReturn line) := by
  have same : Text.blank (Text.withoutReturn line) = Text.blank line := by
    rw [Bool.eq_iff_iff, ← Text.trim_eq_nil_iff, Text.trim_withoutReturn, Text.trim_eq_nil_iff]
  cases blank : Text.blank line with
  | true => rw [shiftLine_of_blank width blank, shiftLine_of_blank width (same.trans blank)]
  | false =>
    have some : line ≠ [] := by
      rintro rfl
      cases blank
    rw [shiftLine_of_visible width blank, shiftLine_of_visible width (same.trans blank)]
    unfold Text.withoutReturn
    rw [List.getLast?_append_of_ne_nil _ some, List.dropLast_append_of_ne_nil some]
    split <;> rfl

theorem lines_joinLines_shiftLine (width : Nat) {ls : List Text} (h : ∀ line ∈ ls, '\n' ∉ line) :
    Text.lines (Text.joinLines (ls.map (shiftLine width))) =
      (Text.lines (Text.joinLines ls)).map (shiftLine width) := by
  induction ls with
  | nil => rfl
  | cons line rest ih =>
    have whole := h line (by simp)
    have moved := newline_not_mem_shiftLine whole width
    by_cases only : rest = []
    · subst only
      by_cases empty : line = []
      · subst empty
        rfl
      · have some : shiftLine width line ≠ [] := by
          unfold shiftLine
          split <;> simp [empty]
        rw [List.map_singleton, Text.joinLines_singleton, Text.joinLines_singleton,
          Text.lines_of_newline_not_mem moved some, Text.lines_of_newline_not_mem whole empty,
          List.map_singleton]
    · rw [List.map_cons, Text.joinLines_cons (by simp [only]), Text.joinLines_cons only,
        Text.lines_append_newline moved, Text.lines_append_newline whole, List.map_cons,
        withoutReturn_shiftLine, ih fun other mem => h other (by simp [mem])]

theorem lines_shifted (width : Nat) (t : Text) :
    Text.lines (shifted width t) = shiftRest width (Text.lines t) := by
  have inner : ∀ piece ∈ Text.pieces '\n' t, '\n' ∉ piece := fun _ => Text.not_mem_of_mem_pieces
  conv => rhs; rw [← Text.joinLines_pieces t]
  unfold shifted
  cases known : Text.pieces '\n' t with
  | nil => rfl
  | cons first rest =>
    rw [known] at inner
    by_cases only : rest = []
    · subst only
      rw [shiftRest, List.map_nil, Text.joinLines_singleton]
      by_cases empty : first = []
      · subst empty
        rfl
      · rw [Text.lines_of_newline_not_mem (inner first (by simp)) empty]
        rfl
    · rw [shiftRest, Text.joinLines_cons (by simp [only]), Text.joinLines_cons only,
        Text.lines_append_newline (inner first (by simp)),
        Text.lines_append_newline (inner first (by simp)), shiftRest,
        lines_joinLines_shiftLine width fun line mem => inner line (by simp [mem])]

end Lines

section Tabs

theorem expandTabsFrom_replicate_append (column width : Nat) (line : Text) :
    expandTabsFrom column (List.replicate width ' ' ++ line) =
      List.replicate width ' ' ++ expandTabsFrom (column + width) line := by
  induction width generalizing column with
  | zero => rfl
  | succ width ih =>
    have space : ' ' ≠ '\t' := by decide
    rw [List.replicate_succ, List.cons_append, expandTabsFrom, if_neg space, ih, List.cons_append,
      Nat.add_right_comm, Nat.add_assoc]

theorem expandTabsFrom_add {width : Nat} (stops : 8 ∣ width) (column : Nat) (line : Text) :
    expandTabsFrom (column + width) line = expandTabsFrom column line := by
  induction line generalizing column with
  | nil => rfl
  | cons c line ih =>
    have pad : 8 - (column + width) % 8 = 8 - column % 8 := by omega
    by_cases tab : c = '\t'
    · simp only [expandTabsFrom, if_pos tab, pad]
      rw [Nat.add_right_comm, ih]
    · simp only [expandTabsFrom, if_neg tab]
      rw [Nat.add_right_comm, ih]

theorem blank_expandTabsFrom (column : Nat) (line : Text) :
    Text.blank (expandTabsFrom column line) = Text.blank line := by
  induction line generalizing column with
  | nil => rfl
  | cons c line ih =>
    unfold expandTabsFrom
    split
    · next tab =>
      subst tab
      rw [Text.blank_append, Text.blank_replicate_space, ih]
      rfl
    · rw [Text.blank, Text.blank, List.all_cons, List.all_cons]
      exact congrArg _ (ih _)

theorem expandTabs_shiftLine {width : Nat} {line : Text} (h : 8 ∣ width ∨ '\t' ∉ line) :
    expandTabs (shiftLine width line) = shiftLine width (expandTabs line) := by
  have same : Text.blank (expandTabs line) = Text.blank line := blank_expandTabsFrom 0 line
  cases blank : Text.blank line with
  | true => rw [shiftLine_of_blank width blank, shiftLine_of_blank width (same.trans blank)]
  | false =>
    rw [shiftLine_of_visible width blank, shiftLine_of_visible width (same.trans blank), expandTabs,
      expandTabsFrom_replicate_append, Nat.zero_add, expandTabs]
    rcases h with stops | tabless
    · rw [← Nat.zero_add width, expandTabsFrom_add stops]
    · rw [expandTabsFrom_of_not_mem tabless, expandTabsFrom_of_not_mem tabless]

end Tabs

theorem layout_shifted {width : Nat} {t : Text}
    (h : 8 ∣ width ∨ ∀ line ∈ (Text.lines t).tail, '\t' ∉ line) :
    layout (shifted width t) = layout t := by
  unfold layout
  rw [lines_shifted]
  cases known : Text.lines t with
  | nil => rfl
  | cons first rest =>
    rw [known] at h
    have expanded : (rest.map (shiftLine width)).map expandTabs =
        (rest.map expandTabs).map (shiftLine width) := by
      rw [List.map_map, List.map_map]
      refine List.map_congr_left fun line mem => ?_
      exact expandTabs_shiftLine (h.imp_right fun tabless => tabless line mem)
    simp only [shiftRest, List.map_cons, expanded, dedent_shiftLine]

/-- A docstring is cleaned and read alike wherever its lines after the first stand, so long as they
hold no tab or are moved from one tab stop to another. -/
theorem read_shifted {width : Nat} {t : Text}
    (h : 8 ∣ width ∨ ∀ line ∈ (Text.lines t).tail, '\t' ∉ line) :
    clean (shifted width t) = clean t ∧ read (shifted width t) = read t := by
  rw [clean, read, layout_shifted h]
  exact ⟨rfl, rfl⟩

def tabbedText : Text := "Move.\n\n  Args:\n\tby (int): Steps.\n\t\u00a0 Or none.\r\n \t\n"

theorem read_shifted_tabbedText :
    (8 ∣ 8 ∨ ∀ line ∈ (Text.lines tabbedText).tail, '\t' ∉ line) ∧
      clean (shifted 8 tabbedText) = clean tabbedText ∧
      read (shifted 8 tabbedText) = read tabbedText :=
  ⟨.inl (Nat.dvd_refl 8), read_shifted (.inl (Nat.dvd_refl 8))⟩

end CallSchema.Docstring
