import CallSchema.Outline.Reading
import CallSchema.Proofs.Text.Lines
import Mathlib.Data.Option.Basic

set_option autoImplicit false

namespace CallSchema.Outline

theorem withoutDash_trim (line : Text) : withoutDash (Text.trim line) = withoutDash line := by
  simp only [withoutDash, Text.trim_trim]

theorem head?_trim (line : Text) : head? (Text.trim line) = head? line := by
  simp only [head?, withoutDash_trim]

theorem head?_of_blank {line : Text} (h : Text.blank line = true) : head? line = none := by
  rw [← head?_trim, Text.trim_eq_nil_iff.mpr h]
  rfl

theorem indentOf_replicate_append (indent : Nat) {rest : Text}
    (stop : rest.takeWhile (· == ' ') = []) : indentOf (List.replicate indent ' ' ++ rest) = indent := by
  have spaces : ∀ c ∈ List.replicate indent ' ', (c == ' ') = true := by
    intro c mem
    rw [List.eq_of_mem_replicate mem]
    rfl
  rw [indentOf, List.takeWhile_append_of_pos spaces, stop, List.append_nil, List.length_replicate]

theorem isIdentifier_of_head? {line : Text} {head : Head} (h : head? line = some head) :
    Text.isIdentifier head.name = true := by
  obtain ⟨⟨before, after⟩, -, h⟩ := Option.bind_eq_some_iff.mp h
  obtain ⟨⟨name, hint⟩, -, h⟩ := Option.bind_eq_some_iff.mp h
  obtain ⟨_, known, h⟩ := Option.bind_eq_some_iff.mp h
  cases h
  have both := (Option.guard_eq_some' _).mp known
  simp only [Bool.and_eq_true] at both
  exact both.1

def Definition.opening (definition : Definition) : Nat × Head :=
  (definition.indent, definition.toHead)

def opening? (line : Text) : Option (Nat × Head) := (head? line).map (indentOf line, ·)

namespace Scan

theorem line_of_blank {line : Text} (h : Text.blank line = true) (scan : Scan) :
    scan.line line = scan := by
  rw [Scan.line, if_pos h]

theorem line_of_head? {line : Text} {head : Head} (h : head? line = some head) (scan : Scan) :
    scan.line line = scan.define (indentOf line) head := by
  have visible : ¬ Text.blank line = true := by
    intro blank
    rw [head?_of_blank blank] at h
    cases h
  rw [Scan.line, if_neg visible, h]

theorem line_of_prose {line : Text} (visible : Text.blank line = false) (h : head? line = none)
    (scan : Scan) : scan.line line = scan.note (scan.runAt (indentOf line)) line := by
  rw [Scan.line, if_neg (by simp [visible]), h]

theorem openings_note (scan : Scan) (run : Run) (line : Text) :
    (scan.note run line).definitions.map Definition.opening =
      scan.definitions.map Definition.opening := by
  unfold note
  cases run.owner with
  | none => rfl
  | some owner =>
    apply List.ext_getElem
    · simp
    · intro i _ _
      simp only [List.getElem_map, List.getElem_modify]
      split <;> rfl

theorem openings_line (scan : Scan) (line : Text) :
    (scan.line line).definitions.map Definition.opening =
      scan.definitions.map Definition.opening ++ (opening? line).toList := by
  by_cases blank : Text.blank line = true
  · simp [line_of_blank blank, opening?, head?_of_blank blank]
  · rw [Bool.not_eq_true] at blank
    cases h : head? line with
    | none => simp [line_of_prose blank h, openings_note, opening?, h]
    | some head => simp [line_of_head? h, define, opening?, h, Definition.opening]

theorem openings_lines (scan : Scan) (ls : List Text) :
    (ls.foldl Scan.line scan).definitions.map Definition.opening =
      scan.definitions.map Definition.opening ++ ls.filterMap opening? := by
  induction ls generalizing scan with
  | nil => simp
  | cons line rest ih =>
    rw [List.foldl_cons, ih, openings_line, List.append_assoc]
    cases h : opening? line <;> simp [h]

theorem prose_line {scan : Scan} {line l : Text} (h : l ∈ (scan.line line).prose) :
    l ∈ scan.prose ∨ (l = line ∧ head? line = none) := by
  by_cases blank : Text.blank line = true
  · rw [line_of_blank blank] at h
    exact .inl h
  · rw [Bool.not_eq_true] at blank
    cases hd : head? line with
    | some head =>
      rw [line_of_head? hd] at h
      exact .inl h
    | none =>
      rw [line_of_prose blank hd] at h
      unfold note at h
      cases owner : (scan.runAt (indentOf line)).owner with
      | some place =>
        rw [owner] at h
        exact .inl h
      | none =>
        rw [owner] at h
        rcases List.mem_append.mp h with old | new
        · exact .inl old
        · exact .inr ⟨List.mem_singleton.mp new, rfl⟩

theorem prose_lines {scan : Scan} {ls : List Text} {l : Text}
    (h : l ∈ (ls.foldl Scan.line scan).prose) : l ∈ scan.prose ∨ (l ∈ ls ∧ head? l = none) := by
  induction ls generalizing scan with
  | nil => exact .inl h
  | cons line rest ih =>
    rcases ih h with before | ⟨later, prose⟩
    · rcases prose_line before with old | ⟨rfl, prose⟩
      · exact .inl old
      · exact .inr ⟨by simp, prose⟩
    · exact .inr ⟨by simp [later], prose⟩

end Scan

theorem Scan.lines_of_blank {ls : List Text} (blank : ∀ l ∈ ls, Text.blank l = true) (scan : Scan) :
    ls.foldl Scan.line scan = scan := by
  induction ls with
  | nil => rfl
  | cons l rest ih =>
    obtain ⟨own, later⟩ := List.forall_mem_cons.mp blank
    rw [List.foldl_cons, Scan.line_of_blank own, ih later]

theorem Scan.lines_replicate_nil (count : Nat) (scan : Scan) :
    (List.replicate count []).foldl Scan.line scan = scan := by
  refine Scan.lines_of_blank (fun l mem => ?_) scan
  rw [List.eq_of_mem_replicate mem]
  rfl

theorem scan_joinLines {ls : List Text} (h : ∀ l ∈ ls, Text.IsLine l) :
    scan (Text.joinLines ls) = scanLines ls := by
  obtain ⟨count, whole⟩ := Text.exists_lines_joinLines h
  have seen : scanLines ls = (List.replicate count []).foldl Scan.line (scan (Text.joinLines ls)) := by
    conv => lhs; rw [whole]
    exact List.foldl_append
  rw [seen, Scan.lines_replicate_nil]

theorem openings_scan (t : Text) :
    (scan t).definitions.map Definition.opening = (Text.lines t).filterMap opening? :=
  Scan.openings_lines .start (Text.lines t)

theorem heads_scan (t : Text) :
    (scan t).definitions.map Definition.toHead = (Text.lines t).filterMap head? := by
  have heads := congrArg (List.map Prod.snd) (openings_scan t)
  simpa [List.map_filterMap, Function.comp_def, opening?, Definition.opening] using heads

theorem head?_of_mem_prose {t l : Text} (h : l ∈ (scan t).prose) :
    l ∈ Text.lines t ∧ head? l = none := by
  rcases Scan.prose_lines h with start | found
  · cases start
  · exact found

theorem newline_not_mem_of_mem_prose {t l : Text} (h : l ∈ (scan t).prose) : '\n' ∉ l :=
  Text.newline_not_mem_of_mem_lines (head?_of_mem_prose h).1

theorem tidy_prose (t : Text) :
    Text.tidy (Text.joinLines (scan t).prose) = Text.joinLines (Text.tidyLines (scan t).prose) :=
  Text.tidy_joinLines fun _ => newline_not_mem_of_mem_prose

theorem isIdentifier_name {t : Text} {definition : Definition}
    (h : definition ∈ (scan t).definitions) : Text.isIdentifier definition.name = true := by
  have mem : definition.toHead ∈ (scan t).definitions.map Definition.toHead :=
    List.mem_map_of_mem h
  rw [heads_scan] at mem
  obtain ⟨line, -, found⟩ := List.mem_filterMap.mp mem
  exact isIdentifier_of_head? found

theorem head?_of_no_definitions {t : Text} (h : (scan t).definitions = []) :
    ∀ l ∈ Text.lines t, head? l = none := by
  have none := heads_scan t
  rw [h, List.map_nil] at none
  exact List.filterMap_eq_nil_iff.mp none.symm

theorem no_definitions {t : Text} (h : ∀ l ∈ Text.lines t, head? l = none) :
    (scan t).definitions = [] := by
  have heads := heads_scan t
  rw [List.filterMap_eq_nil_iff.mpr h] at heads
  exact List.map_eq_nil_iff.mp heads

def Definition.resolved (definition : Definition) : Entry where
  indent := definition.indent
  name := definition.name
  schema := document definition.body definition.valueSchema
  required := !TypeHint.isOptional definition.hint

theorem Definition.entry_eq_resolved (definition : Definition) :
    definition.entry (if definition.valueSchema.hosts then read definition.body
      else ⟨Text.tidy definition.body, none⟩) = definition.resolved := by
  unfold Definition.entry Definition.resolved document
  split <;> rfl

theorem read_eq (t : Text) :
    read t =
      if (scan t).definitions = [] then ⟨Text.tidy t, none⟩
      else ⟨Text.tidy (Text.joinLines (scan t).prose),
        some (nest ((scan t).definitions.map Definition.resolved))⟩ := by
  have entries : ((scan t).definitions.attach.map fun ⟨definition, _⟩ =>
      definition.entry (if definition.valueSchema.hosts then read definition.body
        else ⟨Text.tidy definition.body, none⟩)) =
      (scan t).definitions.map Definition.resolved := by
    simp only [Definition.entry_eq_resolved]
    exact List.attach_map_val
  rw [read]
  simp only [entries, List.isEmpty_iff, List.map_eq_nil_iff]

theorem read_of_no_definitions {t : Text} (h : ∀ l ∈ Text.lines t, head? l = none) :
    read t = ⟨Text.tidy t, none⟩ := by
  rw [read_eq, if_pos (no_definitions h)]

end CallSchema.Outline
