import CallSchema.Proofs.Outline.Placing
import CallSchema.Proofs.Text.Portion
import CallSchema.Proofs.WellFormed

set_option autoImplicit false

namespace CallSchema.Outline

open scoped List

structure IsNote (indent : Nat) (line : Text) : Prop where
  prose : head? line = none
  visible : Text.blank line = false
  deeper : indent < indentOf line
  plain : '\n' ∉ line

structure Head.IsLine (head : Head) : Prop where
  trim : Text.trim head.summary = head.summary
  plain : '\n' ∉ head.summary

structure Definition.Scanned (definition : Definition) : Prop where
  head : definition.toHead.IsLine
  notes : ∀ note ∈ definition.notes, IsNote definition.indent note

theorem withoutDash_sublist (line : Text) : withoutDash line <+ line := by
  unfold withoutDash
  split
  · next rest found =>
    have whole := Text.append_of_stripStart? found
    refine (Text.trim_sublist rest).trans (.trans ?_ (Text.trim_sublist line))
    rw [whole]
    exact List.sublist_append_right _ _
  · exact Text.trim_sublist line

theorem summary_sublist {line : Text} {head : Head} (h : head? line = some head) :
    head.summary <+ line := by
  obtain ⟨before, after, whole, summary⟩ := summary_of_head? h
  rw [summary]
  refine (Text.trim_sublist after).trans (.trans ?_ (withoutDash_sublist line))
  rw [whole]
  exact List.sublist_append_right _ _

theorem isLine_of_head? {line : Text} {head : Head} (h : head? line = some head)
    (plain : '\n' ∉ line) : head.IsLine := by
  refine ⟨?_, fun mem => plain ((summary_sublist h).subset mem)⟩
  obtain ⟨before, after, -, summary⟩ := summary_of_head? h
  rw [summary, Text.trim_trim]

theorem indentOf_append {line more : Text} (visible : Text.blank line = false) :
    indentOf (line ++ more) = indentOf line := by
  induction line with
  | nil => cases visible
  | cons c line ih =>
    by_cases space : c = ' '
    · subst space
      have inner : Text.blank line = false := by simpa [Text.blank, Text.isBlank_space] using visible
      have := ih inner
      simpa [indentOf] using this
    · simp [indentOf, space]

theorem indentOf_trimEnd {line : Text} (visible : Text.blank line = false) :
    indentOf (Text.trimEnd line) = indentOf line := by
  obtain ⟨rest, -, whole⟩ := Text.exists_trimEnd line
  conv => rhs; rw [whole]
  rw [indentOf_append]
  rwa [Text.blank_trimEnd]

theorem head?_trimEnd (line : Text) : head? (Text.trimEnd line) = head? line := by
  rw [← head?_trim, Text.trim_trimEnd, head?_trim]

theorem IsNote.trimEnd {indent : Nat} {line : Text} (h : IsNote indent line) :
    IsNote indent (Text.trimEnd line) where
  prose := by rw [head?_trimEnd, h.prose]
  visible := by rw [Text.blank_trimEnd, h.visible]
  deeper := by rw [indentOf_trimEnd h.visible]; exact h.deeper
  plain := (Text.isLine_trimEnd h.plain).1

namespace Scan

def Owns (scan : Scan) (run : Run) : Prop :=
  ∀ owner ∈ run.owner, ∃ opening,
    (scan.definitions.map Definition.opening)[owner]? = some opening ∧ opening.1 < run.indent

structure Sound (scan : Scan) : Prop where
  definitions : ∀ definition ∈ scan.definitions, definition.Scanned
  run : ∀ run ∈ scan.run, scan.Owns run

theorem Sound.runAt {scan : Scan} (sound : scan.Sound) (indent : Nat) :
    scan.Owns (scan.runAt indent) ∧ (scan.runAt indent).indent ≤ indent := by
  unfold Scan.runAt
  split
  · next run found =>
    obtain ⟨known, less⟩ := Option.mem_filter_iff.mp found
    exact ⟨sound.run run known, Nat.le_of_lt (by simpa using less)⟩
  · refine ⟨?_, Nat.le_refl _⟩
    intro owner found
    have governs : governing (·.indent) (fun _ => true) indent scan.definitions = some owner := found
    obtain ⟨definition, known, -, less, -⟩ := exists_of_governing governs
    refine ⟨definition.opening, ?_, less⟩
    rw [List.getElem?_map, List.mem_zipIdx_iff_getElem?.mp known]
    rfl

theorem note_cases {scan : Scan} {run : Run} (owns : scan.Owns run) (line : Text) :
    ((scan.note run line).definitions = scan.definitions ∧
        (scan.note run line).prose = scan.prose ++ [line]) ∨
      ∃ before definition after, scan.definitions = before ++ definition :: after ∧
        definition.indent < run.indent ∧
        (scan.note run line).definitions = before ++ addNote line definition :: after ∧
        (scan.note run line).prose = scan.prose := by
  unfold note
  cases own : run.owner with
  | none => exact .inl ⟨rfl, rfl⟩
  | some owner =>
    obtain ⟨opening, known, less⟩ := owns owner own
    rw [List.getElem?_map] at known
    obtain ⟨definition, found, rfl⟩ := Option.map_eq_some_iff.mp known
    obtain ⟨here, rfl⟩ := List.getElem?_eq_some_iff.mp found
    refine .inr ⟨scan.definitions.take owner, scan.definitions[owner], scan.definitions.drop (owner + 1),
      ?_, less, ?_, rfl⟩
    · simp
    · exact List.modify_eq_take_cons_drop here

theorem Sound.line {scan : Scan} (sound : scan.Sound) {line : Text} (plain : '\n' ∉ line) :
    (scan.line line).Sound := by
  by_cases blank : Text.blank line = true
  · rwa [line_of_blank blank]
  rw [Bool.not_eq_true] at blank
  cases prose : head? line with
  | some head =>
    rw [line_of_head? prose]
    refine ⟨?_, by simp [define]⟩
    intro definition mem
    rcases List.mem_append.mp mem with old | new
    · exact sound.definitions definition old
    · obtain rfl := List.mem_singleton.mp new
      exact ⟨isLine_of_head? prose plain, by simp⟩
  | none =>
    obtain ⟨owns, upTo⟩ := sound.runAt (indentOf line)
    rw [line_of_prose blank prose]
    constructor
    · rcases note_cases owns line with ⟨same, -⟩ | ⟨before, noted, after, whole, less, added, -⟩
      · rw [same]
        exact sound.definitions
      · rw [added]
        intro definition mem
        have old := sound.definitions
        rw [whole] at old
        rcases List.mem_append.mp mem with early | late
        · exact old definition (by simp [early])
        rcases List.mem_cons.mp late with rfl | late
        · obtain ⟨head, notes⟩ := old noted (by simp)
          refine ⟨head, ?_⟩
          intro note known
          rcases List.mem_append.mp known with before | last
          · exact notes note before
          · obtain rfl := List.mem_singleton.mp last
            exact ⟨prose, blank, Nat.lt_of_lt_of_le less upTo, plain⟩
        · exact old definition (by simp [late])
    · intro run mem
      have same : run = scan.runAt (indentOf line) := by
        unfold note at mem
        split at mem <;> exact (Option.some.inj mem).symm
      unfold Owns
      rw [openings_note, same]
      exact owns

theorem Sound.lines {scan : Scan} (sound : scan.Sound) {ls : List Text}
    (plain : ∀ l ∈ ls, '\n' ∉ l) : (ls.foldl Scan.line scan).Sound := by
  induction ls generalizing scan with
  | nil => exact sound
  | cons first rest ih =>
    obtain ⟨own, later⟩ := List.forall_mem_cons.mp plain
    exact ih (sound.line own) later

theorem sound_start : start.Sound := ⟨by simp [start], by simp [start]⟩

end Scan

theorem sound_scan (t : Text) : (scan t).Sound :=
  Scan.sound_start.lines fun _ => Text.newline_not_mem_of_mem_lines

def Head.value (head : Head) : Schema := TypeHint.schema (valueHint head.hint)

def Head.inline? (head : Head) : Option Head :=
  if head.value.hosts then head? head.summary else none

theorem Head.head?_of_inline? {head inner : Head} (h : head.inline? = some inner) :
    head.value.hosts = true ∧ head? head.summary = some inner := by
  unfold inline? at h
  split at h
  · next hosts => exact ⟨hosts, h⟩
  · cases h

theorem Head.length_of_inline? {head inner : Head} (h : head.inline? = some inner) :
    inner.summary.length < head.summary.length := by
  have := length_summary_of_head? (head?_of_inline? h).2
  omega

-- What a head comes to with the notes on it, which belong to the innermost definition.
def Head.schema (notes : List Text) (head : Head) : Schema :=
  match _inner : head.inline? with
  | some inner =>
    (head.value.describe []).onHost fun _ =>
      ⟨[(inner.name, inner.schema notes)],
        if TypeHint.isOptional inner.hint then [] else [inner.name]⟩
  | none => head.value.describe (Text.joinLines (Text.tidyLines (head.summary :: notes)))
termination_by head.summary.length
decreasing_by exact length_of_inline? _inner

theorem Head.schema_of_inline? {head inner : Head} (h : head.inline? = some inner)
    (notes : List Text) : head.schema notes =
      (head.value.describe []).onHost fun _ =>
        ⟨[(inner.name, inner.schema notes)],
          if TypeHint.isOptional inner.hint then [] else [inner.name]⟩ := by
  rw [Head.schema]
  split
  · next other found =>
    rw [h] at found
    cases found
    rfl
  · next none =>
    rw [h] at none
    cases none

theorem Head.schema_of_plain {head : Head} (h : head.inline? = none) (notes : List Text) :
    head.schema notes =
      head.value.describe (Text.joinLines (Text.tidyLines (head.summary :: notes))) := by
  rw [Head.schema]
  split
  · next inner found =>
    rw [h] at found
    cases found
  · rfl

theorem Head.schema_congr {notes other : List Text}
    (same : Text.tidyLines notes = Text.tidyLines other) (head : Head) :
    head.schema notes = head.schema other := by
  fun_induction Head.schema notes head with
  | case1 head inner found ih => rw [schema_of_inline? found, ih]
  | case2 head plain =>
    rw [schema_of_plain plain]
    simp only [Text.tidyLines_cons, same]

theorem indentOf_of_trim {line : Text} (h : Text.trim line = line) : indentOf line = 0 := by
  cases line with
  | nil => rfl
  | cons c line =>
    have visible := Text.head?_of_trim_eq_self h c rfl
    have other : c ≠ ' ' := by
      rintro rfl
      cases visible
    simp [indentOf, other]

theorem insertAll_of_level {entries : List Entry} {indent : Nat}
    (level : ∀ entry ∈ entries, entry.indent = indent) (shape : Shape) :
    insertAll shape entries = entries.foldl insertEntry shape := by
  have ordered : entries.mergeSort (·.indent ≤ ·.indent) = entries := by
    refine List.mergeSort_of_pairwise (List.pairwise_of_forall_mem_list ?_)
    intro a ha b hb
    simp [level a ha, level b hb]
  rw [insertAll, ordered]

theorem entriesOf_map (host : Option Nat) (entries : List Entry) :
    entriesOf host (entries.map (Branch.mk host)) = entries := by
  simp [entriesOf, List.filter_map, Function.comp_def]

theorem nest_of_level {entries : List Entry} {indent : Nat}
    (level : ∀ entry ∈ entries, entry.indent = indent) :
    nest entries = entries.foldl insertEntry .empty := by
  have leaf (row : Entry × Nat) (mem : row ∈ entries.zipIdx) (later : List Entry) :
      branch entries row (later.map (Branch.mk none)) = (row.1 :: later).map (Branch.mk none) := by
    have top : hostOf entries row.2 row.1 = none := by
      refine governing_eq_none_iff.mpr fun other known _ => ?_
      have := level other.1 (List.mem_of_mem_take (List.fst_mem_of_mem_zipIdx known))
      have := level row.1 (List.fst_mem_of_mem_zipIdx mem)
      omega
    have same : (insertAll · []) = fun own : Shape => own := funext fun own => by simp [insertAll]
    have outer : ((none : Option Nat) != some row.2) = true := rfl
    simp [branch, top, entriesOf, List.filter_map, Function.comp_def, same, Schema.onHost_id, outer]
  have taken : ∀ rows ⊆ entries.zipIdx,
      rows.foldr (branch entries) [] = (rows.map Prod.fst).map (Branch.mk none) := by
    intro rows known
    induction rows with
    | nil => rfl
    | cons row rest ih =>
      obtain ⟨mem, more⟩ := List.cons_subset.mp known
      rw [List.foldr_cons, ih more, leaf row mem]
      rfl
  rw [nest, branches, taken _ (List.Subset.refl _), List.zipIdx_map_fst, entriesOf_map,
    insertAll_of_level level]

theorem nest_singleton (entry : Entry) :
    nest [entry] = ⟨[(entry.name, entry.schema)], if entry.required then [entry.name] else []⟩ := by
  rw [nest_of_level (List.forall_mem_singleton.mpr rfl)]
  cases needed : entry.required <;> simp [insertEntry, Shape.insert, needed, Shape.empty, Table.put]

namespace Definition

variable {definition : Definition}

def bodyLines (definition : Definition) : List Text :=
  (definition.summary :: definition.notes.map Text.trimEnd).filter (· ≠ [])

theorem Scanned.isLine_bodyLines (h : definition.Scanned) :
    ∀ line ∈ definition.bodyLines, Text.IsLine line := by
  intro line mem
  rcases List.mem_cons.mp (List.mem_of_mem_filter mem) with rfl | note
  · rw [← h.head.trim]
    exact Text.isLine_trim h.head.plain
  · obtain ⟨old, known, rfl⟩ := List.mem_map.mp note
    exact Text.isLine_trimEnd (h.notes old known).plain

theorem tidyLines_bodyLines (definition : Definition) :
    Text.tidyLines definition.bodyLines =
      Text.tidyLines (definition.summary :: definition.notes) := by
  have empty : ∀ line ∈ definition.summary :: definition.notes.map Text.trimEnd,
      decide (line ≠ []) = false → Text.blank line = true := by
    intro line _ gone
    obtain rfl : line = [] := by simpa using gone
    rfl
  rw [bodyLines, Text.tidyLines_filter empty, Text.tidyLines_cons, Text.tidyLines_cons,
    Text.tidyLines_map fun line _ => Text.trim_trimEnd line]

theorem Scanned.tidy_body (h : definition.Scanned) : Text.tidy definition.body =
    Text.joinLines (Text.tidyLines (definition.summary :: definition.notes)) := by
  rw [← definition.tidyLines_bodyLines]
  exact Text.tidy_joinLines fun line mem => (h.isLine_bodyLines line mem).1

theorem Scanned.lines_body (h : definition.Scanned) :
    Text.lines definition.body = definition.bodyLines := by
  refine Text.lines_joinLines h.isLine_bodyLines ?_
  intro last
  simpa using (List.mem_filter.mp (List.mem_of_getLast? last)).2

theorem Scanned.prose_body (h : definition.Scanned) (plain : head? definition.summary = none) :
    ∀ line ∈ Text.lines definition.body, head? line = none := by
  intro line mem
  rw [h.lines_body] at mem
  rcases List.mem_cons.mp (List.mem_of_mem_filter mem) with rfl | note
  · exact plain
  · obtain ⟨old, known, rfl⟩ := List.mem_map.mp note
    exact (h.notes old known).trimEnd.prose

def within (definition : Definition) (inner : Head) : Definition :=
  ⟨inner, 0, definition.notes.map Text.trimEnd⟩

theorem Scanned.within (h : definition.Scanned) {inner : Head}
    (found : head? definition.summary = some inner) : (definition.within inner).Scanned := by
  refine ⟨isLine_of_head? found h.head.plain, ?_⟩
  intro note mem
  obtain ⟨old, known, rfl⟩ := List.mem_map.mp mem
  have kept := (h.notes old known).trimEnd
  exact ⟨kept.prose, kept.visible, Nat.zero_lt_of_lt kept.deeper, kept.plain⟩

theorem Scanned.scan_body (h : definition.Scanned) {inner : Head}
    (found : head? definition.summary = some inner) :
    (scan definition.body).definitions = [definition.within inner] ∧
      (scan definition.body).prose = [] := by
  have trimmed : ∀ note ∈ definition.notes.map Text.trimEnd, IsNote definition.indent note := by
    intro note mem
    obtain ⟨old, known, rfl⟩ := List.mem_map.mp mem
    exact (h.notes old known).trimEnd
  have all : definition.bodyLines = definition.summary :: definition.notes.map Text.trimEnd := by
    rw [bodyLines, List.filter_eq_self]
    have visible : definition.summary ≠ [] := by
      intro none
      rw [none] at found
      cases found
    refine List.forall_mem_cons.mpr ⟨by simpa using visible, ?_⟩
    rintro note mem
    have shown := (trimmed note mem).visible
    rw [decide_eq_true_iff]
    rintro rfl
    cases shown
  have kept : visibleLines (definition.notes.map Text.trimEnd) =
      definition.notes.map Text.trimEnd := by
    rw [visibleLines, List.filter_eq_self]
    intro note mem
    simp [(trimmed note mem).visible]
  -- The summary has lost its indentation, and every note is still indented.
  have flush := indentOf_of_trim h.head.trim
  have deeper : ∀ note ∈ definition.notes.map Text.trimEnd, Text.blank note = false →
      0 < indentOf note ∧ ∀ definition ∈ ([] : List Definition),
        definition.indent < indentOf note → definition.indent ≤ 0 := by
    intro note mem _
    have := (trimmed note mem).deeper
    exact ⟨by omega, by simp⟩
  have defined : (Scan.start.define 0 inner).definitions = [] ++ [⟨inner, 0, []⟩] := rfl
  obtain ⟨alone, silent⟩ := Scan.lines_notes (fun note mem => (trimmed note mem).prose) deeper defined
    (by simp [Scan.define])
  rw [kept] at alone
  rw [scan, scanLines, h.lines_body, all, List.foldl_cons, Scan.line_of_head? found, flush]
  exact ⟨alone, silent⟩

end Definition

theorem fill_inline (t : Text) (inner : Shape) :
    fill ⟨[], some inner⟩ (TypeHint.schema t) =
      ((TypeHint.schema t).describe []).onHost fun _ => inner := by
  have own : ∀ shape ∈ ((TypeHint.schema t).describe []).host?, shape = .empty := by
    rw [Schema.host?_describe]
    exact host?_schema t
  rw [fill]
  dsimp only
  rw [Schema.onHost_of_empty own, Shape.absorb_empty]

theorem Definition.Scanned.schema_resolved {definition : Definition} (h : definition.Scanned) :
    definition.resolved.schema = definition.toHead.schema definition.notes := by
  induction size : definition.summary.length using Nat.strong_induction_on generalizing definition with
  | _ n ih =>
    change document definition.body definition.toHead.value = _
    cases inline : definition.toHead.inline? with
    | some inner =>
      obtain ⟨hosts, found⟩ := Head.head?_of_inline? inline
      obtain ⟨alone, prose⟩ := h.scan_body found
      have shorter := Head.length_of_inline? inline
      have own := ih inner.summary.length (by omega) (h.within found) rfl
      have notes : (definition.within inner).toHead.schema (definition.within inner).notes =
          inner.schema definition.notes :=
        Head.schema_congr (Text.tidyLines_map fun line _ => Text.trim_trimEnd line) inner
      have read : read definition.body = ⟨[], some ⟨[(inner.name, inner.schema definition.notes)],
          if TypeHint.isOptional inner.hint then [] else [inner.name]⟩⟩ := by
        rw [read_eq, alone, prose, List.map_singleton, nest_singleton, own, notes,
          if_neg (List.cons_ne_nil _ _)]
        cases optional : TypeHint.isOptional inner.hint <;>
          simp [Definition.resolved, Definition.within, optional] <;> rfl
      rw [document, if_pos hosts, read, Head.schema_of_inline? inline]
      exact fill_inline _ _
    | none =>
      rw [Head.schema_of_plain inline, ← h.tidy_body, document]
      split
      · next hosts =>
        -- There is a host here, but no definition in what is read of it.
        have plain : head? definition.summary = none := by
          rwa [Head.inline?, if_pos hosts] at inline
        rw [read_of_no_definitions (h.prose_body plain)]
        rfl
      · rfl

end CallSchema.Outline
