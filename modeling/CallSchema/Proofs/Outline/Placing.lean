import CallSchema.Proofs.Outline.Governing
import CallSchema.Proofs.Outline.Render
import Mathlib.Order.Monotone.Basic

set_option autoImplicit false

namespace CallSchema.Outline

def visibleLines (ls : List Text) : List Text := ls.filter fun l => !Text.blank l

theorem visibleLines_cons_of_blank {l : Text} (h : Text.blank l = true) (ls : List Text) :
    visibleLines (l :: ls) = visibleLines ls := by
  simp [visibleLines, h]

theorem visibleLines_cons {l : Text} (h : Text.blank l = false) (ls : List Text) :
    visibleLines (l :: ls) = l :: visibleLines ls := by
  simp [visibleLines, h]

theorem tidyLines_visibleLines (ls : List Text) :
    Text.tidyLines (visibleLines ls) = Text.tidyLines ls :=
  Text.tidyLines_filter (by simp)

namespace Scan

theorem lines_leading {ls : List Text} (prose : ∀ l ∈ ls, head? l = none) {scan : Scan}
    (first : scan.definitions = []) (free : ∀ run ∈ scan.run, run.owner = none) :
    (ls.foldl Scan.line scan).definitions = [] ∧
      (ls.foldl Scan.line scan).prose = scan.prose ++ visibleLines ls := by
  induction ls generalizing scan with
  | nil => simp [first, visibleLines]
  | cons l rest ih =>
    have later : ∀ k ∈ rest, head? k = none := fun k mem => prose k (by simp [mem])
    rw [List.foldl_cons]
    cases blank : Text.blank l with
    | true =>
      rw [line_of_blank blank, visibleLines_cons_of_blank blank]
      exact ih later first free
    | false =>
      -- There is no definition yet that could govern the line.
      have owner : (scan.runAt (indentOf l)).owner = none := by
        unfold runAt
        split
        · next run old => exact free run (Option.mem_filter_iff.mp old).1
        · rw [first]
          rfl
      rw [line_of_prose blank (prose l (by simp)), note, owner, visibleLines_cons blank]
      let next : Scan :=
        { scan with prose := scan.prose ++ [l], run := some (scan.runAt (indentOf l)) }
      have still : ∀ run ∈ next.run, run.owner = none := by
        rintro run ⟨⟩
        exact owner
      obtain ⟨definitions, found⟩ := @ih later next first still
      exact ⟨definitions, by rw [found, List.append_assoc]; rfl⟩

theorem lines_notes {notes : List Text} (prose : ∀ note ∈ notes, head? note = none)
    {before : List Definition} {last : Definition}
    (inside : ∀ note ∈ notes, Text.blank note = false → last.indent < indentOf note ∧
      ∀ definition ∈ before, definition.indent < indentOf note → definition.indent ≤ last.indent)
    {scan : Scan} (definitions : scan.definitions = before ++ [last])
    (current : ∀ run ∈ scan.run, run.owner = some before.length) :
    (notes.foldl Scan.line scan).definitions =
        before ++ [{ last with notes := last.notes ++ visibleLines notes }] ∧
      (notes.foldl Scan.line scan).prose = scan.prose := by
  induction notes generalizing scan last with
  | nil => simp [definitions, visibleLines]
  | cons l rest ih =>
    have proseRest : ∀ note ∈ rest, head? note = none := fun note mem => prose note (by simp [mem])
    have insideRest := fun note mem => inside note (List.mem_cons_of_mem l mem)
    rw [List.foldl_cons]
    cases blank : Text.blank l with
    | true =>
      rw [line_of_blank blank, visibleLines_cons_of_blank blank]
      exact ih proseRest insideRest definitions current
    | false =>
      obtain ⟨lower, upTo⟩ := inside l (by simp) blank
      -- Either the run goes on with the last definition, or it opens here and that one governs it.
      have owner : (scan.runAt (indentOf l)).owner = some before.length := by
        unfold runAt
        split
        · next run old => exact current run (Option.mem_filter_iff.mp old).1
        · rw [definitions]
          exact @governing_concat _ _ (fun _ => true) _ _ _ rfl lower upTo
      let next : Scan :=
        { scan with
          definitions := scan.definitions.modify before.length (addNote l)
          run := some (scan.runAt (indentOf l)) }
      have noted : next.definitions = before ++ [addNote l last] := by
        change scan.definitions.modify before.length (addNote l) = _
        rw [definitions, List.modify_eq_take_cons_drop (by simp)]
        simp
      rw [line_of_prose blank (prose l (by simp)), note, owner, visibleLines_cons blank]
      have still : ∀ run ∈ next.run, run.owner = some before.length := by
        rintro run ⟨⟩
        exact owner
      obtain ⟨found, kept⟩ := @ih proseRest (addNote l last) insideRest next noted still
      exact ⟨by rw [found]; simp [addNote], kept⟩

end Scan

namespace Label

def definition (indent : Nat) (label : Label) : Definition :=
  ⟨label.head, indent, visibleLines label.notes⟩

end Label

def Levels (width : Nat → Nat) (definitions : List Definition) : Prop :=
  ∀ definition ∈ definitions, ∃ level, definition.indent = width level

variable {width : Nat → Nat}

theorem Levels.append {old new : List Definition} (h : Levels width old)
    (more : Levels width new) : Levels width (old ++ new) := by
  intro definition mem
  rcases List.mem_append.mp mem with known | added
  · exact h definition known
  · exact more definition added

theorem Label.levels_definition (label : Label) (depth : Nat) :
    Levels width [label.definition (width depth)] := by
  intro definition mem
  obtain rfl := List.mem_singleton.mp mem
  exact ⟨depth, rfl⟩

theorem Label.scan_line (increasing : StrictMono width) {label : Label} {depth : Nat}
    (inside : ∀ note ∈ label.notes, Text.blank note = false →
      width depth < indentOf note ∧ indentOf note ≤ width (depth + 1))
    {scan : Scan} (levels : Levels width scan.definitions) :
    (label.notes.foldl Scan.line (scan.line (label.line (width depth)))).definitions =
        scan.definitions ++ [label.definition (width depth)] ∧
      (label.notes.foldl Scan.line (scan.line (label.line (width depth)))).prose = scan.prose := by
  -- A definition shallower than a note stands at a depth no greater than the note's own.
  have shallow : ∀ note ∈ label.notes, Text.blank note = false → width depth < indentOf note ∧
      ∀ definition ∈ scan.definitions, definition.indent < indentOf note →
        definition.indent ≤ width depth := by
    intro note mem visible
    obtain ⟨low, high⟩ := inside note mem visible
    refine ⟨low, ?_⟩
    intro definition known lower
    obtain ⟨level, found⟩ := levels definition known
    have shallower : level < depth + 1 := increasing.lt_iff_lt.mp (by omega)
    have := increasing.monotone (Nat.le_of_lt_succ shallower)
    omega
  have defined : (scan.define (width depth) label.head).definitions =
      scan.definitions ++ [⟨label.head, width depth, []⟩] := rfl
  obtain ⟨noted, kept⟩ :=
    Scan.lines_notes label.notesProse shallow defined (by simp [Scan.define])
  rw [Scan.line_of_head? (label.head?_line _), label.indentOf_line]
  refine ⟨?_, kept⟩
  rw [noted, List.nil_append]
  rfl

namespace Forest

def definitions (width : Nat → Nat) (depth : Nat) : Forest → List Definition
  | .nil => []
  | .cons label children rest =>
    label.definition (width depth) ::
      (children.definitions width (depth + 1) ++ rest.definitions width depth)

theorem levels_definitions (forest : Forest) (depth : Nat) :
    Levels width (forest.definitions width depth) := by
  induction forest generalizing depth with
  | nil =>
    intro definition mem
    cases mem
  | cons label children rest inner later =>
    exact (label.levels_definition depth).append ((inner (depth + 1)).append (later depth))

theorem scan_lines (increasing : StrictMono width) {forest : Forest} {depth : Nat}
    (fits : forest.Fits width depth) {scan : Scan} (levels : Levels width scan.definitions) :
    ((forest.lines width depth).foldl Scan.line scan).definitions =
        scan.definitions ++ forest.definitions width depth ∧
      ((forest.lines width depth).foldl Scan.line scan).prose = scan.prose := by
  induction forest generalizing depth scan with
  | nil => simp [lines, definitions]
  | cons label children rest inner later =>
    -- Each of the three parts leaves definitions at the depths of the forest, as the next needs.
    obtain ⟨inside, -, -, -, childrenFit, restFit⟩ := fits
    rw [lines, List.foldl_cons, List.foldl_append, List.foldl_append]
    obtain ⟨own, ownProse⟩ := label.scan_line increasing inside levels
    have ownLevels := levels.append (label.levels_definition depth)
    obtain ⟨deep, deepProse⟩ := inner childrenFit (by rwa [own])
    have deepLevels := ownLevels.append (children.levels_definitions (depth + 1))
    obtain ⟨wide, wideProse⟩ := later restFit (by rwa [deep, own])
    constructor
    · rw [wide, deep, own, definitions]
      simp only [List.append_assoc, List.cons_append, List.nil_append]
    · rw [wideProse, deepProse, ownProse]

end Forest

end CallSchema.Outline
