import CallSchema.Proofs.Outline.Inline

set_option autoImplicit false

namespace CallSchema.Outline

def reindent (f : Nat → Nat) (line : Text) : Text :=
  List.replicate (f (indentOf line)) ' ' ++ line.dropWhile (· == ' ')

-- What is there to see of lines: those that are not blank, without the blanks at their ends.
def content (ls : List Text) : List Text := (visibleLines ls).map Text.trimEnd

theorem blank_takeWhile_space (line : Text) : Text.blank (line.takeWhile (· == ' ')) = true := by
  rw [Text.blank_iff]
  intro c mem
  obtain rfl : c = ' ' := by simpa using List.mem_takeWhile_imp mem
  rfl

theorem blank_reindent (f : Nat → Nat) (line : Text) :
    Text.blank (reindent f line) = Text.blank line := by
  conv => rhs; rw [← List.takeWhile_append_dropWhile (p := (· == ' ')) (l := line)]
  rw [reindent, Text.blank_append, Text.blank_append, blank_takeWhile_space,
    Text.blank_replicate_space]

theorem trim_reindent (f : Nat → Nat) (line : Text) :
    Text.trim (reindent f line) = Text.trim line := by
  conv => rhs; rw [← List.takeWhile_append_dropWhile (p := (· == ' ')) (l := line)]
  rw [reindent, Text.trim_blank_append (Text.blank_replicate_space _),
    Text.trim_blank_append (blank_takeWhile_space line)]

theorem indentOf_reindent (f : Nat → Nat) (line : Text) :
    indentOf (reindent f line) = f (indentOf line) := by
  have stop : (line.dropWhile (· == ' ')).takeWhile (· == ' ') = [] := by
    rw [List.takeWhile_eq_nil_iff]
    intro some
    exact List.dropWhile_get_zero_not _ line some
  rw [reindent, indentOf_replicate_append _ stop]

def keyOf (line : Text) : Nat × Text := (indentOf line, Text.trim line)

theorem keyOf_trimEnd {line : Text} (visible : Text.blank line = false) :
    keyOf (Text.trimEnd line) = keyOf line := by
  rw [keyOf, indentOf_trimEnd visible, Text.trim_trimEnd, keyOf]

theorem keys_content (ls : List Text) : (content ls).map keyOf = (visibleLines ls).map keyOf := by
  rw [content, List.map_map]
  refine List.map_congr_left fun line mem => keyOf_trimEnd ?_
  simpa using (List.mem_filter.mp mem).2

theorem keys_reindent (f : Nat → Nat) (ls : List Text) :
    (visibleLines (ls.map (reindent f))).map keyOf =
      (visibleLines ls).map fun line => (f (indentOf line), Text.trim line) := by
  have visible : visibleLines (ls.map (reindent f)) = (visibleLines ls).map (reindent f) := by
    simp only [visibleLines, List.filter_map, Function.comp_def, blank_reindent]
  rw [visible, List.map_map]
  refine List.map_congr_left fun line _ => ?_
  rw [Function.comp_apply, keyOf, indentOf_reindent, trim_reindent]

def Definition.moved (f : Nat → Nat) (definition : Definition) : Definition :=
  ⟨definition.toHead, f definition.indent, Text.tidyLines definition.notes⟩

def Run.moved (f : Nat → Nat) (run : Run) : Run := ⟨f run.indent, run.owner⟩

namespace Scan

def moved (f : Nat → Nat) (scan : Scan) : Scan :=
  ⟨scan.definitions.map (Definition.moved f), Text.tidyLines scan.prose, scan.run.map (Run.moved f)⟩

-- A line takes its place by an indentation that is given apart from its text.
def place (scan : Scan) (key : Nat × Text) : Scan :=
  match head? key.2 with
  | some head => scan.define key.1 head
  | none => scan.note (scan.runAt key.1) key.2

variable {f : Nat → Nat}

theorem moved_runAt (increasing : StrictMono f) (scan : Scan) (indent : Nat) :
    (scan.moved f).runAt (f indent) = (scan.runAt indent).moved f := by
  have run : (scan.moved f).run.filter (·.indent < f indent) =
      (scan.run.filter (·.indent < indent)).map (Run.moved f) := by
    cases found : scan.run with
    | none => simp [moved, found]
    | some run =>
      by_cases less : run.indent < indent <;>
        simp [moved, found, Option.filter, Run.moved, increasing.lt_iff_lt, less]
  unfold runAt
  rw [run]
  cases scan.run.filter (·.indent < indent) with
  | some run => rfl
  | none =>
    have depths (definition : Definition) : (definition.moved f).indent = f definition.indent := rfl
    have governs : governing (·.indent) (fun _ => true) (f indent) (scan.moved f).definitions =
        governing (·.indent) (fun _ => true) indent scan.definitions :=
      governing_map increasing depths (fun _ => rfl) indent scan.definitions
    simp only [Option.map_none, Run.moved, governs]

theorem moved_note (scan : Scan) (run : Run) {line : Text} (visible : Text.blank line = false) :
    (scan.note run line).moved f = (scan.moved f).note (run.moved f) (Text.trim line) := by
  have tidied (ls : List Text) : Text.tidyLines (ls ++ [line]) = Text.tidyLines ls ++ [Text.trim line] := by
    rw [Text.tidyLines_append, Text.tidyLines_singleton visible]
  have added (definition : Definition) : (addNote line definition).moved f =
      addNote (Text.trim line) (definition.moved f) := by
    simp only [addNote, Definition.moved, tidied]
  obtain ⟨indent, owner⟩ := run
  cases owner with
  | none => simp [note, moved, tidied, Run.moved]
  | some owner =>
    have definitions : (scan.definitions.modify owner (addNote line)).map (Definition.moved f) =
        (scan.definitions.map (Definition.moved f)).modify owner (addNote (Text.trim line)) := by
      apply List.ext_getElem
      · simp
      · intro i _ _
        simp only [List.getElem_map, List.getElem_modify]
        split
        · exact added _
        · rfl
    simp [note, moved, definitions, Run.moved]

theorem moved_line (increasing : StrictMono f) (scan : Scan) {line : Text}
    (visible : Text.blank line = false) :
    (scan.line line).moved f = (scan.moved f).place (f (indentOf line), Text.trim line) := by
  unfold place
  simp only [head?_trim]
  cases prose : head? line with
  | some head =>
    rw [line_of_head? prose]
    simp [moved, define, Definition.moved]
  | none => rw [line_of_prose visible prose, moved_note _ _ visible, moved_runAt increasing]

theorem moved_lines (increasing : StrictMono f) (scan : Scan) (ls : List Text) :
    (ls.foldl Scan.line scan).moved f =
      ((visibleLines ls).map fun line => (f (indentOf line), Text.trim line)).foldl place
        (scan.moved f) := by
  induction ls generalizing scan with
  | nil => rfl
  | cons first rest ih =>
    rw [List.foldl_cons]
    -- A blank line has no place, and a line that is seen takes the place that its key gives it.
    cases blank : Text.blank first with
    | true => rw [line_of_blank blank, visibleLines_cons_of_blank blank, ih]
    | false =>
      rw [ih, moved_line increasing scan blank, visibleLines_cons blank, List.map_cons,
        List.foldl_cons]

end Scan

theorem moved_scan {f : Nat → Nat} (increasing : StrictMono f) {s t : Text}
    (same : content (Text.lines t) = content ((Text.lines s).map (reindent f))) :
    (scan t).moved id = (scan s).moved f := by
  -- Both scans are one fold over the same keys, which start from nothing.
  have keys : (visibleLines (Text.lines t)).map keyOf =
      (visibleLines (Text.lines s)).map fun line => (f (indentOf line), Text.trim line) := by
    rw [← keys_content, same, keys_content, keys_reindent]
  calc (scan t).moved id = ((visibleLines (Text.lines t)).map keyOf).foldl Scan.place (Scan.start.moved id) :=
        Scan.moved_lines strictMono_id .start _
    _ = ((visibleLines (Text.lines s)).map fun line => (f (indentOf line), Text.trim line)).foldl
          Scan.place (Scan.start.moved f) := by rw [keys]; rfl
    _ = (scan s).moved f := (Scan.moved_lines increasing .start _).symm

namespace Entry

def moved (f : Nat → Nat) (entry : Entry) : Entry := { entry with indent := f entry.indent }

end Entry

namespace Definition

def outlined (definition : Definition) : Entry :=
  ⟨definition.indent, definition.name, definition.toHead.schema definition.notes,
    !TypeHint.isOptional definition.hint⟩

theorem outlined_moved (f : Nat → Nat) (definition : Definition) :
    (definition.moved f).outlined = definition.outlined.moved f := by
  have schema := Head.schema_congr (Text.tidyLines_tidyLines definition.notes) definition.toHead
  simp only [outlined, moved, Entry.moved, schema]

theorem Scanned.resolved_eq {definition : Definition} (h : definition.Scanned) :
    definition.resolved = definition.outlined := by
  rw [outlined, ← h.schema_resolved]
  rfl

end Definition

theorem resolved_scan (f : Nat → Nat) (t : Text) :
    ((scan t).moved f).definitions.map Definition.outlined =
      ((scan t).definitions.map Definition.resolved).map (Entry.moved f) := by
  rw [Scan.moved, List.map_map, List.map_map]
  refine List.map_congr_left fun definition mem => ?_
  rw [Function.comp_apply, Function.comp_apply, definition.outlined_moved,
    ((sound_scan t).definitions definition mem).resolved_eq]

section Nest

variable {f : Nat → Nat}

def Branch.moved (f : Nat → Nat) (branch : Branch) : Branch :=
  { branch with entry := branch.entry.moved f }

theorem hostOf_moved (increasing : StrictMono f) (entries : List Entry) (place : Nat)
    (entry : Entry) :
    hostOf (entries.map (Entry.moved f)) place (entry.moved f) = hostOf entries place entry := by
  have depths (entry : Entry) : (entry.moved f).indent = f entry.indent := rfl
  have hosts (entry : Entry) : (entry.moved f).schema.hosts = entry.schema.hosts := rfl
  rw [hostOf, hostOf, ← List.map_take]
  exact governing_map increasing depths hosts entry.indent (entries.take place)

theorem insertAll_moved (increasing : StrictMono f) (shape : Shape) (entries : List Entry) :
    insertAll shape (entries.map (Entry.moved f)) = insertAll shape entries := by
  have sorted := List.map_mergeSort (f := Entry.moved f) (l := entries)
    (r := (·.indent ≤ ·.indent)) (s := (·.indent ≤ ·.indent)) fun a _ b _ => by
      simp [Entry.moved, increasing.le_iff_le]
  rw [insertAll, insertAll, ← sorted, List.foldl_map]
  rfl

theorem entriesOf_moved (host : Option Nat) (branches : List Branch) :
    entriesOf host (branches.map (Branch.moved f)) =
      (entriesOf host branches).map (Entry.moved f) := by
  simp only [entriesOf, List.filter_map, List.map_map]
  rfl

theorem branch_moved (increasing : StrictMono f) (entries : List Entry) (row : Entry × Nat)
    (later : List Branch) :
    branch (entries.map (Entry.moved f)) (row.1.moved f, row.2) (later.map (Branch.moved f)) =
      (branch entries row later).map (Branch.moved f) := by
  have others : (later.map (Branch.moved f)).filter (·.host != some row.2) =
      (later.filter (·.host != some row.2)).map (Branch.moved f) := by
    rw [List.filter_map]
    rfl
  simp only [branch, entriesOf_moved, insertAll_moved increasing, hostOf_moved increasing, others,
    List.map_cons]
  rfl

theorem nest_moved (increasing : StrictMono f) (entries : List Entry) :
    nest (entries.map (Entry.moved f)) = nest entries := by
  have fold (rows : List (Entry × Nat)) :
      (rows.map (Prod.map (Entry.moved f) id)).foldr (branch (entries.map (Entry.moved f))) [] =
        (rows.foldr (branch entries) []).map (Branch.moved f) := by
    induction rows with
    | nil => rfl
    | cons row rest ih =>
      rw [List.map_cons, List.foldr_cons, ih, List.foldr_cons]
      exact branch_moved increasing entries row _
  rw [nest, nest, branches, branches, List.zipIdx_map, fold, entriesOf_moved,
    insertAll_moved increasing]

end Nest

theorem tidyLines_content (ls : List Text) : Text.tidyLines (content ls) = Text.tidyLines ls := by
  rw [content, Text.tidyLines_map fun line _ => Text.trim_trimEnd line, tidyLines_visibleLines]

theorem tidy_reindented {f : Nat → Nat} {s t : Text}
    (same : content (Text.lines t) = content ((Text.lines s).map (reindent f))) :
    Text.tidy t = Text.tidy s := by
  rw [Text.tidy_eq, Text.tidy_eq, ← tidyLines_content, same, tidyLines_content,
    Text.tidyLines_map fun line _ => trim_reindent f line]

/-- A text is read alike when its indentations are changed and keep their order, whatever blanks
stand at the ends of lines and whatever blank lines stand between them. -/
theorem read_reindented {f : Nat → Nat} (increasing : StrictMono f) {s t : Text}
    (same : content (Text.lines t) = content ((Text.lines s).map (reindent f))) : read t = read s := by
  -- The two scans differ in the indentations of their definitions only, and in the blanks of notes.
  have moved := moved_scan increasing same
  have definitions : (scan t).definitions.map (Definition.moved id) =
      (scan s).definitions.map (Definition.moved f) := congrArg Scan.definitions moved
  have prose : Text.tidyLines (scan t).prose = Text.tidyLines (scan s).prose :=
    congrArg Scan.prose moved
  have none : (scan t).definitions = [] ↔ (scan s).definitions = [] := by
    rw [← List.map_eq_nil_iff, definitions, List.map_eq_nil_iff]
  have nested : nest ((scan t).definitions.map Definition.resolved) =
      nest ((scan s).definitions.map Definition.resolved) := by
    rw [← nest_moved strictMono_id, ← resolved_scan, moved, resolved_scan, nest_moved increasing]
  rw [read_eq, read_eq, tidy_reindented same, tidy_prose, tidy_prose, prose, nested]
  simp only [none]

theorem read_reindented_user :
    StrictMono (2 * · + 1) ∧
      content (Text.lines "\n user (dict): The user.  \n\n     id (int): Unique.\n") =
        content ((Text.lines "user (dict): The user.\n  id (int): Unique.").map (reindent (2 * · + 1))) ∧
      read "\n user (dict): The user.  \n\n     id (int): Unique.\n" =
        read "user (dict): The user.\n  id (int): Unique." := by
  have increasing : StrictMono (2 * · + 1) := fun a b (less : a < b) => by
    show 2 * a + 1 < 2 * b + 1
    omega
  have same : content (Text.lines "\n user (dict): The user.  \n\n     id (int): Unique.\n") =
      content ((Text.lines "user (dict): The user.\n  id (int): Unique.").map (reindent (2 * · + 1))) := by
    decide +kernel
  exact ⟨increasing, same, read_reindented increasing same⟩

end CallSchema.Outline
