import CallSchema.Proofs.Outline.Inline

set_option autoImplicit false

namespace CallSchema

namespace Shape

theorem insert_of_not_mem {shape : Shape} {name : Text}
    (known : name ∉ shape.properties.map Prod.fst) (needed : name ∉ shape.required)
    (schema : Schema) (required : Bool) :
    shape.insert name schema required =
      ⟨shape.properties ++ [(name, schema)],
        if required then shape.required ++ [name] else shape.required⟩ := by
  simp [insert, Table.put_of_not_mem known, needed]

end Shape

namespace Outline

namespace Label

def entry (indent : Nat) (label : Label) (schema : Schema) : Entry :=
  ⟨indent, label.name, schema, !TypeHint.isOptional label.hint⟩

theorem scanned_definition {indent : Nat} {label : Label}
    (inside : ∀ note ∈ label.notes, Text.blank note = false → indent < indentOf note) :
    (label.definition indent).Scanned := by
  refine ⟨⟨Text.trim_trim _, fun mem => label.summaryLine.1 (Text.mem_of_mem_trim mem)⟩, ?_⟩
  intro note mem
  obtain ⟨known, visible⟩ := List.mem_filter.mp mem
  have shown : Text.blank note = false := by simpa using visible
  exact ⟨label.notesProse note known, shown, inside note known shown, (label.notesLine note known).1⟩

theorem text_eq (label : Label) :
    label.text = Text.joinLines (Text.tidyLines (label.head.summary :: visibleLines label.notes)) := by
  have plain : ∀ line ∈ label.summary :: label.notes, '\n' ∉ line :=
    List.forall_mem_cons.mpr ⟨label.summaryLine.1, fun note mem => (label.notesLine note mem).1⟩
  rw [Label.text, Text.tidy_joinLines plain, head, Text.tidyLines_cons, Text.tidyLines_cons,
    Text.trim_trim, tidyLines_visibleLines]

theorem resolved_definition {indent : Nat} {label : Label}
    (inside : ∀ note ∈ label.notes, Text.blank note = false → indent < indentOf note)
    (plain : label.value.hosts = true → head? label.summary = none) :
    (label.definition indent).resolved = label.entry indent (label.value.describe label.text) := by
  have inline : label.head.inline? = none := by
    unfold Head.inline?
    split
    · next hosts => rw [head, head?_trim, plain hosts]
    · rfl
  have schema : (label.definition indent).resolved.schema = label.value.describe label.text := by
    rw [(scanned_definition inside).schema_resolved, text_eq]
    exact Head.schema_of_plain inline _
  exact congrArg (label.entry indent) schema

theorem schema_eq (label : Label) (inner : Shape) (change : Shape → Shape)
    (same : change .empty = inner) :
    (label.value.describe label.text).onHost change = label.schema inner := by
  rw [Schema.onHost_of_empty, same, schema]
  rw [Schema.host?_describe]
  exact host?_schema _

end Label

theorem branch_append {all own : List Entry} {entry : Entry} {place : Nat} {later : List Branch}
    (outer : ∀ branch ∈ later, branch.host ≠ some place) :
    branch all (entry, place) (own.map (Branch.mk (some place)) ++ later) =
      ⟨hostOf all place entry, { entry with schema := entry.schema.onHost (insertAll · own) }⟩ ::
        later := by
  have kept : later.filter (·.host != some place) = later := by
    rw [List.filter_eq_self]
    intro branch mem
    simpa using outer branch mem
  have none : later.filter (·.host == some place) = [] := by
    rw [List.filter_eq_nil_iff]
    intro branch mem
    simpa using outer branch mem
  have entries : entriesOf (some place) (own.map (Branch.mk (some place)) ++ later) = own := by
    simp [entriesOf, none, List.filter_map, Function.comp_def]
  have others : (own.map (Branch.mk (some place)) ++ later).filter (·.host != some place) = later := by
    simp [kept, List.filter_map, Function.comp_def]
  simp only [branch, entries, others]

namespace Forest

def entries (width : Nat → Nat) (depth : Nat) : Forest → List Entry
  | .nil => []
  | .cons label children rest =>
    label.entry (width depth) (label.value.describe label.text) ::
      (children.entries width (depth + 1) ++ rest.entries width depth)

def roots (indent : Nat) : Forest → List Entry
  | .nil => []
  | .cons label children rest =>
    label.entry indent (label.schema children.shape) :: rest.roots indent

variable {width : Nat → Nat}

theorem resolved_definitions {forest : Forest} {depth : Nat} (fits : forest.Fits width depth) :
    (forest.definitions width depth).map Definition.resolved = forest.entries width depth := by
  induction forest generalizing depth with
  | nil => rfl
  | cons label children rest inner later =>
    obtain ⟨notes, plain, -, -, childrenFit, restFit⟩ := fits
    have inside := fun note mem visible => (notes note mem visible).1
    rw [definitions, List.map_cons, List.map_append, Label.resolved_definition inside plain,
      inner childrenFit, later restFit, entries]

theorem foldl_insertEntry {forest : Forest} {depth : Nat} (fits : forest.Fits width depth)
    (indent : Nat) {shape : Shape} (known : ∀ name ∈ forest.names, name ∉ shape.properties.map Prod.fst)
    (needed : ∀ name ∈ forest.names, name ∉ shape.required) :
    (forest.roots indent).foldl insertEntry shape =
      ⟨shape.properties ++ forest.shape.properties, shape.required ++ forest.shape.required⟩ := by
  induction forest generalizing shape with
  | nil => simp [roots, Forest.shape, Shape.empty]
  | cons label children rest inner later =>
    obtain ⟨-, -, -, fresh, -, restFit⟩ := fits
    have other : ∀ name ∈ rest.names, name ≠ label.name := by
      rintro name mem rfl
      exact fresh mem
    have first := Shape.insert_of_not_mem (known label.name (by simp [names]))
      (needed label.name (by simp [names])) (label.schema children.shape)
      (!TypeHint.isOptional label.hint)
    rw [roots, List.foldl_cons, insertEntry, Label.entry, first, later restFit]
    · cases optional : TypeHint.isOptional label.hint <;> simp [Forest.shape, optional]
    · intro name mem
      have := known name (by simp [names, mem])
      have := other name mem
      simp_all
    · intro name mem
      have := needed name (by simp [names, mem])
      have := other name mem
      split <;> simp_all

theorem insertAll_roots {forest : Forest} {depth : Nat} (fits : forest.Fits width depth)
    (indent : Nat) : insertAll .empty (forest.roots indent) = forest.shape := by
  have level : ∀ entry ∈ forest.roots indent, entry.indent = indent := by
    intro entry mem
    clear fits
    induction forest with
    | nil => cases mem
    | cons label children rest _ later =>
      rcases List.mem_cons.mp mem with rfl | mem
      · rfl
      · exact later mem
  -- All roots have one indentation, so that sorting leaves their order alone.
  rw [insertAll_of_level level, foldl_insertEntry fits indent] <;> simp [Shape.empty]

theorem exists_level {forest : Forest} {depth : Nat} {entry : Entry}
    (h : entry ∈ forest.entries width depth) :
    ∃ level, depth ≤ level ∧ entry.indent = width level := by
  induction forest generalizing depth with
  | nil => cases h
  | cons label children rest inner later =>
    rcases List.mem_cons.mp h with rfl | h
    · exact ⟨depth, Nat.le_refl _, rfl⟩
    rcases List.mem_append.mp h with h | h
    · obtain ⟨level, deep, found⟩ := inner h
      exact ⟨level, by omega, found⟩
    · exact later h

structure Placed (width : Nat → Nat) (depth : Nat) (before : List Entry) (host : Option Nat) :
    Prop where
  levels : ∀ entry ∈ before, ∃ level, entry.indent = width level
  governed : governing (·.indent) (·.schema.hosts) (width depth) before = host

theorem Placed.lt {depth : Nat} {before : List Entry} {host : Option Nat}
    (h : Placed width depth before host) : ∀ place ∈ host, place < before.length := by
  intro place found
  exact governing_lt (h.governed.trans found)

theorem Placed.append {depth : Nat} {before : List Entry} {host : Option Nat}
    (increasing : StrictMono width) (h : Placed width depth before host) {more : List Entry}
    (deep : ∀ entry ∈ more, ∃ level, depth ≤ level ∧ entry.indent = width level) :
    Placed width depth (before ++ more) host := by
  constructor
  · intro entry mem
    rcases List.mem_append.mp mem with old | new
    · exact h.levels entry old
    · obtain ⟨level, -, found⟩ := deep entry new
      exact ⟨level, found⟩
  · rw [governing_append, h.governed]
    intro entry mem _
    obtain ⟨level, lower, found⟩ := deep entry mem
    rw [found]
    exact increasing.monotone lower

theorem Placed.inside {depth : Nat} {before : List Entry} {host : Option Nat}
    (increasing : StrictMono width) (h : Placed width depth before host) {entry : Entry}
    (level : entry.indent = width depth) (hosts : entry.schema.hosts = true) :
    Placed width (depth + 1) (before ++ [entry]) (some before.length) := by
  have deeper := increasing (Nat.lt_add_one depth)
  -- The new host stands last, and nothing shallower than the next depth is deeper than it.
  refine ⟨(h.append increasing ?_).levels, governing_concat hosts (by omega) ?_⟩
  · intro other mem
    obtain rfl := List.mem_singleton.mp mem
    exact ⟨depth, Nat.le_refl _, level⟩
  · intro other mem shallow
    obtain ⟨lower, found⟩ := h.levels other mem
    have shallower : lower < depth + 1 := increasing.lt_iff_lt.mp (by omega)
    rw [found, level]
    exact increasing.monotone (Nat.le_of_lt_succ shallower)

def Outer (limit : Nat) (branches : List Branch) : Prop :=
  ∀ branch ∈ branches, ∀ place ∈ branch.host, place < limit

theorem Outer.mono {limit wider : Nat} {branches : List Branch} (h : Outer limit branches)
    (le : limit ≤ wider) : Outer wider branches :=
  fun branch mem place found => Nat.lt_of_lt_of_le (h branch mem place found) le

theorem Outer.host_ne {limit : Nat} {branches : List Branch} (h : Outer limit branches) :
    ∀ branch ∈ branches, branch.host ≠ some limit :=
  fun branch mem same => Nat.lt_irrefl limit (h branch mem limit same)

theorem Placed.outer {depth : Nat} {before : List Entry} {host : Option Nat}
    (h : Placed width depth before host) (own : List Entry) {later : List Branch}
    (outer : Outer before.length later) :
    Outer before.length (own.map (Branch.mk host) ++ later) := by
  intro branch mem place found
  rcases List.mem_append.mp mem with root | old
  · obtain ⟨entry, -, rfl⟩ := List.mem_map.mp root
    exact h.lt place found
  · exact outer branch old place found

theorem foldr_branch (increasing : StrictMono width) {all : List Entry} {forest : Forest}
    {depth : Nat} (fits : forest.Fits width depth) {before after : List Entry}
    (whole : all = before ++ (forest.entries width depth ++ after)) {host : Option Nat}
    (placed : Placed width depth before host) {later : List Branch}
    (outer : Outer before.length later) :
    ((forest.entries width depth).zipIdx before.length).foldr (branch all) later =
      (forest.roots (width depth)).map (Branch.mk host) ++ later := by
  induction forest generalizing depth before after host later with
  | nil => rfl
  | cons label children rest inner next =>
    -- From right to left: the definitions after this one, those inside it, and then itself.
    obtain ⟨-, -, hosts, -, childrenFit, restFit⟩ := fits
    let first := label.entry (width depth) (label.value.describe label.text)
    let below := children.entries width (depth + 1)
    let wide := (rest.roots (width depth)).map (Branch.mk host) ++ later
    have deep : ∀ entry ∈ first :: below, ∃ level, depth ≤ level ∧ entry.indent = width level := by
      intro entry mem
      rcases List.mem_cons.mp mem with rfl | mem
      · exact ⟨depth, Nat.le_refl _, rfl⟩
      · obtain ⟨level, lower, found⟩ := exists_level mem
        exact ⟨level, by omega, found⟩
    have right : ((rest.entries width depth).zipIdx (before.length + 1 + below.length)).foldr
        (branch all) later = wide := by
      have wholeRest : all = (before ++ first :: below) ++ (rest.entries width depth ++ after) := by
        simp [whole, entries, first, below]
      have place : (before ++ first :: below).length = before.length + 1 + below.length := by
        simp only [List.length_append, List.length_cons]
        omega
      rw [← place]
      exact next restFit wholeRest (placed.append increasing deep) (outer.mono (by omega))
    -- So far every branch belongs to a host on the left, and none to this definition.
    have outerRest : Outer before.length wide := placed.outer _ outer
    have inside : (below.zipIdx (before.length + 1)).foldr (branch all) wide =
        (children.roots (width (depth + 1))).map (Branch.mk (some before.length)) ++ wide := by
      by_cases leaf : children = .nil
      · subst leaf
        rfl
      · have wholeBelow : all = (before ++ [first]) ++ (below ++ (rest.entries width depth ++ after)) := by
          simp [whole, entries, first, below]
        have own : first.schema.hosts = true := by simpa [first, Label.entry] using hosts leaf
        have place : (before ++ [first]).length = before.length + 1 := by simp
        rw [← place]
        exact inner childrenFit wholeBelow (placed.inside increasing rfl own)
          (outerRest.mono (by omega))
    -- Its own host is looked for among the entries before it only.
    have row : all.take before.length = before := by simp [whole]
    have filled : (label.value.describe label.text).onHost
        (insertAll · (children.roots (width (depth + 1)))) = label.schema children.shape :=
      label.schema_eq _ _ (insertAll_roots childrenFit _)
    rw [entries, List.zipIdx_cons, List.foldr_cons, List.zipIdx_append, List.foldr_append, right,
      inside, branch_append outerRest.host_ne]
    simp only [Label.entry, filled, hostOf, row, placed.governed, roots, List.map_cons,
      List.cons_append, wide]

theorem nest_entries (increasing : StrictMono width) {forest : Forest}
    (fits : forest.Fits width 0) : nest (forest.entries width 0) = forest.shape := by
  have top : Placed width 0 [] none := ⟨by simp, rfl⟩
  have taken : branches (forest.entries width 0) =
      (forest.roots (width 0)).map (Branch.mk none) := by
    have whole : forest.entries width 0 = [] ++ (forest.entries width 0 ++ []) := by simp
    have outer : Outer 0 [] := by simp [Outer]
    have folded := foldr_branch increasing fits whole top outer
    rwa [List.append_nil] at folded
  rw [nest, taken, entriesOf_map, insertAll_roots fits]

theorem isLine_of_mem_lines {forest : Forest} {depth : Nat} {line : Text}
    (h : line ∈ forest.lines width depth) : Text.IsLine line := by
  induction forest generalizing depth with
  | nil => cases h
  | cons label children rest inner later =>
    rcases List.mem_cons.mp h with rfl | h
    · exact label.isLine_line _
    rcases List.mem_append.mp h with note | h
    · exact label.notesLine line note
    rcases List.mem_append.mp h with deep | wide
    · exact inner deep
    · exact later wide

end Forest

/-- Prose and a forest, written out at any increasing indentation, are read as they were. -/
theorem read_forest {width : Nat → Nat} (increasing : StrictMono width) {leading : List Text}
    (lines : ∀ line ∈ leading, Text.IsLine line) (prose : ∀ line ∈ leading, head? line = none)
    {forest : Forest} (visible : forest ≠ .nil) (fits : forest.Fits width 0) :
    read (Text.joinLines (leading ++ forest.lines width 0)) =
      ⟨Text.tidy (Text.joinLines leading), some forest.shape⟩ := by
  have whole : scan (Text.joinLines (leading ++ forest.lines width 0)) =
      (forest.lines width 0).foldl Scan.line (leading.foldl Scan.line .start) := by
    rw [scan_joinLines, scanLines, List.foldl_append]
    intro line mem
    rcases List.mem_append.mp mem with early | own
    · exact lines line early
    · exact Forest.isLine_of_mem_lines own
  have free : ∀ run ∈ Scan.start.run, run.owner = none := by simp [Scan.start]
  obtain ⟨none, kept⟩ := Scan.lines_leading prose rfl free
  have levels : Levels width (leading.foldl Scan.line .start).definitions := by
    simp [Levels, none]
  obtain ⟨definitions, keptToo⟩ := Forest.scan_lines increasing fits levels
  have some : forest.definitions width 0 ≠ [] := by
    cases forest with
    | nil => exact absurd rfl visible
    | cons => simp [Forest.definitions]
  have tidied : Text.tidy (Text.joinLines (visibleLines leading)) =
      Text.tidy (Text.joinLines leading) := by
    have early : ∀ line ∈ visibleLines leading, '\n' ∉ line := fun line mem =>
      (lines line (List.mem_of_mem_filter mem)).1
    rw [Text.tidy_joinLines early, tidyLines_visibleLines,
      Text.tidy_joinLines fun line mem => (lines line mem).1]
  rw [read_eq, whole, definitions, none, keptToo, kept, List.nil_append, if_neg some,
    Forest.resolved_definitions fits, Forest.nest_entries increasing fits]
  simp only [Scan.start, List.nil_append, tidied]

namespace Label

def user : Label where
  dash := true
  quote := none
  name := "user"
  hint := "dict"
  summary := "The user."
  notes := ["   Must be known.".toList]
  nameIdentifier := by decide +kernel
  hintTrim := by decide
  hintVisible := by decide
  hintLine := by decide
  hintOpen := by decide
  hintClose := by decide
  summaryLine := by decide
  notesLine := by decide
  notesProse := by decide +kernel

def age : Label where
  dash := false
  quote := some ⟨'"', by decide⟩
  name := "age"
  hint := "int, optional"
  summary := "In years."
  notes := []
  nameIdentifier := by decide +kernel
  hintTrim := by decide
  hintVisible := by decide
  hintLine := by decide
  hintOpen := by decide
  hintClose := by decide
  summaryLine := by decide
  notesLine := by simp
  notesProse := by simp

theorem value_user : user.value = .anyObject := by
  have hint : valueHint "dict" = "dict".toList := by decide +kernel
  change TypeHint.schema (valueHint "dict") = _
  rw [hint, TypeHint.schema_eq]
  rfl

theorem value_age : age.value = .integer := by
  have hint : valueHint "int, optional" = "int".toList := by decide +kernel
  change TypeHint.schema (valueHint "int, optional") = _
  rw [hint, TypeHint.schema_eq]
  rfl

end Label

namespace Forest

def request : Forest := .cons .user (.cons .age .nil .nil) .nil

theorem fits_request : request.Fits (4 * ·) 0 := by
  have user : Label.user.value.hosts = true := by
    rw [Label.value_user]
    rfl
  refine ⟨by decide +kernel, fun _ => by decide +kernel, fun _ => user, List.not_mem_nil, ?_, trivial⟩
  exact ⟨by decide +kernel, fun _ => by decide +kernel, fun some => absurd rfl some,
    List.not_mem_nil, trivial, trivial⟩

theorem shape_request : request.shape =
    ⟨[("user", .object (some "The user.\nMust be known.".toList)
        [("age", .scalar (some "In years.".toList) .integer)] [])], ["user"]⟩ := by
  have user : Label.user.text = "The user.\nMust be known.".toList := by decide +kernel
  have age : Label.age.text = "In years.".toList := by decide +kernel
  have needed : TypeHint.isOptional Label.user.hint = false := by decide +kernel
  have optional : TypeHint.isOptional Label.age.hint = true := by decide +kernel
  simp only [request, Forest.shape, Label.schema, Label.value_user, Label.value_age, user, age,
    needed, optional]
  rfl

end Forest

theorem read_forest_request :
    read "The request.\n- user (dict): The user.\n   Must be known.\n    \"age\" (int, optional): In years." =
      ⟨"The request.", some ⟨[("user", .object (some "The user.\nMust be known.".toList)
        [("age", .scalar (some "In years.".toList) .integer)] [])], ["user"]⟩⟩ := by
  have lines : Text.joinLines (["The request.".toList] ++ Forest.request.lines (4 * ·) 0) =
      "The request.\n- user (dict): The user.\n   Must be known.\n    \"age\" (int, optional): In years.".toList := by
    decide +kernel
  rw [← lines, read_forest (fun a b less => by simpa using less) (by decide) (by decide +kernel)
    (by simp [Forest.request]) Forest.fits_request, Forest.shape_request]
  rfl

end Outline

end CallSchema
