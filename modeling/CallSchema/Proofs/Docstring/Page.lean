import CallSchema.Proofs.Docstring.Sections

set_option autoImplicit false

namespace CallSchema.Docstring

section Titles

theorem title_facts : ∀ title ∈ parameterTitles ++ otherTitles,
    Text.trim title = title ∧ '\n' ∉ title ∧ '\t' ∉ title ∧ ':' ∉ title ∧ title ≠ [] := by
  decide +kernel

theorem not_parameterTitles : ∀ title ∈ otherTitles, title ∉ parameterTitles := by
  decide +kernel

theorem inline_title {title : Text} (known : title ∈ parameterTitles ++ otherTitles) :
    Inline title := by
  obtain ⟨trimmed, newline, tab, -, -⟩ := title_facts title known
  exact ⟨trimmed, newline, tab⟩

theorem exists_cons_title {title : Text} (known : title ∈ parameterTitles ++ otherTitles) :
    ∃ first rest, title = first :: rest ∧ Text.isBlank first = false :=
  (inline_title known).exists_cons (title_facts title known).2.2.2.2

def titleLine (title : Text) : Text := title ++ [':']

theorem sectionOf?_titleLine {title : Text} (known : title ∈ parameterTitles ++ otherTitles) :
    sectionOf? (titleLine title) =
      if parameterTitles.contains title then some .parameters
      else if otherTitles.contains title then some .other else none := by
  have split : Text.splitFirst? [':'] (titleLine title) = some (title, []) :=
    Text.splitFirst?_singleton (title_facts title known).2.2.2.1 []
  rw [sectionOf?, split]
  rfl

theorem plain_titleLine {title : Text} (known : title ∈ parameterTitles ++ otherTitles) :
    Plain (titleLine title) := by
  have inline := inline_title known
  refine ⟨?_, ?_, Text.trimEnd_append_eq_self (by simp) rfl title⟩
  · simp [titleLine, inline.newline]
  · simp [titleLine, inline.tab]

theorem indentOf_titleLine {title : Text} (known : title ∈ parameterTitles ++ otherTitles) :
    indentOf (titleLine title) = 0 := by
  obtain ⟨first, rest, rfl, visible⟩ := exists_cons_title known
  exact indentOf_of_visible visible (rest ++ [':'])

theorem isInner_titleLine {title : Text} (known : title ∈ parameterTitles ++ otherTitles) :
    isInner (titleLine title) = false := by
  have shown : Text.blank (titleLine title) = false :=
    (plain_titleLine known).blank_eq_false (by simp [titleLine])
  rw [isInner, shown, indentOf_titleLine known]
  rfl

theorem sectionOf?_of_indented {line : Text} (h : 0 < indentOf line) : sectionOf? line = none := by
  rw [Option.eq_none_iff_forall_ne_some]
  intro kind found
  obtain ⟨⟨title, after⟩, split, found⟩ := Option.bind_eq_some_iff.mp found
  obtain ⟨-, -, found⟩ := Option.bind_eq_some_iff.mp found
  have known : title ∈ parameterTitles ++ otherTitles := by
    split at found
    · next own =>
      exact List.mem_append_left _ (by simpa using own)
    split at found
    · next own =>
      exact List.mem_append_right _ (by simpa using own)
    · cases found
  -- A known title opens with a visible character, and so does the line.
  obtain ⟨first, rest, rfl, visible⟩ := exists_cons_title known
  rw [Text.append_of_splitFirst? split] at h
  have flush := indentOf_of_visible visible (rest ++ [':'] ++ after)
  simp only [List.cons_append] at h flush
  omega

end Titles

theorem isInner_indentBy {width : Nat} (positive : 0 < width) (line : Text) :
    isInner (indentBy width line) = true := by
  by_cases empty : line = []
  · rw [indentBy, if_pos empty]
    rfl
  · rw [indentBy, if_neg empty, isInner, indentOf_replicate_append]
    simp [show 0 < width + indentOf line by omega]

structure ParameterPart where
  title : Text
  -- How far the items stand to the right of the title.
  base : Nat
  before : Nat
  items : List Written
  known : title ∈ parameterTitles
  indented : 0 < base

structure OtherPart where
  title : Text
  body : List Text
  known : title ∈ otherTitles
  plain : ∀ line ∈ body, Plain line
  inner : ∀ line ∈ body, isInner line = true

def ParameterPart.body (part : ParameterPart) : List Text :=
  emptyLines part.before ++ part.items.flatMap (Written.lines part.base)

namespace Written

theorem mem_below {base : Nat} {written : Written} {line : Text} (h : line ∈ written.below base) :
    line = [] ∨ ∃ inner ∈ written.rest, line = indentBy (base + written.deeper) inner := by
  simp only [below, List.mem_append, List.mem_map] at h
  rcases h with before | ⟨inner, mem, rfl⟩ | after
  · exact .inl (mem_emptyLines before)
  · exact .inr ⟨inner, mem, rfl⟩
  · exact .inl (mem_emptyLines after)

theorem plain_of_mem_lines {base : Nat} {written : Written} {line : Text}
    (h : line ∈ written.lines base) : Plain line := by
  rcases List.mem_cons.mp h with rfl | below
  · exact written.plain_head.indentBy base
  rcases mem_below below with rfl | ⟨inner, mem, rfl⟩
  · exact plain_nil
  · exact (written.restPlain inner mem).indentBy _

theorem inner_of_mem_lines {base : Nat} (positive : 0 < base) {written : Written} {line : Text}
    (h : line ∈ written.lines base) : isInner line = true := by
  rcases List.mem_cons.mp h with rfl | below
  · exact isInner_indentBy positive _
  rcases mem_below below with rfl | ⟨inner, mem, rfl⟩
  · rfl
  · exact isInner_indentBy (by omega) _

theorem opens_head (base : Nat) (written : Written) : Opens base (indentBy base written.head) := by
  have some : written.head ≠ [] := by simp [head]
  constructor
  · apply (written.plain_head.indentBy base).blank_eq_false
    simp [indentBy, some]
  · rw [indentBy, if_neg some, indentOf_replicate_append, written.indentOf_head]
    exact Nat.le_refl _

theorem not_opens_below {base : Nat} {written : Written} {line : Text}
    (h : line ∈ written.below base) : ¬ Opens base line := by
  rintro ⟨visible, shallow⟩
  rcases mem_below h with rfl | ⟨inner, -, rfl⟩
  · exact absurd visible (by decide)
  · have some : inner ≠ [] := by
      rintro rfl
      exact absurd visible (by simp [indentBy])
    have := written.indented
    rw [indentBy, if_neg some, indentOf_replicate_append] at shallow
    omega

theorem itemLines_lines (base : Nat) (items : List Written) :
    itemLines base (items.flatMap (lines base)) =
      ([], items.map fun written => (indentBy base written.head, written.below base)) := by
  induction items with
  | nil => rfl
  | cons written rest ih =>
    rw [List.flatMap_cons, lines, List.cons_append, itemLines_cons_of_opens (written.opens_head base),
      itemLines_append (fun line => not_opens_below), ih, List.append_nil, List.map_cons]

end Written

namespace ParameterPart

theorem mem_body {part : ParameterPart} {line : Text} (h : line ∈ part.body) :
    line = [] ∨ ∃ written ∈ part.items, line ∈ written.lines part.base := by
  rcases List.mem_append.mp h with before | own
  · exact .inl (mem_emptyLines before)
  · exact .inr (List.mem_flatMap.mp own)

theorem itemsOf_body (part : ParameterPart) :
    itemsOf part.body = part.items.map Written.item := by
  have empty : ∀ line ∈ emptyLines part.before, ¬ Opens part.base line := by
    rintro line mem ⟨visible, -⟩
    rw [mem_emptyLines mem] at visible
    exact absurd visible (by decide)
  have skipped : (emptyLines part.before).find? (!Text.blank ·) = none := by
    rw [List.find?_eq_none]
    intro line mem
    rw [mem_emptyLines mem]
    decide
  have cut : (itemLines part.base part.body).2.map itemOf = part.items.map Written.item := by
    rw [body, itemLines_append empty, Written.itemLines_lines, List.map_map]
    apply List.map_congr_left
    intro written _
    exact written.ofLines_lines part.base
  cases items : part.items with
  | nil =>
    have none : part.body.find? (!Text.blank ·) = none := by
      rw [body, items, List.flatMap_nil, List.append_nil, skipped]
    rw [itemsOf, none]
    rfl
  | cons written rest =>
    have first : part.body.find? (!Text.blank ·) = some (indentBy part.base written.head) := by
      rw [body, items, List.find?_append, skipped, Option.none_or, List.flatMap_cons, Written.lines,
        List.cons_append, List.find?_cons_of_pos]
      simp [(written.opens_head part.base).1]
    -- The first item's head is what gives the section its indentation.
    have base : indentOf (indentBy part.base written.head) = part.base := by
      have some : written.head ≠ [] := by simp [Written.head]
      rw [indentBy, if_neg some, indentOf_replicate_append, written.indentOf_head, Nat.add_zero]
    rw [itemsOf, first, ← items, ← cut]
    simp only [base]
    rfl

end ParameterPart

inductive Part where
  | parameters (part : ParameterPart)
  | other (part : OtherPart)

namespace Part

def kind : Part → Section
  | .parameters _ => .parameters
  | .other _ => .other

def title : Part → Text
  | .parameters part => part.title
  | .other part => part.title

def body : Part → List Text
  | .parameters part => part.body
  | .other part => part.body

def lines (part : Part) : List Text := titleLine part.title :: part.body

def items : Part → List Item
  | .parameters part => part.items.map Written.item
  | .other _ => []

theorem known (part : Part) : part.title ∈ parameterTitles ++ otherTitles := by
  cases part with
  | parameters part => exact List.mem_append_left _ part.known
  | other part => exact List.mem_append_right _ part.known

theorem inner_of_mem_body {part : Part} {line : Text} (h : line ∈ part.body) :
    isInner line = true := by
  cases part with
  | parameters part =>
    rcases ParameterPart.mem_body h with rfl | ⟨written, -, own⟩
    · rfl
    · exact Written.inner_of_mem_lines part.indented own
  | other part => exact part.inner line h

theorem plain_of_mem_lines {part : Part} {line : Text} (h : line ∈ part.lines) : Plain line := by
  rcases List.mem_cons.mp h with rfl | h
  · exact plain_titleLine part.known
  cases part with
  | parameters part =>
    rcases ParameterPart.mem_body h with rfl | ⟨written, -, own⟩
    · exact plain_nil
    · exact Written.plain_of_mem_lines own
  | other part => exact part.plain line h

theorem sectionOf?_title (part : Part) : sectionOf? (titleLine part.title) = some part.kind := by
  rw [sectionOf?_titleLine part.known]
  cases part with
  | parameters part => simp [title, part.known, kind]
  | other part => simp [title, part.known, not_parameterTitles _ part.known, kind]

theorem sections_lines (parts : List Part) :
    sections (parts.flatMap lines) = ([], parts.map fun part => (part.kind, part.body)) := by
  induction parts with
  | nil => rfl
  | cons part rest ih =>
    rw [List.flatMap_cons, lines, List.cons_append,
      sections_cons_of_title (isInner_titleLine part.known) part.sectionOf?_title,
      sections_append (fun line => inner_of_mem_body), ih, List.append_nil, List.map_cons]

theorem itemsOfSections_lines (parts : List Part) :
    itemsOfSections (sections (parts.flatMap lines)).2 = parts.flatMap items := by
  rw [sections_lines, itemsOfSections, List.flatMap_map]
  congr 1
  funext part
  cases part with
  | parameters part => exact part.itemsOf_body
  | other part => rfl

end Part

-- A docstring as it is written: its first line, a longer description, and its sections, with empty
-- lines between them.
structure Page where
  short : Text
  long : List Text
  parts : List Part
  beforeLong : Nat
  beforeParts : Nat
  shortInline : Inline short
  shortVisible : short ≠ []
  shortPlain : sectionOf? short = none
  longPlain : ∀ line ∈ long, Plain line
  -- An indented line opens no section, whatever it says.
  longProse : ∀ line ∈ long, indentOf line = 0 → sectionOf? line = none
  longFirst : ∀ line ∈ long.head?, line ≠ [] ∧ indentOf line = 0
  longLast : long.getLast? ≠ some []

namespace Page

def rest (page : Page) : List Text :=
  emptyLines page.beforeLong ++
    (page.long ++ (emptyLines page.beforeParts ++ page.parts.flatMap Part.lines))

def text (margin : Nat) (page : Page) : Text :=
  Text.joinLines (page.short :: page.rest.map (indentBy margin))

def docstring (page : Page) : Docstring where
  short := some page.short
  long := if page.long = [] then none else some (Text.joinLines page.long)
  items := page.parts.flatMap Part.items

theorem mem_rest {page : Page} {line : Text} (h : line ∈ page.rest) :
    line = [] ∨ line ∈ page.long ∨ ∃ part ∈ page.parts, line ∈ part.lines := by
  simp only [rest, List.mem_append, List.mem_flatMap] at h
  rcases h with before | long | between | parts
  · exact .inl (mem_emptyLines before)
  · exact .inr (.inl long)
  · exact .inl (mem_emptyLines between)
  · exact .inr (.inr parts)

theorem plain_of_mem_rest {page : Page} {line : Text} (h : line ∈ page.rest) : Plain line := by
  rcases mem_rest h with rfl | long | ⟨part, -, own⟩
  · exact plain_nil
  · exact page.longPlain line long
  · exact Part.plain_of_mem_lines own

theorem level_rest (page : Page) : Level page.rest := by
  rintro ⟨line, mem, some⟩
  rcases mem_rest mem with rfl | long | ⟨part, known, -⟩
  · exact absurd rfl some
  -- The first line of the longer description and the titles of the sections are not indented.
  · obtain ⟨first, others, whole⟩ := List.exists_cons_of_ne_nil (List.ne_nil_of_mem long)
    obtain ⟨visible, flush⟩ := page.longFirst first (by rw [whole]; rfl)
    exact ⟨first, by simp [rest, whole], visible, flush⟩
  · have title : titleLine part.title ∈ page.parts.flatMap Part.lines :=
      List.mem_flatMap.mpr ⟨part, known, by simp [Part.lines]⟩
    exact ⟨titleLine part.title, by simp [rest, title], by simp [titleLine],
      indentOf_titleLine part.known⟩

theorem exists_layout (margin : Nat) (page : Page) :
    ∃ count, page.short :: page.rest = layout (page.text margin) ++ emptyLines count := by
  have plain : ∀ line ∈ page.short :: page.rest.map (indentBy margin), Plain line := by
    intro line mem
    rcases List.mem_cons.mp mem with rfl | mem
    · exact page.shortInline.plain
    · obtain ⟨inner, known, rfl⟩ := List.mem_map.mp mem
      exact (plain_of_mem_rest known).indentBy margin
  obtain ⟨closing, whole⟩ := Text.exists_lines_joinLines fun line mem => (plain line mem).isLine
  change _ = Text.lines (page.text margin) ++ emptyLines closing at whole
  have expanded : (Text.lines (page.text margin)).map expandTabs = Text.lines (page.text margin) := by
    refine (List.map_congr_left ?_).trans (List.map_id _)
    intro line mem
    exact expandTabsFrom_of_not_mem (plain line (by rw [whole]; simp [mem])).tab 0
  cases lines : Text.lines (page.text margin) with
  | nil =>
    rw [lines, List.nil_append] at whole
    have short : page.short ∈ emptyLines closing := by simp [← whole]
    exact absurd (mem_emptyLines short) page.shortVisible
  | cons first others =>
    rw [lines, List.cons_append, List.cons.injEq] at whole
    obtain ⟨rfl, tail⟩ := whole
    -- The margin comes off, and only empty lines at the end may be missing.
    have dedented : page.rest = dedent others ++ emptyLines closing := by
      rw [← dedent_append_emptyLines, ← tail]
      exact (dedent_indentBy (fun line => plain_of_mem_rest) page.level_rest margin).symm
    have laid : layout (page.text margin) = trimEmpty (page.short :: dedent others) := by
      rw [layout, expanded, lines]
      simp only [page.shortInline.trimmed]
    obtain ⟨dropped, kept⟩ := exists_trimEmpty (show (page.short :: dedent others).head? ≠ some [] by
      simpa using page.shortVisible)
    refine ⟨dropped + closing, ?_⟩
    have joined : emptyLines (dropped + closing) = emptyLines dropped ++ emptyLines closing :=
      List.replicate_append_replicate.symm
    rw [laid, dedented, joined, ← List.append_assoc, ← kept, List.cons_append]

theorem joinLines_long_ne_nil {page : Page} (h : page.long ≠ []) : Text.joinLines page.long ≠ [] := by
  obtain ⟨first, others, whole⟩ := List.exists_cons_of_ne_nil h
  obtain ⟨visible, -⟩ := page.longFirst first (by rw [whole]; rfl)
  rw [whole]
  by_cases only : others = []
  · rwa [only, Text.joinLines_singleton]
  · simp [Text.joinLines_cons only]

theorem trim_long (page : Page) : Text.trim (Text.joinLines page.long) = Text.joinLines page.long := by
  have stop : Text.trimEnd (Text.joinLines page.long) = Text.joinLines page.long := by
    apply Text.trimEnd_joinLines
    intro line last
    refine ⟨?_, (page.longPlain line (List.mem_of_getLast? last)).trimEnd⟩
    rintro rfl
    exact page.longLast last
  cases whole : page.long with
  | nil => rfl
  | cons first others =>
    obtain ⟨visible, flush⟩ := page.longFirst first (by rw [whole]; rfl)
    obtain ⟨c, rest, rfl, shown⟩ := exists_cons_of_indentOf visible flush
    have start : ∃ tail, Text.joinLines ((c :: rest) :: others) = c :: tail := by
      by_cases only : others = []
      · exact ⟨rest, by rw [only, Text.joinLines_singleton]⟩
      · exact ⟨_, Text.joinLines_cons only _⟩
    obtain ⟨tail, joined⟩ := start
    rw [whole, joined] at stop
    rw [joined, Text.trim, Text.trimStart_cons_of_not shown, stop]

theorem ofLines_rest (page : Page) : ofLines (page.short :: page.rest) = page.docstring := by
  have whole : page.short :: page.rest =
      (page.short :: (emptyLines page.beforeLong ++ (page.long ++ emptyLines page.beforeParts))) ++
        page.parts.flatMap Part.lines := by
    simp [rest]
  have untitled : ∀ line ∈ page.short ::
      (emptyLines page.beforeLong ++ (page.long ++ emptyLines page.beforeParts)),
      sectionOf? line = none := by
    intro line mem
    simp only [List.mem_cons, List.mem_append] at mem
    rcases mem with rfl | before | long | after
    · exact page.shortPlain
    · rw [mem_emptyLines before]
      rfl
    · by_cases flush : indentOf line = 0
      · exact page.longProse line long flush
      · exact sectionOf?_of_indented (Nat.pos_of_ne_zero flush)
    · rw [mem_emptyLines after]
      rfl
  have opens : ∀ line ∈ (page.parts.flatMap Part.lines).head?, sectionOf? line ≠ none := by
    cases page.parts with
    | nil => simp
    | cons part rest =>
      rintro line ⟨⟩
      rw [part.sectionOf?_title]
      simp
  have short : nonEmpty page.short = some page.short := by
    simp [nonEmpty, page.shortVisible]
  have long : nonEmpty (Text.trim (Text.joinLines (emptyLines page.beforeLong ++
      (page.long ++ emptyLines page.beforeParts)))) = page.docstring.long := by
    rw [trim_joinLines_emptyLines, page.trim_long]
    by_cases none : page.long = []
    · rw [docstring, none]
      rfl
    · simp [docstring, nonEmpty, none, page.joinLines_long_ne_nil none]
  rw [whole, ofLines_append untitled _ opens, Part.itemsOfSections_lines]
  simp only [List.head?_cons, Option.map_some, Option.bind_some, List.tail_cons,
    page.shortInline.trimmed, short, long]
  rfl

/-- A docstring is read as it was written, wherever it stands and however its sections are indented.
-/
theorem read_text (margin : Nat) (page : Page) : read (page.text margin) = page.docstring := by
  obtain ⟨count, whole⟩ := page.exists_layout margin
  have some : layout (page.text margin) ≠ [] := by
    intro none
    rw [none, List.nil_append] at whole
    have short : page.short ∈ emptyLines count := by simp [← whole]
    exact page.shortVisible (mem_emptyLines short)
  rw [← page.ofLines_rest, whole, ofLines_append_emptyLines some, read]

end Page

def Written.size : Written where
  name := "size"
  hint := some ⟨"int", .question, ⟨rfl, by decide, by decide⟩, by decide, by decide, nofun⟩
  summary := "Any:"
  rest := ["one".toList, [], " two".toList]
  deeper := 2
  before := 0
  after := 1
  nameInline := ⟨rfl, by decide, by decide⟩
  nameVisible := by decide
  nameColon := by decide
  nameOpen := by decide
  summaryInline := ⟨rfl, by decide, by decide⟩
  restPlain := by
    simp only [List.forall_mem_cons, List.not_mem_nil, IsEmpty.forall_iff, implies_true, and_true]
    exact ⟨⟨by decide, by decide, rfl⟩, plain_nil, ⟨by decide, by decide, rfl⟩⟩
  restFirst := by decide
  restLast := by decide
  restLevel := fun _ => ⟨"one".toList, by simp, by decide, rfl⟩
  indented := by decide

def Page.made : Page where
  short := "Make it."
  long := []
  parts := [.parameters ⟨"Args", 1, 0, [.size], by decide, by decide⟩]
  beforeLong := 0
  beforeParts := 1
  shortInline := ⟨rfl, by decide, by decide⟩
  shortVisible := by decide
  shortPlain := by decide
  longPlain := by simp
  longProse := by simp
  longFirst := by simp
  longLast := by simp

theorem Page.read_made :
    read "Make it.\n\n  Args:\n   size (int?): Any:\n     one\n\n      two\n" =
      ⟨some "Make it.".toList, none, [⟨"size", some "int".toList, "Any:\none\n\n two", true, none⟩]⟩ := by
  have text : Page.made.text 2 =
      "Make it.\n\n  Args:\n   size (int?): Any:\n     one\n\n      two\n".toList := by
    decide +kernel
  have docstring : Page.made.docstring =
      ⟨some "Make it.".toList, none, [⟨"size", some "int".toList, "Any:\none\n\n two", true, none⟩]⟩ := by
    decide +kernel
  rw [← text, Page.read_text, docstring]

end CallSchema.Docstring
