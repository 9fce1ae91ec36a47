import CallSchema.Proofs.Outline.Hosts
import CallSchema.Proofs.Outline.Texts

set_option autoImplicit false

namespace CallSchema.Outline

-- The allowed definitions of the lines are no deeper than `low`, or as deep as `high` at least.
def Clear (allowed : Head → Bool) (low high : Nat) (ls : List Text) : Prop :=
  ∀ opening ∈ ls.filterMap opening?, allowed opening.2 = true → low < opening.1 → high ≤ opening.1

theorem clear_iff {allowed : Head → Bool} {low high : Nat} {ls : List Text}
    {definitions : List Definition}
    (known : definitions.map Definition.opening = ls.filterMap opening?) :
    Clear allowed low high ls ↔ ∀ definition ∈ definitions,
      allowed definition.toHead = true → definition.indent < high → definition.indent ≤ low := by
  rw [Clear, ← known, List.forall_mem_map]
  refine forall₂_congr fun definition _ => imp_congr_right fun _ => ?_
  simp only [Definition.opening]
  omega

-- A text with a line in it that is indented under the definition line right above, but for blank
-- lines.
structure Indented (t : Text) where
  before : List Text
  upper : Text
  head : Head
  gap : List Text
  line : Text
  after : List Text
  lines : Text.lines t = before ++ upper :: (gap ++ line :: after)
  defines : head? upper = some head
  blank : ∀ l ∈ gap, Text.blank l = true
  visible : Text.blank line = false
  deeper : indentOf upper < indentOf line

namespace Scan

theorem definition_line {scan : Scan} {place : Nat} {definition : Definition}
    (h : scan.definitions[place]? = some definition) (l : Text) :
    ∃ more, (scan.line l).definitions[place]? =
      some { definition with notes := definition.notes ++ more } := by
  have same : definition = { definition with notes := definition.notes ++ [] } := by simp
  by_cases blank : Text.blank l = true
  · exact ⟨[], by rw [line_of_blank blank, h, ← same]⟩
  rw [Bool.not_eq_true] at blank
  cases prose : head? l with
  | some head =>
    refine ⟨[], ?_⟩
    rw [line_of_head? prose, define, List.getElem?_append_left (List.getElem?_eq_some_iff.mp h).1, h,
      ← same]
  | none =>
    rw [line_of_prose blank prose]
    unfold note
    split
    · next owner _ =>
      rw [List.getElem?_modify, h]
      by_cases own : owner = place
      · exact ⟨[l], by simp [own, addNote]⟩
      · exact ⟨[], by simp [own]⟩
    · exact ⟨[], by rw [h, ← same]⟩

theorem definition_lines {scan : Scan} {place : Nat} {definition : Definition}
    (h : scan.definitions[place]? = some definition) (ls : List Text) :
    ∃ more, (ls.foldl Scan.line scan).definitions[place]? =
      some { definition with notes := definition.notes ++ more } := by
  induction ls generalizing scan definition with
  | nil => exact ⟨[], by simpa using h⟩
  | cons l rest ih =>
    obtain ⟨first, step⟩ := definition_line h l
    obtain ⟨more, run⟩ := ih step
    exact ⟨first ++ more, by rw [List.foldl_cons, run, List.append_assoc]⟩

end Scan

theorem hosts_document (t : Text) (schema : Schema) : (document t schema).hosts = schema.hosts := by
  unfold document fill
  split
  · split <;> simp
  · simp

theorem Definition.hosts_resolved (definition : Definition) :
    definition.resolved.schema.hosts = definition.toHead.value.hosts :=
  hosts_document _ _

-- The line is one of a description in the schema of the definition, and of that of the definition
-- itself unless this has another one inline.
def Definition.Says (definition : Definition) (line : Text) : Prop :=
  Text.trim line ∈ definition.resolved.schema.texts ∧
    (definition.toHead.inline? = none →
      ∃ text ∈ definition.resolved.schema.description, Text.trim line ∈ Text.lines text)

theorem Definition.Scanned.says {definition : Definition} (h : definition.Scanned) {note : Text}
    (mem : note ∈ definition.notes) : definition.Says note := by
  have visible := Text.trim_ne_nil (h.notes note mem).visible
  refine ⟨?_, fun plain => ?_⟩
  · rw [h.texts_resolved, Definition.texts]
    exact List.mem_append_right _ (Text.mem_tidyLines.mpr ⟨⟨note, mem, rfl⟩, visible⟩)
  have all : ∀ l ∈ definition.summary :: definition.notes, '\n' ∉ l :=
    List.forall_mem_cons.mpr ⟨h.head.plain, fun l known => (h.notes l known).plain⟩
  have line : Text.trim note ∈ Text.tidyLines (definition.summary :: definition.notes) :=
    Text.mem_tidyLines.mpr ⟨⟨note, List.mem_cons_of_mem _ mem, rfl⟩, visible⟩
  have some : Text.joinLines (Text.tidyLines (definition.summary :: definition.notes)) ≠ [] := by
    intro none
    rw [← Text.lines_joinLines_tidyLines all, none] at line
    cases line
  refine ⟨Text.joinLines (Text.tidyLines (definition.summary :: definition.notes)), ?_, ?_⟩
  · rw [h.schema_resolved, Head.schema_of_plain plain, Schema.description_describe]
    simp [some]
  · rwa [Text.lines_joinLines_tidyLines all]

namespace Indented

variable {t : Text} (below : Indented t)

-- The place of the upper line among the definitions of the text.
def place : Nat := (below.before.filterMap opening?).length

def above : Scan := scanLines (below.before ++ below.upper :: below.gap)

-- The place of the definition that the line goes to as a line of prose.
def owner : Option Nat := (below.above.runAt (indentOf below.line)).owner

theorem above_eq : below.above = (scanLines below.before).define (indentOf below.upper) below.head := by
  rw [above, scanLines, List.foldl_append, List.foldl_cons, Scan.lines_of_blank below.blank,
    Scan.line_of_head? below.defines]
  rfl

theorem scan_eq : scan t = below.after.foldl Scan.line (below.above.line below.line) := by
  have split : Text.lines t = (below.before ++ below.upper :: below.gap) ++ below.line :: below.after := by
    rw [below.lines]
    simp
  rw [scan, scanLines, split, List.foldl_append, List.foldl_cons]
  rfl

theorem openings_before : (scanLines below.before).definitions.map Definition.opening =
    below.before.filterMap opening? :=
  Scan.openings_lines .start below.before

theorem length_before : (scanLines below.before).definitions.length = below.place := by
  rw [place, ← below.openings_before, List.length_map]

theorem definitions_above : below.above.definitions =
    (scanLines below.before).definitions ++ [⟨below.head, indentOf below.upper, []⟩] := by
  rw [above_eq]
  rfl

theorem owner_eq : below.owner =
    governing (·.indent) (fun _ => true) (indentOf below.line) below.above.definitions := by
  rw [owner, above_eq]
  rfl

theorem owner_iff : below.owner = some below.place ↔
    Clear (fun _ => true) (indentOf below.upper) (indentOf below.line) below.before := by
  let last : Definition := ⟨below.head, indentOf below.upper, []⟩
  have lower : last.indent < indentOf below.line := below.deeper
  rw [owner_eq, definitions_above, ← below.length_before]
  refine (@governing_concat_iff _ _ (fun _ => true) _ _ last rfl lower).trans ?_
  rw [clear_iff below.openings_before]

theorem last_above : below.above.definitions[below.place]? =
    some ⟨below.head, indentOf below.upper, []⟩ := by
  rw [definitions_above, ← below.length_before]
  simp

theorem exists_owner : ∃ (owner : Nat) (noted : Definition), below.owner = some owner ∧
    below.above.definitions[owner]? = some noted := by
  cases own : below.owner with
  | none =>
    -- The definition right above is one that the line may go to.
    rw [owner_eq, governing_eq_none_iff] at own
    have shallow := own (⟨below.head, indentOf below.upper, []⟩, below.place)
      (List.mem_zipIdx_iff_getElem?.mpr below.last_above) rfl
    have := below.deeper
    dsimp only at shallow
    omega
  | some owner =>
    rw [owner_eq] at own
    exact ⟨owner, _, rfl, List.getElem?_eq_getElem (governing_lt own)⟩

theorem notes_of_owner (prose : head? below.line = none) {owner : Nat} {noted : Definition}
    (own : below.owner = some owner) (known : below.above.definitions[owner]? = some noted) :
    ∃ more, (scan t).definitions[owner]? =
      some { noted with notes := noted.notes ++ below.line :: more } := by
  have here : (below.above.line below.line).definitions[owner]? =
      some { noted with notes := noted.notes ++ [below.line] } := by
    have added : (below.above.note (below.above.runAt (indentOf below.line)) below.line).definitions =
        below.above.definitions.modify owner (Scan.addNote below.line) := by
      rw [Scan.note, show (below.above.runAt (indentOf below.line)).owner = _ from own]
    rw [Scan.line_of_prose below.visible prose, added, List.getElem?_modify, known]
    simp [Scan.addNote]
  obtain ⟨more, kept⟩ := Scan.definition_lines here below.after
  refine ⟨more, ?_⟩
  rw [below.scan_eq, kept, List.append_assoc]
  rfl

theorem definitions_of_head? {inner : Head} (found : head? below.line = some inner) :
    ∃ (front : List Definition) (host row : Definition) (rest : List Definition),
      (scan t).definitions = front ++ host :: row :: rest ∧
        front.map Definition.opening = below.before.filterMap opening? ∧
        host.opening = (indentOf below.upper, below.head) ∧
        row.opening = (indentOf below.line, inner) := by
  have silent : below.gap.filterMap opening? = [] := by
    rw [List.filterMap_eq_nil_iff]
    intro l mem
    rw [opening?, head?_of_blank (below.blank l mem)]
    rfl
  have opened : (scan t).definitions.map Definition.opening = below.before.filterMap opening? ++
      (indentOf below.upper, below.head) :: (indentOf below.line, inner) ::
        below.after.filterMap opening? := by
    rw [openings_scan, below.lines]
    simp [opening?, below.defines, found, silent]
  obtain ⟨front, tail, whole, before, tailMap⟩ := List.map_eq_append_iff.mp opened
  obtain ⟨host, others, rfl, upper, othersMap⟩ := List.map_eq_cons_iff.mp tailMap
  obtain ⟨row, rest, rfl, line, -⟩ := List.map_eq_cons_iff.mp othersMap
  exact ⟨front, host, row, rest, whole, before, upper, line⟩

theorem nests_of_head? {inner : Head} (found : head? below.line = some inner)
    (hosts : below.head.value.hosts = true) :
    ∃ host row : Definition,
      (scan t).definitions[below.place]? = some host ∧ host.toHead = below.head ∧
      (scan t).definitions[below.place + 1]? = some row ∧ row.toHead = inner ∧
      ∀ grove : Grove, grove.Arranged (entriesIn t) →
        (grove.Nests (host.resolved, below.place) (row.resolved, below.place + 1) ↔
          Clear (·.value.hosts) (indentOf below.upper) (indentOf below.line) below.before) := by
  obtain ⟨front, host, row, rest, whole, before, upper, line⟩ := below.definitions_of_head? found
  obtain ⟨hostIndent, hostHead⟩ := Prod.mk.inj upper
  obtain ⟨rowIndent, rowHead⟩ := Prod.mk.inj line
  have place : below.place = front.length := by
    rw [Indented.place, ← before, List.length_map]
  have entries : entriesIn t = front.map Definition.resolved ++
      host.resolved :: row.resolved :: rest.map Definition.resolved := by
    simp [entriesIn, whole]
  have knownHost : (host.resolved, below.place) ∈ (entriesIn t).zipIdx := by
    simp [List.mem_zipIdx_iff_getElem?, entries, place]
  have knownRow : (row.resolved, below.place + 1) ∈ (entriesIn t).zipIdx := by
    simp [List.mem_zipIdx_iff_getElem?, entries, place]
  refine ⟨host, row, by simp [whole, place], hostHead,
    by simp [whole, place], rowHead, ?_⟩
  intro grove arranged
  have own : host.resolved.schema.hosts = true := by rw [host.hosts_resolved, hostHead, hosts]
  have lower : host.resolved.indent < row.resolved.indent := by
    change host.indent < row.indent
    rw [hostIndent, rowIndent]
    exact below.deeper
  have early : (entriesIn t).take (below.place + 1) =
      front.map Definition.resolved ++ [host.resolved] := by
    simp [entries, place, List.take_append]
  have last : below.place = (front.map Definition.resolved).length := by rw [place, List.length_map]
  rw [arranged.nests_iff knownRow, governs_some_iff knownHost, hostOf, early, clear_iff before]
  dsimp only
  rw [last, @governing_concat_iff Entry (·.indent) (·.schema.hosts) _ _ host.resolved own lower,
    List.forall_mem_map]
  refine forall₂_congr fun definition _ => ?_
  rw [definition.hosts_resolved, ← hostIndent, ← rowIndent]
  rfl

/-- A line that is indented under the definition line right above belongs to that definition exactly
when no earlier definition is indented more than the one and less than the other: none at all for a
line of prose, and none that can have properties for a definition. -/
theorem belongs_above :
    (head? below.line = none →
      (below.owner = some below.place ↔
        Clear (fun _ => true) (indentOf below.upper) (indentOf below.line) below.before) ∧
      ∃ (owner : Nat) (definition : Definition) (earlier more : List Text),
        below.owner = some owner ∧ (scan t).definitions[owner]? = some definition ∧
        definition.notes = earlier ++ below.line :: more ∧ definition.Says below.line ∧
        (owner = below.place → definition.toHead = below.head ∧ earlier = [])) ∧
      ∀ inner, head? below.line = some inner → below.head.value.hosts = true →
        ∃ (host row : Definition) (grove : Grove),
          (scan t).definitions[below.place]? = some host ∧ host.toHead = below.head ∧
          (scan t).definitions[below.place + 1]? = some row ∧ row.toHead = inner ∧
          grove.Arranged (entriesIn t) ∧ (read t).shape = some (grove.insertInto .empty) ∧
          (grove.Nests (host.resolved, below.place) (row.resolved, below.place + 1) ↔
            Clear (·.value.hosts) (indentOf below.upper) (indentOf below.line) below.before) := by
  constructor
  · intro prose
    obtain ⟨owner, noted, own, known⟩ := below.exists_owner
    obtain ⟨more, kept⟩ := below.notes_of_owner prose own known
    have scanned := (sound_scan t).definitions _ (List.mem_of_getElem? kept)
    refine ⟨below.owner_iff, owner, _, noted.notes, more, own, kept, rfl, scanned.says (by simp), ?_⟩
    rintro rfl
    rw [below.last_above] at known
    cases known
    exact ⟨rfl, rfl⟩
  · intro inner found hosts
    obtain ⟨host, row, knownHost, hostHead, knownRow, rowHead, nests⟩ :=
      below.nests_of_head? found hosts
    obtain ⟨grove, arranged, shape⟩ := shape_read t
    have some : (scan t).definitions ≠ [] := List.ne_nil_of_mem (List.mem_of_getElem? knownHost)
    rw [if_neg some] at shape
    exact ⟨host, row, grove, knownHost, hostHead, knownRow, rowHead, arranged, shape,
      nests grove arranged⟩

def teamText : Text :=
  "user (dict): The user.\n\n  Must be known.\nteam (dict): The team.\n    size (int): Its size."

def mustBeKnown : Indented teamText where
  before := []
  upper := "user (dict): The user."
  head := ⟨"user", "dict", "The user."⟩
  gap := [[]]
  line := "  Must be known."
  after := ["team (dict): The team.", "    size (int): Its size."]
  lines := by decide +kernel
  defines := by decide +kernel
  blank := by decide
  visible := by decide +kernel
  deeper := by decide +kernel

def size : Indented teamText where
  before := ["user (dict): The user.", [], "  Must be known."]
  upper := "team (dict): The team."
  head := ⟨"team", "dict", "The team."⟩
  gap := []
  line := "    size (int): Its size."
  after := []
  lines := by decide +kernel
  defines := by decide +kernel
  blank := by simp
  visible := by decide +kernel
  deeper := by decide +kernel

theorem belongs_above_team :
    mustBeKnown.owner = some 0 ∧
      ∃ (host row : Definition) (grove : Grove), (read teamText).shape = some (grove.insertInto .empty) ∧
        host.name = "team".toList ∧ row.name = "size".toList ∧
        grove.Nests (host.resolved, 1) (row.resolved, 2) := by
  have early : mustBeKnown.place = 0 := by decide +kernel
  have late : size.place = 1 := by decide +kernel
  have prose : head? mustBeKnown.line = none := by decide +kernel
  have found : head? size.line = some ⟨"size", "int", "Its size."⟩ := by decide +kernel
  have value : size.head.value = .anyObject := Label.value_user
  have first : Clear (fun _ => true) (indentOf mustBeKnown.upper) (indentOf mustBeKnown.line)
      mustBeKnown.before := by
    intro opening mem
    cases mem
  have last : Clear (·.value.hosts) (indentOf size.upper) (indentOf size.line) size.before := by
    have flush : ∀ opening ∈ size.before.filterMap opening?, ¬indentOf size.upper < opening.1 := by
      decide +kernel
    exact fun opening mem _ deeper => absurd deeper (flush opening mem)
  obtain ⟨host, row, grove, -, hostHead, -, rowHead, -, shape, nests⟩ :=
    size.belongs_above.2 _ found (by rw [value]; rfl)
  have inside := nests.mpr last
  rw [late] at inside
  refine ⟨?_, host, row, grove, shape, ?_, ?_, inside⟩
  · rw [← early]
    exact (mustBeKnown.belongs_above.1 prose).1.mpr first
  · rw [hostHead]
    rfl
  · rw [rowHead]

def strayText : Text :=
  "a (dict): A.\n    b (dict): B.\nc (dict): C.\n      Of c.\ne (dict): E.\n      f (int): F."

def strayProse : Indented strayText where
  before := ["a (dict): A.", "    b (dict): B."]
  upper := "c (dict): C."
  head := ⟨"c", "dict", "C."⟩
  gap := []
  line := "      Of c."
  after := ["e (dict): E.", "      f (int): F."]
  lines := by decide +kernel
  defines := by decide +kernel
  blank := by simp
  visible := by decide +kernel
  deeper := by decide +kernel

def strayLine : Indented strayText where
  before := ["a (dict): A.", "    b (dict): B.", "c (dict): C.", "      Of c."]
  upper := "e (dict): E."
  head := ⟨"e", "dict", "E."⟩
  gap := []
  line := "      f (int): F."
  after := []
  lines := by decide +kernel
  defines := by decide +kernel
  blank := by simp
  visible := by decide +kernel
  deeper := by decide +kernel

-- Both lines go to `b`, which stands further up, is complete and lies between the indentations.
theorem not_belongs_above :
    (∃ definition, (scan strayText).definitions[strayProse.place]? = some definition ∧
      definition.toHead = strayProse.head ∧ head? strayProse.line = none ∧
      Text.trim strayProse.line ∉ definition.resolved.schema.texts) ∧
    ∃ host row : Definition,
      (scan strayText).definitions[strayLine.place]? = some host ∧ host.toHead = strayLine.head ∧
      host.toHead.value.hosts = true ∧
      (scan strayText).definitions[strayLine.place + 1]? = some row ∧
      head? strayLine.line = some row.toHead ∧
      ∀ grove : Grove, grove.Arranged (entriesIn strayText) →
        ¬grove.Nests (host.resolved, strayLine.place) (row.resolved, strayLine.place + 1) := by
  have value : strayLine.head.value = .anyObject := Label.value_user
  have hosts : strayLine.head.value.hosts = true := by rw [value]; rfl
  constructor
  · have known : (scan strayText).definitions[strayProse.place]? = some ⟨strayProse.head, 0, []⟩ := by
      decide +kernel
    have plain : strayProse.head.inline? = none := by
      rw [Head.inline?]
      have none : head? strayProse.head.summary = none := by decide +kernel
      simp [none]
    have scanned := (sound_scan strayText).definitions _ (List.mem_of_getElem? known)
    refine ⟨_, known, rfl, by decide +kernel, ?_⟩
    rw [scanned.texts_resolved, Definition.texts, Head.remark_of_plain plain]
    decide +kernel
  · have found : head? strayLine.line = some ⟨"f", "int", "F."⟩ := by decide +kernel
    obtain ⟨host, row, knownHost, hostHead, knownRow, rowHead, nests⟩ :=
      strayLine.nests_of_head? found hosts
    refine ⟨host, row, knownHost, hostHead, by rw [hostHead, hosts], knownRow, by rw [found, rowHead], ?_⟩
    intro grove arranged inside
    have between : (4, ⟨"b", "dict", "B."⟩) ∈ strayLine.before.filterMap opening? := by decide +kernel
    have deep := (nests grove arranged).mp inside _ between
      (show (Head.value ⟨"b", "dict", "B."⟩).hosts = true by
        rw [show Head.value ⟨"b", "dict", "B."⟩ = .anyObject from Label.value_user]
        rfl)
    exact absurd deep (by decide +kernel)

end Indented

end CallSchema.Outline
