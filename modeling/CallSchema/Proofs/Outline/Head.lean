import CallSchema.Proofs.Outline.Lines
import CallSchema.Proofs.Text.Letter
import CallSchema.Proofs.Text.Strip

set_option autoImplicit false

namespace CallSchema.Outline

abbrev Gap := {t : Text // Text.blank t = true}

abbrev NameQuote := {c : Char // c ∈ nameQuotes}

-- A definition line: a name, perhaps in quotes and after a dash, its hint in parentheses, a colon
-- and the rest of the line.
structure HeadLine where
  before : Gap
  -- The gap after the dash, if there is one.
  dash : Option Gap
  quote : Option NameQuote
  name : Text
  gap : Gap
  hint : Text
  rest : Text
  nameIdentifier : Text.isIdentifier name = true
  hintVisible : Text.blank hint = false
  hintClose : ¬ [')', ':'] <:+: hint

def dashed (dash : Option Gap) (t : Text) : Text :=
  match dash with
  | none => t
  | some gap => '-' :: (gap.1 ++ t)

def quoted (quote : Option NameQuote) (name : Text) : Text :=
  match quote with
  | none => name
  | some quote => quote.1 :: (name ++ [quote.1])

namespace HeadLine

def opening (line : HeadLine) : Text :=
  quoted line.quote line.name ++ (line.gap.1 ++ '(' :: line.hint)

def text (line : HeadLine) : Text :=
  line.before.1 ++ dashed line.dash (line.opening ++ ')' :: ':' :: line.rest)

def head (line : HeadLine) : Head := ⟨line.name, Text.trim line.hint, Text.trim line.rest⟩

end HeadLine

theorem isBlank_of_mem_nameQuotes {c : Char} (h : c ∈ nameQuotes) : Text.isBlank c = false := by
  have visible : nameQuotes.all (!Text.isBlank ·) = true := by decide
  simpa using List.all_eq_true.mp visible c h

theorem continuesIdentifier_of_mem_nameQuotes {c : Char} (h : c ∈ nameQuotes) :
    Text.continuesIdentifier c = false := by
  have marks : nameQuotes.all (fun c => c.toNat < 128 && !(c == '_' || c.isAlphanum)) = true := by
    decide
  have mark := List.all_eq_true.mp marks c h
  simp only [Bool.and_eq_true, decide_eq_true_eq, Bool.not_eq_true'] at mark
  exact Text.continuesIdentifier_eq_false mark.1 mark.2

theorem infix_of_infix_append {a b : Char} {s t : Text} (plain : a ∉ s)
    (h : [a, b] <:+: s ++ t) : [a, b] <:+: t := by
  induction s with
  | nil => exact h
  | cons c s ih =>
    rw [List.cons_append, List.infix_cons_iff] at h
    rcases h with first | later
    · have same : a = c := (List.cons_prefix_cons.mp first).1
      exact absurd (by simp [same]) plain
    · exact ih (fun mem => plain (by simp [mem])) later

section Names

variable {quote : Option NameQuote} {name : Text} {c : Char}

theorem mem_quoted (h : c ∈ quoted quote name) : c ∈ name ∨ c ∈ nameQuotes := by
  unfold quoted at h
  split at h
  · exact .inl h
  · next quote =>
    rcases List.mem_cons.mp h with rfl | h
    · exact .inr quote.2
    rcases List.mem_append.mp h with h | h
    · exact .inl h
    · obtain rfl := List.mem_singleton.mp h
      exact .inr quote.2

theorem not_mem_quoted (known : Text.isIdentifier name = true) (ascii : c.toNat < 128)
    (mark : (c == '_' || c.isAlphanum) = false) (other : c ∉ nameQuotes) :
    c ∉ quoted quote name := by
  intro mem
  rcases mem_quoted mem with letter | h
  · exact Text.not_mem_of_isIdentifier known ascii mark letter
  · exact other h

theorem isBlank_of_mem_quoted (known : Text.isIdentifier name = true) (h : c ∈ quoted quote name) :
    Text.isBlank c = false := by
  rcases mem_quoted h with letter | mark
  · exact Text.isBlank_of_mem_isIdentifier known letter
  · exact isBlank_of_mem_nameQuotes mark

theorem quoted_ne_nil (known : Text.isIdentifier name = true) : quoted quote name ≠ [] := by
  unfold quoted
  split
  · exact Text.ne_nil_of_isIdentifier known
  · simp

theorem trim_quoted (known : Text.isIdentifier name = true) :
    Text.trim (quoted quote name) = quoted quote name := by
  apply Text.trim_eq_self
  · intro c hc
    exact isBlank_of_mem_quoted known (List.mem_of_head? hc)
  · intro c hc
    exact isBlank_of_mem_quoted known (List.mem_of_getLast? hc)

theorem unquote_quoted (known : Text.isIdentifier name = true) :
    (Text.unquote? nameQuotes (quoted quote name)).getD (quoted quote name) = name := by
  unfold quoted
  split
  · have first : ∀ c ∈ name.head?, c ∉ nameQuotes := by
      intro c hc mark
      have letter := Text.continuesIdentifier_of_mem known (List.mem_of_head? hc)
      rw [continuesIdentifier_of_mem_nameQuotes mark] at letter
      exact absurd letter (by decide)
    rw [Text.unquote?_eq_none first, Option.getD_none]
  · next quote => rw [Text.unquote?_append quote.2, Option.getD_some]

theorem exists_quoted (written : Text) :
    ∃ quote, written = quoted quote ((Text.unquote? nameQuotes written).getD written) := by
  cases h : Text.unquote? nameQuotes written with
  | none => exact ⟨none, rfl⟩
  | some inner =>
    obtain ⟨mark, known, whole⟩ := Text.exists_of_unquote? h
    exact ⟨some ⟨mark, known⟩, whole⟩

end Names

theorem trim_withoutDash (line : Text) : Text.trim (withoutDash line) = withoutDash line := by
  unfold withoutDash
  split <;> exact Text.trim_trim _

theorem exists_withoutDash (line : Text) :
    ∃ (before : Gap) (dash : Option Gap) (after : Gap),
      line = before.1 ++ dashed dash (withoutDash line ++ after.1) := by
  obtain ⟨before, after, beforeBlank, afterBlank, whole⟩ := Text.exists_trim line
  unfold withoutDash
  cases h : Text.stripStart? ['-'] (Text.trim line) with
  | none => exact ⟨⟨before, beforeBlank⟩, none, ⟨after, afterBlank⟩, whole⟩
  | some rest =>
    obtain ⟨gap, last, gapBlank, lastBlank, inner⟩ := Text.exists_trim rest
    have blank : Text.blank (last ++ after) = true := by simp [lastBlank, afterBlank]
    refine ⟨⟨before, beforeBlank⟩, some ⟨gap, gapBlank⟩, ⟨last ++ after, blank⟩, ?_⟩
    calc line = before ++ (Text.trim line ++ after) := whole
      _ = before ++ ('-' :: rest ++ after) := by rw [Text.append_of_stripStart? h]; rfl
      _ = _ := by
        conv => lhs; rw [inner]
        simp [dashed]

namespace HeadLine

theorem exists_cons_opening (line : HeadLine) :
    ∃ first later, line.opening = first :: later ∧ Text.isBlank first = false ∧ '-' ≠ first := by
  have visible : quoted line.quote line.name ≠ [] := quoted_ne_nil line.nameIdentifier
  obtain ⟨first, others, named⟩ := List.exists_cons_of_ne_nil visible
  have mem : first ∈ quoted line.quote line.name := by simp [named]
  refine ⟨first, others ++ (line.gap.1 ++ '(' :: line.hint), ?_, ?_, ?_⟩
  · rw [opening, named, List.cons_append]
  · exact isBlank_of_mem_quoted line.nameIdentifier mem
  · rintro rfl
    exact not_mem_quoted line.nameIdentifier (by decide) (by decide) (by decide) mem

theorem withoutDash_text (line : HeadLine) :
    withoutDash line.text = line.opening ++ ')' :: ':' :: Text.trimEnd line.rest := by
  obtain ⟨first, later, starts, visible, noDash⟩ := line.exists_cons_opening
  have content : Text.trim (line.opening ++ ')' :: ':' :: line.rest) =
      line.opening ++ ')' :: ':' :: Text.trimEnd line.rest := by
    have begin : ∀ c ∈ (line.opening ++ [')']).head?, Text.isBlank c = false := by
      simpa [starts] using visible
    have colon := Text.trim_append_cons (c := ':') (by simp) begin rfl line.rest
    simpa using colon
  unfold withoutDash text
  -- Trimming ends at the rest, whose blanks at the end are cut with those before it.
  rw [Text.trim_blank_append line.before.2]
  cases dash : line.dash with
  | none =>
    have missing : Text.stripStart? ['-'] (line.opening ++ ')' :: ':' :: Text.trimEnd line.rest) =
        none := by
      rw [starts]
      exact Text.stripStart?_cons_of_ne noDash _ _
    simp only [dashed]
    rw [content, missing]
  | some gap =>
    simp only [dashed]
    rw [Text.trim_cons_of_not rfl, Text.stripStart?_cons_self]
    simp only [Text.stripStart?]
    rw [Text.trim_trimEnd, Text.trim_blank_append gap.2, content]

theorem splitFirst?_content (line : HeadLine) (after : Text) :
    Text.splitFirst? [')', ':'] (line.opening ++ ')' :: ':' :: after) =
      some (line.opening, after) := by
  -- The name and the gap hold no closing parenthesis, and the hint is checked.
  have noClose : ¬ [')', ':'] <:+: line.opening := by
    intro inside
    have name : ')' ∉ quoted line.quote line.name :=
      not_mem_quoted line.nameIdentifier (by decide) (by decide) (by decide)
    have gap : ')' ∉ line.gap.1 ++ ['('] := by
      intro mem
      rcases List.mem_append.mp mem with blank | mem
      · exact absurd (Text.blank_iff.mp line.gap.2 ')' blank) (by decide)
      · exact absurd mem (by decide)
    have later := infix_of_infix_append name inside
    have regrouped : line.gap.1 ++ '(' :: line.hint = (line.gap.1 ++ ['(']) ++ line.hint := by simp
    rw [regrouped] at later
    exact line.hintClose (infix_of_infix_append gap later)
  exact Text.splitFirst?_pair (by decide) noClose after

theorem head?_text {line : HeadLine} (h : '(' ∉ line.hint) : head? line.text = some line.head := by
  have split : Text.splitLast? ['('] line.opening =
      some (quoted line.quote line.name ++ line.gap.1, line.hint) := by
    have found := Text.splitLast?_singleton h (quoted line.quote line.name ++ line.gap.1)
    rwa [List.append_assoc] at found
  have name : Text.trim (quoted line.quote line.name ++ line.gap.1) =
      quoted line.quote line.name := by
    rw [Text.trim_append_blank _ line.gap.2, trim_quoted line.nameIdentifier]
  have visible : Text.trim line.hint ≠ [] := by
    rw [Ne, Text.trim_eq_nil_iff, line.hintVisible]
    decide
  simp only [head?, withoutDash_text, Option.bind_eq_bind, splitFirst?_content, Option.bind_some,
    split, name, unquote_quoted line.nameIdentifier, Text.trim_trimEnd, line.nameIdentifier]
  simp [visible, head]

theorem head?_text_eq_none {line : HeadLine} (h : '(' ∈ line.hint) : head? line.text = none := by
  rw [Option.eq_none_iff_forall_ne_some]
  intro found hf
  obtain ⟨⟨before, after⟩, first, hf⟩ := Option.bind_eq_some_iff.mp hf
  obtain ⟨⟨name, hint⟩, last, hf⟩ := Option.bind_eq_some_iff.mp hf
  obtain ⟨_, known, -⟩ := Option.bind_eq_some_iff.mp hf
  rw [withoutDash_text, splitFirst?_content] at first
  obtain ⟨rfl, -⟩ := Prod.mk.inj (Option.some.inj first)
  obtain ⟨whole, plain⟩ := Text.of_splitLast?_singleton last
  have open_name : '(' ∈ name := by
    have count := congrArg (List.count '(') whole
    have := List.count_pos_iff.mpr h
    simp only [opening, List.count_append, List.count_cons_self, List.count_eq_zero.mpr plain] at count
    exact List.count_pos_iff.mp (by omega)
  obtain ⟨quote, quotation⟩ := exists_quoted (Text.trim name)
  have both := (Option.guard_eq_some' _).mp known
  simp only [Bool.and_eq_true] at both
  have mem := Text.mem_trim_of_mem open_name rfl
  rw [quotation] at mem
  exact not_mem_quoted both.1 (by decide) (by decide) (by decide) mem

end HeadLine

theorem exists_of_head? {line : Text} {head : Head} (h : head? line = some head) :
    ∃ written : HeadLine, '(' ∉ written.hint ∧ written.text = line ∧ written.head = head := by
  obtain ⟨⟨opening, after⟩, first, h⟩ := Option.bind_eq_some_iff.mp h
  obtain ⟨⟨name, hint⟩, last, h⟩ := Option.bind_eq_some_iff.mp h
  obtain ⟨_, known, h⟩ := Option.bind_eq_some_iff.mp h
  cases h
  have both := (Option.guard_eq_some' _).mp known
  simp only [Bool.and_eq_true, bne_iff_ne, ne_eq, Text.trim_eq_nil_iff, Bool.not_eq_true] at both
  obtain ⟨identifier, visible⟩ := both
  obtain ⟨rfl, plain⟩ := Text.of_splitLast?_singleton last
  have close : ¬ [')', ':'] <:+: name ++ '(' :: hint := Text.not_infix_of_splitFirst? (by simp) first
  have content := Text.append_of_splitFirst? first
  obtain ⟨before, dash, trailing, whole⟩ := exists_withoutDash line
  obtain ⟨quote, quotation⟩ := exists_quoted (Text.trim name)
  obtain ⟨early, gap, earlyBlank, gapBlank, spaced⟩ := Text.exists_trim name
  -- The content of a line is trimmed, so no blank stands in front of the name.
  have flush : early = [] := by
    cases early with
    | nil => rfl
    | cons c early =>
      have start : withoutDash line = c :: (early ++ (Text.trim name ++ gap) ++ '(' :: hint ++
          [')', ':'] ++ after) := by
        rw [content]
        conv => lhs; rw [spaced]
        simp
      have shown := Text.head?_of_trim_eq_self (trim_withoutDash line) c (by simp [start])
      have blank := Text.blank_iff.mp earlyBlank c (by simp)
      rw [blank] at shown
      cases shown
  subst flush
  refine ⟨⟨before, dash, quote, _, ⟨gap, gapBlank⟩, hint, after ++ trailing.1, identifier, visible,
    ?_⟩, plain, ?_, ?_⟩
  · intro inside
    exact close (inside.trans ⟨name ++ ['('], [], by simp⟩)
  · conv => rhs; rw [whole, content, spaced]
    simp only [HeadLine.text, HeadLine.opening, ← quotation]
    simp
  · simp only [HeadLine.head, Text.trim_append_blank after trailing.2]

structure Head.Clean (head : Head) : Prop where
  nameIdentifier : Text.isIdentifier head.name = true
  hintTrim : Text.trim head.hint = head.hint
  hintVisible : head.hint ≠ []
  hintOpen : '(' ∉ head.hint
  summaryTrim : Text.trim head.summary = head.summary

theorem clean_of_head? {line : Text} {head : Head} (h : head? line = some head) : head.Clean := by
  obtain ⟨written, plain, -, rfl⟩ := exists_of_head? h
  refine ⟨written.nameIdentifier, Text.trim_trim _, ?_, ?_, Text.trim_trim _⟩
  · rw [HeadLine.head, Ne, Text.trim_eq_nil_iff, written.hintVisible]
    decide
  · exact fun mem => plain (Text.mem_of_mem_trim mem)

theorem head?_eq_some_iff {line : Text} {head : Head} :
    head? line = some head ↔
      ∃ written : HeadLine, '(' ∉ written.hint ∧ written.text = line ∧ written.head = head := by
  constructor
  · exact exists_of_head?
  · rintro ⟨written, plain, rfl, rfl⟩
    exact HeadLine.head?_text plain

def sizeLine : HeadLine where
  before := ⟨[], rfl⟩
  dash := none
  quote := none
  name := "size"
  gap := ⟨" ", rfl⟩
  hint := "(int, optional)"
  rest := " Size."
  nameIdentifier := by decide
  hintVisible := by decide
  hintClose := by decide

-- So a definition line whose hint stands in parentheses of its own is prose.
theorem not_head?_iff_written :
    ¬∀ (line : Text) (head : Head), head? line = some head ↔
      ∃ written : HeadLine, written.text = line ∧ written.head = head := by
  intro always
  have found := (always sizeLine.text sizeLine.head).mpr ⟨sizeLine, rfl, rfl⟩
  rw [HeadLine.head?_text_eq_none (by decide)] at found
  cases found

end CallSchema.Outline
