import CallSchema.Proofs.Outline.Head

set_option autoImplicit false

namespace CallSchema.Outline

structure Label where
  dash : Bool
  quote : Option {c : Char // c ∈ nameQuotes}
  name : Text
  hint : Text
  summary : Text
  notes : List Text
  nameIdentifier : Text.isIdentifier name = true
  hintTrim : Text.trim hint = hint
  hintVisible : hint ≠ []
  hintLine : '\n' ∉ hint
  -- A line is cut at its first `):` and what precedes that at its last `(`.
  hintOpen : '(' ∉ hint
  hintClose : ¬ [')', ':'] <:+: hint
  summaryLine : Text.IsLine summary
  notesLine : ∀ note ∈ notes, Text.IsLine note
  notesProse : ∀ note ∈ notes, head? note = none

namespace Label

def value (label : Label) : Schema := TypeHint.schema (valueHint label.hint)

def dashText (label : Label) : Text := if label.dash then ['-', ' '] else []

def nameText (label : Label) : Text :=
  match label.quote with
  | none => label.name
  | some quote => quote.1 :: (label.name ++ [quote.1])

def opening (label : Label) : Text := label.nameText ++ ' ' :: '(' :: label.hint

def line (indent : Nat) (label : Label) : Text :=
  List.replicate indent ' ' ++ (label.dashText ++ (label.opening ++ ')' :: ':' :: ' ' :: label.summary))

def head (label : Label) : Head := ⟨label.name, label.hint, Text.trim label.summary⟩

def text (label : Label) : Text := Text.tidy (Text.joinLines (label.summary :: label.notes))

def schema (label : Label) (inner : Shape) : Schema :=
  (label.value.describe label.text).onHost fun _ => inner

end Label

-- Definitions of one depth, the first with the definitions inside it and then the others.
inductive Forest where
  | nil
  | cons (label : Label) (children rest : Forest)

namespace Forest

-- The lines of a forest, `width` giving the indentation of each depth.
def lines (width : Nat → Nat) (depth : Nat) : Forest → List Text
  | .nil => []
  | .cons label children rest =>
    label.line (width depth) ::
      (label.notes ++ (children.lines width (depth + 1) ++ rest.lines width depth))

def names : Forest → List Text
  | .nil => []
  | .cons label _ rest => label.name :: rest.names

-- The shape that a forest describes: its definitions in order, those required that are not said to
-- be optional.
def shape : Forest → Shape
  | .nil => .empty
  | .cons label children rest =>
    ⟨(label.name, label.schema children.shape) :: rest.shape.properties,
      if TypeHint.isOptional label.hint then rest.shape.required
      else label.name :: rest.shape.required⟩

-- The forest can be told from its lines: a note is blank or indented more than its definition and
-- no more than the next depth, only hosts have definitions inside them and their summaries are
-- prose, and no two definitions of one host share a name.
def Fits (width : Nat → Nat) (depth : Nat) : Forest → Prop
  | .nil => True
  | .cons label children rest =>
    (∀ note ∈ label.notes, Text.blank note = false →
        width depth < indentOf note ∧ indentOf note ≤ width (depth + 1)) ∧
      (label.value.hosts = true → head? label.summary = none) ∧
      (children ≠ .nil → label.value.hosts = true) ∧
      label.name ∉ rest.names ∧ children.Fits width (depth + 1) ∧ rest.Fits width depth

end Forest

namespace Label

def headLine (indent : Nat) (label : Label) : HeadLine where
  before := ⟨List.replicate indent ' ', Text.blank_replicate_space indent⟩
  dash := if label.dash then some ⟨[' '], rfl⟩ else none
  quote := label.quote
  name := label.name
  gap := ⟨[' '], rfl⟩
  hint := label.hint
  rest := ' ' :: label.summary
  nameIdentifier := label.nameIdentifier
  hintVisible := by
    rw [← Bool.not_eq_true, ← Text.trim_eq_nil_iff, label.hintTrim]
    exact label.hintVisible
  hintClose := label.hintClose

theorem text_headLine (indent : Nat) (label : Label) :
    (label.headLine indent).text = label.line indent := by
  have dash (t : Text) : dashed (label.headLine indent).dash t = label.dashText ++ t := by
    cases known : label.dash <;> simp [headLine, dashText, known, dashed]
  have opening : (label.headLine indent).opening = label.opening := rfl
  rw [HeadLine.text, dash, opening]
  rfl

theorem head_headLine (indent : Nat) (label : Label) :
    (label.headLine indent).head = label.head := by
  have summary : Text.trim (' ' :: label.summary) = Text.trim label.summary :=
    Text.trim_blank_append (s := [' ']) rfl _
  rw [HeadLine.head, head]
  simp only [headLine, label.hintTrim, summary]

theorem head?_line (indent : Nat) (label : Label) : head? (label.line indent) = some label.head := by
  rw [← text_headLine, ← label.head_headLine indent]
  exact HeadLine.head?_text label.hintOpen

theorem indentOf_line (indent : Nat) (label : Label) : indentOf (label.line indent) = indent := by
  obtain ⟨first, later, starts, visible, -⟩ := (label.headLine indent).exists_cons_opening
  have other : first ≠ ' ' := by
    rintro rfl
    exact absurd visible (by decide)
  have stop : (dashed (label.headLine indent).dash ((label.headLine indent).opening ++ ')' :: ':' ::
      (label.headLine indent).rest)).takeWhile (· == ' ') = [] := by
    cases (label.headLine indent).dash with
    | none => simp [dashed, starts, other]
    | some gap => simp [dashed]
  rw [← text_headLine]
  exact indentOf_replicate_append indent stop

theorem isLine_line (indent : Nat) (label : Label) : Text.IsLine (label.line indent) := by
  have spaces : '\n' ∉ List.replicate indent ' ' := by
    intro mem
    exact absurd (List.eq_of_mem_replicate mem) (by decide)
  have dash : '\n' ∉ label.dashText := by
    unfold dashText
    split <;> decide
  have name : '\n' ∉ label.nameText :=
    not_mem_quoted label.nameIdentifier (by decide) (by decide) (by decide)
  have begin : '\n' ∉ List.replicate indent ' ' ++ (label.dashText ++ (label.opening ++ [')', ':', ' '])) := by
    simp [spaces, dash, opening, name, label.hintLine]
  have whole : label.line indent =
      (List.replicate indent ' ' ++ (label.dashText ++ (label.opening ++ [')', ':', ' ']))) ++
        label.summary := by
    simp [line]
  rw [whole]
  by_cases short : label.summary = []
  · rw [short, List.append_nil]
    refine ⟨begin, ?_⟩
    have last : List.replicate indent ' ' ++ (label.dashText ++ (label.opening ++ [')', ':', ' '])) =
        (List.replicate indent ' ' ++ (label.dashText ++ (label.opening ++ [')', ':']))) ++ [' '] := by
      simp
    rw [last, List.getLast?_concat]
    decide
  · exact label.summaryLine.append begin short

end Label

end CallSchema.Outline
