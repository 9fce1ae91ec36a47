import CallSchema.Docstring.Item
import CallSchema.Proofs.Docstring.Indentation
import CallSchema.Proofs.Text.Strip

set_option autoImplicit false

namespace CallSchema.Docstring

inductive Mark where
  | unmarked | word | question
  deriving DecidableEq, Repr

def Mark.text : Mark → Text
  | .unmarked => []
  | .word => ", optional"
  | .question => "?"

def EndsOptional (hint : Text) : Prop :=
  ∃ before gap word, Text.blank gap = true ∧
    Text.sameIgnoringCase word "optional" = true ∧ hint = before ++ ',' :: (gap ++ word)

structure Inline (t : Text) : Prop where
  trimmed : Text.trim t = t
  newline : '\n' ∉ t
  tab : '\t' ∉ t

theorem Inline.exists_cons {t : Text} (h : Inline t) (visible : t ≠ []) :
    ∃ first rest, t = first :: rest ∧ Text.isBlank first = false := by
  obtain ⟨first, rest, rfl⟩ := List.exists_cons_of_ne_nil visible
  exact ⟨first, rest, rfl, Text.head?_of_trim_eq_self h.trimmed first rfl⟩

theorem Inline.trimEnd {t : Text} (h : Inline t) : Text.trimEnd t = t := by
  rw [← h.trimmed, Text.trimEnd_trim]

theorem Inline.plain {t : Text} (h : Inline t) : Plain t := ⟨h.newline, h.tab, h.trimEnd⟩

structure Hint where
  text : Text
  mark : Mark
  inline : Inline text
  visible : text ≠ []
  colon : ':' ∉ text
  -- A hint without a mark must not look like one that has it.
  unmarked : mark = .unmarked → ¬ EndsOptional text ∧ text.getLast? ≠ some '?'

namespace Hint

def marked (hint : Hint) : Text := hint.text ++ hint.mark.text

def isOptional (hint : Hint) : Bool := hint.mark ≠ .unmarked

theorem not_mem_marked {hint : Hint} {c : Char} (text : c ∉ hint.text)
    (mark : ∀ mark : Mark, c ∉ mark.text) : c ∉ hint.marked := by
  simp [marked, text, mark hint.mark]

theorem marked_ne_nil (hint : Hint) : hint.marked ≠ [] := by simp [marked, hint.visible]

theorem trim_marked (hint : Hint) : Text.trim hint.marked = hint.marked := by
  unfold marked
  cases hint.mark with
  | unmarked =>
    have whole : hint.text ++ Mark.unmarked.text = hint.text := List.append_nil _
    rw [whole, hint.inline.trimmed]
  | word => exact Text.trim_append_eq_self hint.visible hint.inline.trimmed (by decide) rfl
  | question => exact Text.trim_append_eq_self hint.visible hint.inline.trimmed (by decide) rfl

end Hint

namespace Item

theorem beforeOptional?_eq_none {hint : Text} (trimmed : Text.trimEnd hint = hint)
    (h : ¬ EndsOptional hint) : beforeOptional? hint = none := by
  rw [Option.eq_none_iff_forall_ne_some]
  intro before found
  obtain ⟨afterWord, word, found⟩ := Option.bind_eq_some_iff.mp found
  obtain ⟨afterComma, comma, -⟩ := Option.bind_eq_some_iff.mp found
  obtain ⟨backwards, whole, lower⟩ := Text.append_of_stripStartIgnoringCase? word
  obtain ⟨gap, blank, gapped⟩ := Text.exists_trimStart afterWord
  have reversed : Text.trimStart hint.reverse = hint.reverse := by
    rw [← List.reverse_inj, List.reverse_reverse]
    exact trimmed
  rw [reversed] at whole
  rw [Text.append_of_stripStart? comma] at gapped
  refine h ⟨afterComma.reverse, gap.reverse, backwards.reverse, ?_, ?_, ?_⟩
  · rw [Text.blank, List.all_reverse]
    exact blank
  · rw [Text.sameIgnoringCase, List.map_reverse, lower]
    decide
  · rw [← List.reverse_inj, whole, gapped]
    simp

theorem beforeOptional?_word {hint : Text} (trimmed : Text.trimEnd hint = hint) :
    beforeOptional? (hint ++ Mark.word.text) = some hint := by
  have backwards : (hint ++ Mark.word.text).reverse =
      "optional".toList.reverse ++ ' ' :: ',' :: hint.reverse := by
    rw [List.reverse_append]
    rfl
  have start : Text.trimStart ("optional".toList.reverse ++ ' ' :: ',' :: hint.reverse) =
      "optional".toList.reverse ++ ' ' :: ',' :: hint.reverse := rfl
  have comma : Text.trimStart (' ' :: ',' :: hint.reverse) = ',' :: hint.reverse := rfl
  simp only [beforeOptional?, backwards, start, Text.stripStartIgnoringCase?_append, Option.bind_eq_bind,
    Option.bind_some, comma, Text.stripStart?_cons_self, Text.stripStart?, List.reverse_reverse,
    trimmed, Option.pure_def]

theorem beforeOptional?_question (hint : Text) :
    beforeOptional? (hint ++ Mark.question.text) = none := by
  have backwards : Text.trimStart (hint ++ Mark.question.text).reverse = '?' :: hint.reverse := by
    rw [List.reverse_append]
    rfl
  rw [beforeOptional?, backwards]
  rfl

theorem optionality_unmarked {hint : Text} (trimmed : Text.trimEnd hint = hint)
    (word : ¬ EndsOptional hint) (question : hint.getLast? ≠ some '?') :
    optionality hint = (hint, false) := by
  have missing : Text.stripEnd? ['?'] hint = none := by
    rw [Option.eq_none_iff_forall_ne_some]
    intro before found
    rw [Text.append_of_stripEnd? found, List.getLast?_concat] at question
    exact question rfl
  rw [optionality, beforeOptional?_eq_none trimmed word, missing]

theorem optionality_word {hint : Text} (trimmed : Text.trimEnd hint = hint) :
    optionality (hint ++ Mark.word.text) = (hint, true) := by
  rw [optionality, beforeOptional?_word trimmed]

theorem optionality_question {hint : Text} (trimmed : Text.trimEnd hint = hint) :
    optionality (hint ++ Mark.question.text) = (hint, true) := by
  have found : Text.stripEnd? ['?'] (hint ++ Mark.question.text) = some hint :=
    Text.stripEnd?_append hint ['?']
  rw [optionality, beforeOptional?_question, found]
  simp only [trimmed]

theorem optionality_marked (hint : Hint) :
    optionality hint.marked = (hint.text, hint.isOptional) := by
  have trimmed : Text.trimEnd hint.text = hint.text := hint.inline.trimEnd
  unfold Hint.marked Hint.isOptional
  cases mark : hint.mark with
  | unmarked =>
    obtain ⟨word, question⟩ := hint.unmarked mark
    have whole : hint.text ++ Mark.unmarked.text = hint.text := List.append_nil _
    rw [whole]
    exact optionality_unmarked trimmed word question
  | word => exact optionality_word trimmed
  | question => exact optionality_question trimmed

theorem splitHead?_parentheses {name hint : Text} (nameVisible : name ≠ [])
    (nameTrim : Text.trim name = name) (nameOpen : '(' ∉ name) (hintVisible : hint ≠ [])
    (hintTrim : Text.trim hint = hint) :
    splitHead? (name ++ ' ' :: '(' :: (hint ++ [')'])) = some (name, hint) := by
  obtain ⟨first, rest, rfl⟩ := List.exists_cons_of_ne_nil nameVisible
  simp only [List.mem_cons, not_or] at nameOpen
  have plain : '(' ∉ rest ++ [' '] := by simp [nameOpen.2]
  have text : first :: rest ++ ' ' :: '(' :: (hint ++ [')']) =
      first :: ((rest ++ [' ']) ++ '(' :: (hint ++ [')'])) := by simp
  have shown : Text.blank hint = false := by
    rw [← Bool.not_eq_true, ← Text.trim_eq_nil_iff, hintTrim]
    exact hintVisible
  have trimmed : Text.trim (first :: (rest ++ [' '])) = first :: rest := by
    rw [← List.cons_append, Text.trim_append_blank _ rfl, nameTrim]
  have closed : Text.splitLast? [')'] (hint ++ [')']) = some (hint, []) :=
    Text.splitLast?_singleton (by simp) hint
  rw [text]
  refine Option.bind_eq_some_iff.mpr ⟨_, Text.splitFirst?_singleton plain _, ?_⟩
  refine Option.bind_eq_some_iff.mpr ⟨_, closed, ?_⟩
  refine Option.bind_eq_some_iff.mpr ⟨(), ?_, ?_⟩
  · rw [shown]
    rfl
  · rw [trimmed, hintTrim]
    rfl

end Item

-- An item as it is written. The lines below its head stand `deeper` to the right of the head, with
-- empty lines before and after them.
structure Written where
  name : Text
  hint : Option Hint
  summary : Text
  rest : List Text
  deeper : Nat
  before : Nat
  after : Nat
  nameInline : Inline name
  nameVisible : name ≠ []
  nameColon : ':' ∉ name
  nameOpen : '(' ∉ name
  summaryInline : Inline summary
  restPlain : ∀ line ∈ rest, Plain line
  restFirst : rest.head? ≠ some []
  restLast : rest.getLast? ≠ some []
  restLevel : Level rest
  indented : 0 < deeper

namespace Written

def hintText (written : Written) : Text :=
  match written.hint with
  | none => []
  | some hint => ' ' :: '(' :: (hint.marked ++ [')'])

def summaryText (written : Written) : Text :=
  if written.summary = [] then [] else ' ' :: written.summary

def head (written : Written) : Text :=
  written.name ++ (written.hintText ++ ':' :: written.summaryText)

def below (base : Nat) (written : Written) : List Text :=
  emptyLines written.before ++
    (written.rest.map (indentBy (base + written.deeper)) ++ emptyLines written.after)

def lines (base : Nat) (written : Written) : List Text :=
  indentBy base written.head :: written.below base

def description (written : Written) : Text :=
  Text.joinLines
    (if written.summary = [] then written.rest else written.summary :: written.rest)

def item (written : Written) : Item where
  name := written.name
  hint := written.hint.map Hint.text
  description := written.description
  isOptional := written.hint.any Hint.isOptional
  fallback := Item.fallback? written.description

theorem trim_summaryText (written : Written) :
    Text.trim written.summaryText = written.summary := by
  unfold summaryText
  split
  · next empty => exact empty.symm
  · exact (Text.trim_blank_append (s := [' ']) rfl _).trans written.summaryInline.trimmed

theorem trim_head (written : Written) : Text.trim written.head = written.head := by
  refine Text.trim_append_eq_self written.nameVisible written.nameInline.trimmed (by simp) ?_
  unfold summaryText
  split
  · exact Text.trimEnd_append_eq_self (by simp) rfl _
  · next some =>
    have whole := Text.trimEnd_append_eq_self some written.summaryInline.trimEnd
      (written.hintText ++ [':', ' '])
    simpa using whole

theorem not_mem_hintText {written : Written} {c : Char} (text : ∀ hint ∈ written.hint, c ∉ hint.text)
    (mark : ∀ mark : Mark, c ∉ mark.text) (bracket : c ∉ [' ', '(', ')']) :
    c ∉ written.hintText := by
  unfold hintText
  split
  · simp
  · next hint own =>
    have marked := Hint.not_mem_marked (text hint own) mark
    simp_all

theorem colon_not_mem_hintText (written : Written) : ':' ∉ written.hintText :=
  not_mem_hintText (fun hint _ => hint.colon) (by rintro ⟨⟩ <;> decide) (by decide)

theorem plain_head (written : Written) : Plain written.head := by
  have newline : '\n' ∉ written.hintText :=
    not_mem_hintText (fun hint _ => hint.inline.newline) (by rintro ⟨⟩ <;> decide) (by decide)
  have tab : '\t' ∉ written.hintText :=
    not_mem_hintText (fun hint _ => hint.inline.tab) (by rintro ⟨⟩ <;> decide) (by decide)
  refine ⟨?_, ?_, by rw [← written.trim_head, Text.trimEnd_trim]⟩
  · unfold head summaryText
    split <;> simp [written.nameInline.newline, newline, written.summaryInline.newline]
  · unfold head summaryText
    split <;> simp [written.nameInline.tab, tab, written.summaryInline.tab]

theorem indentOf_head (written : Written) : indentOf written.head = 0 := by
  obtain ⟨first, rest, name, visible⟩ := written.nameInline.exists_cons written.nameVisible
  rw [head, name]
  exact indentOf_of_visible visible _

theorem splitHead?_of_none {written : Written} (h : written.hint = none) :
    Item.splitHead? (written.name ++ written.hintText) = none := by
  obtain ⟨first, rest, name, -⟩ := written.nameInline.exists_cons written.nameVisible
  have plain : '(' ∉ rest := by
    have noOpen := written.nameOpen
    simp only [name, List.mem_cons, not_or] at noOpen
    exact noOpen.2
  have empty : written.hintText = [] := by rw [hintText, h]
  rw [empty, List.append_nil, name, Item.splitHead?, Text.splitFirst?_eq_none plain]
  rfl

theorem splitHead?_of_some {written : Written} {hint : Hint} (h : written.hint = some hint) :
    Item.splitHead? (written.name ++ written.hintText) = some (written.name, hint.marked) := by
  rw [hintText, h]
  exact Item.splitHead?_parentheses written.nameVisible written.nameInline.trimmed written.nameOpen
    hint.marked_ne_nil hint.trim_marked

theorem rest_below (base : Nat) (written : Written) :
    trimEmpty (dedent (written.below base)) = written.rest := by
  let padded := emptyLines written.before ++ (written.rest ++ emptyLines written.after)
  have indented : written.below base = padded.map (indentBy (base + written.deeper)) := by
    simp [padded, below, emptyLines, indentBy]
  have known : ∀ line ∈ padded, line = [] ∨ line ∈ written.rest := by
    intro line mem
    simp only [padded, List.mem_append] at mem
    rcases mem with before | rest | after
    · exact .inl (mem_emptyLines before)
    · exact .inr rest
    · exact .inl (mem_emptyLines after)
  have plain : ∀ line ∈ padded, Plain line := by
    intro line mem
    rcases known line mem with rfl | rest
    · exact plain_nil
    · exact written.restPlain line rest
  have level : Level padded := by
    rintro ⟨line, mem, some⟩
    rcases known line mem with empty | rest
    · exact absurd empty some
    · obtain ⟨flush, inside, found⟩ := written.restLevel ⟨line, rest, some⟩
      exact ⟨flush, by simp [padded, inside], found⟩
  rw [indented, dedent_indentBy plain level]
  exact trimEmpty_emptyLines_append written.restFirst written.restLast _ _

theorem ofLines_lines (base : Nat) (written : Written) :
    Item.ofLines (indentBy base written.head) (written.below base) = written.item := by
  have headTrim : Text.trim (indentBy base written.head) = written.head := by
    have visible : written.head ≠ [] := by simp [head]
    rw [indentBy, if_neg visible, Text.trim_blank_append (Text.blank_replicate_space base),
      written.trim_head]
  have colon : ':' ∉ written.name ++ written.hintText := by
    simp [written.nameColon, written.colon_not_mem_hintText]
  have split : Text.splitFirst? [':'] written.head =
      some (written.name ++ written.hintText, written.summaryText) := by
    rw [head, ← List.append_assoc]
    exact Text.splitFirst?_singleton colon _
  have description : Text.joinLines (if written.summary.isEmpty then written.rest
      else written.summary :: written.rest) = written.description := by
    simp [Written.description]
  cases hint : written.hint with
  | none =>
    simp only [Item.ofLines, headTrim, split, Option.getD_some, written.trim_summaryText,
      written.rest_below, description, splitHead?_of_none hint]
    simp [item, hint, hintText, written.nameInline.trimmed]
  | some hint' =>
    simp only [Item.ofLines, headTrim, split, Option.getD_some, written.trim_summaryText,
      written.rest_below, description, splitHead?_of_some hint, Item.optionality_marked]
    simp [item, hint]

end Written

end CallSchema.Docstring
